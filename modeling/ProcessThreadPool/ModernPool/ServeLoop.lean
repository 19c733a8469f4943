import ProcessThreadPool.ModernPool.Launch

/-!
# How long a started worker serves

The child of `worker_start` tests `worker->state` in its own copy of the record, which
still has the state that was stored before `fork`. With `RUNNING` there it would leave its
loop only when it is told to or when `epoll_wait` fails; with `STARTING` it leaves at the
first test.
-/

namespace ProcessThreadPool

namespace ModernPool

namespace Launch

/-- The child is inside the loop, or has left it. -/
def Place.entered : Place → Bool
  | .waiting | .handling _ | .left => true
  | _ => false

/-- What a child knows of a command to shut down. -/
def Child.Told (c : Child) : Prop := c.running = false → .shutdown ∈ c.acted

/-- What a step of the child can do to it. -/
structure Child.After {ι : Type*} (c : Child) (l : TwinMove ι) (c' : Child) : Prop where
  state : c'.record.state = c.record.state
  told : c.Told → c'.Told
  acted : c.place.entered = false → c'.acted = c.acted
  entered : c'.place.entered = true → c.place.entered = true ∨ l = .test
  left : c'.place = .left → c.place = .left ∨ l = .epoll .failed ∨
    l = .test ∧ ¬ (c.running = true ∧ c.record.state = .running)

/-- The child leaves the loop only when it has been told to, or `epoll_wait` fails. -/
def LeavesWhenTold {ι : Type*} (s : Twin ι) (l : TwinMove ι) (t : Twin ι) : Prop :=
  ∀ c c', s.child = some c → t.child = some c' → c.place ≠ .left → c'.place = .left →
    .shutdown ∈ c.acted ∨ l = .epoll .failed

section Child

variable {ι : Type*} {s t : Twin ι} {c c' : Child}

/-- A step that moves the child on and changes nothing else of it. -/
theorem Child.After.goto {l : TwinMove ι} {place : Place}
    (hentered : place.entered = true → c.place.entered = true ∨ l = .test)
    (hleft : place = .left → c.place = .left ∨ l = .epoll .failed ∨
      l = .test ∧ ¬ (c.running = true ∧ c.record.state = .running)) :
    c.After l (c.goto place) :=
  ⟨rfl, id, fun _ => rfl, hentered, hleft⟩

/-- A read of the control eventfd. -/
theorem readControl_after {events : List Source}
    (hplace : c.place = .handling (.control :: events)) :
    ∃ c', (s.readControl c events).child = some c' ∧ c.After (ι := ι) .handle c' := by
  have hin : c.place.entered = true := by rw [hplace]; rfl
  have hout : ¬ c.place.entered = false := by rw [hin]; decide
  simp only [Twin.readControl]
  split
  · exact ⟨_, rfl, Child.After.goto (fun _ => Or.inl hin) fun h => by cases h⟩
  · next value counter _ =>
      split
      · exact ⟨_, rfl, Child.After.goto (fun _ => Or.inl hin) fun h => by cases h⟩
      · next command _ =>
          have hmore : c.Told → c.running = false → .shutdown ∈ c.acted ++ [command] :=
            fun htold hrunning => List.mem_append_left _ (htold hrunning)
          cases command with
          | shutdown =>
              exact ⟨_, rfl, rfl, fun _ _ => List.mem_append_right _ (List.mem_singleton_self _),
                fun h => absurd h hout, fun _ => Or.inl hin, fun h => by cases h⟩
          | pause | resume | ping =>
              exact ⟨_, rfl, rfl, hmore, fun h => absurd h hout, fun _ => Or.inl hin,
                fun h => by cases h⟩

theorem childStep_after {l : TwinMove ι} (hstep : s.childStep c l = some t) :
    ∃ c', t.child = some c' ∧ c.After l c' := by
  cases l with
  | setUp ok =>
      simp only [Twin.childStep] at hstep
      split at hstep
      · next next hplace =>
          obtain rfl := Option.some.inj hstep
          refine ⟨_, rfl, Child.After.goto ?_ ?_⟩ <;> cases ok <;> cases next <;>
            intro h <;> cases h
      · cases hstep
  | test =>
      simp only [Twin.childStep] at hstep
      split_ifs at hstep with hplace hrun <;> obtain rfl := Option.some.inj hstep
      · exact ⟨_, rfl, Child.After.goto (fun _ => Or.inr rfl) fun h => by cases h⟩
      · exact ⟨_, rfl, Child.After.goto (fun _ => Or.inr rfl) fun _ => Or.inr (Or.inr ⟨rfl, hrun⟩)⟩
  | epoll outcome =>
      simp only [Twin.childStep] at hstep
      split_ifs at hstep with hplace
      have hin : c.place.entered = true := by rw [hplace]; rfl
      cases outcome with
      | timedOut =>
          obtain rfl := Option.some.inj hstep
          exact ⟨_, rfl, rfl, id, fun _ => rfl, fun _ => Or.inl hin, fun h => by cases h⟩
      | failed =>
          obtain rfl := Option.some.inj hstep
          exact ⟨_, rfl, Child.After.goto (fun _ => Or.inl hin) fun _ => Or.inr (Or.inl rfl)⟩
      | interrupted | ready events =>
          obtain rfl := Option.some.inj hstep
          exact ⟨_, rfl, Child.After.goto (fun _ => Or.inl hin) fun h => by cases h⟩
  | handle =>
      simp only [Twin.childStep] at hstep
      split at hstep
      · obtain rfl := Option.some.inj hstep
        exact ⟨_, rfl, Child.After.goto (fun h => by cases h) fun h => by cases h⟩
      · next events hplace =>
          obtain rfl := Option.some.inj hstep
          have hin : c.place.entered = true := by rw [hplace]; rfl
          exact ⟨_, rfl, Child.After.goto (fun _ => Or.inl hin) fun h => by cases h⟩
      · next events hplace =>
          obtain rfl := Option.some.inj hstep
          exact readControl_after hplace
      · cases hstep
  | exit | kill =>
      simp only [Twin.childStep] at hstep
      split_ifs at hstep
      obtain rfl := Option.some.inj hstep
      exact ⟨_, rfl, Child.After.goto (fun h => by cases h) fun h => by cases h⟩
  | _ => cases hstep

end Child

/-- What is known of the child as long as every test of the loop condition finds the state
`RUNNING`: its copy has the state that was stored before `fork`, `running` is cleared by a
command only, and with another state it has not come into the loop. -/
structure Twin.Served {ι : Type*} (stored : WorkerState) (s : Twin ι) : Prop where
  prepared : s.Prepared stored
  state : ∀ c, s.child = some c → c.record.state = stored
  told : ∀ c, s.child = some c → c.Told
  outside : stored ≠ .running → ∀ c, s.child = some c → c.place.entered = false ∧ c.acted = []

/-- A test of the loop condition finds the state `RUNNING`. -/
def TestsRunning {ι : Type*} (stored : WorkerState) (_ : Twin ι) (l : TwinMove ι) : Prop :=
  l = .test → stored = .running

theorem served_initial {ι : Type*} (stored : WorkerState) (clock : UInt64) :
    (Twin.initial clock : Twin ι).Served stored where
  prepared := prepared_initial clock
  state := fun _ hc => by cases hc
  told := fun _ hc => by cases hc
  outside := fun _ _ hc => by cases hc

section Serving

variable {ι : Type*} [DecidableEq ι] {s t : Twin ι} {stored : WorkerState} {l : TwinMove ι}

/-- A step forks the child, moves it, or leaves it alone. -/
theorem step_child (hstep : s.step stored l = some t) :
    t.child = s.child ∨
      (s.start = .storedState ∧ t.child = some ⟨s.master, .settingUp .signals, true, []⟩) ∨
      ∃ c c', s.child = some c ∧ t.child = some c' ∧ c.After l c' := by
  cases l with
  | create ok =>
      simp only [Twin.step] at hstep
      split_ifs at hstep <;> obtain rfl := Option.some.inj hstep <;> exact Or.inl rfl
  | start =>
      simp only [Twin.step] at hstep
      split_ifs at hstep <;> obtain rfl := Option.some.inj hstep <;> exact Or.inl rfl
  | fork pid =>
      simp only [Twin.step] at hstep
      split_ifs at hstep with hstart
      cases pid <;> obtain rfl := Option.some.inj hstep
      · exact Or.inl rfl
      · exact Or.inr (Or.inl ⟨hstart, rfl⟩)
  | recordPid =>
      simp only [Twin.step] at hstep
      split at hstep
      · obtain rfl := Option.some.inj hstep
        exact Or.inl rfl
      · cases hstep
  | recordRunning | startMonitor _ | tick _ =>
      simp only [Twin.step] at hstep
      split_ifs at hstep
      obtain rfl := Option.some.inj hstep
      exact Or.inl rfl
  | call c killOk =>
      obtain ⟨_, rfl, -⟩ := callStep_frame hstep
      exact Or.inl rfl
  | conclude =>
      simp only [Twin.step, Twin.conclude] at hstep
      split at hstep <;> cases hstep <;> exact Or.inl rfl
  | stop c =>
      cases hc : s.stops c with
      | sent =>
          simp only [Twin.step, Twin.stopStep, hc, Option.some.injEq] at hstep
          subst hstep
          cases hchild : s.child with
          | none => exact Or.inl rfl
          | some c =>
              exact Or.inr (Or.inr ⟨c, _, rfl, rfl,
                Child.After.goto (fun h => by cases h) fun h => by cases h⟩)
      | joining =>
          simp only [Twin.step, Twin.stopStep, hc] at hstep
          split_ifs at hstep
          obtain rfl := Option.some.inj hstep
          exact Or.inl rfl
      | _ =>
          simp only [Twin.step, Twin.stopStep, hc, Option.some.injEq] at hstep
          subst hstep
          exact Or.inl rfl
  | setUp _ | test | epoll _ | handle | exit | kill =>
      obtain ⟨c, hc, hchild⟩ := Option.bind_eq_some_iff.mp hstep
      obtain ⟨c', hc', hafter⟩ := childStep_after hchild
      exact Or.inr (Or.inr ⟨c, c', hc, hc', hafter⟩)

theorem Twin.Served.step (h : s.Served stored) (htests : TestsRunning stored s l)
    (hstep : s.step stored l = some t) : t.Served stored := by
  have hprepared := h.prepared.step hstep
  rcases step_child hstep with hsame | ⟨hstart, hfork⟩ | ⟨c, c', hc, hc', hafter⟩
  · refine ⟨hprepared, ?_, ?_, ?_⟩
    · rw [hsame]
      exact h.state
    · rw [hsame]
      exact h.told
    · rw [hsame]
      exact h.outside
  · refine ⟨hprepared, fun c hc => ?_, fun c hc => ?_, fun _ c hc => ?_⟩ <;>
      obtain rfl := Option.some.inj (hfork.symm.trans hc)
    · exact h.prepared.state hstart
    · exact fun hrunning => by cases hrunning
    · exact ⟨rfl, rfl⟩
  · refine ⟨hprepared, fun d hd => ?_, fun d hd => ?_, fun hne d hd => ?_⟩ <;>
      obtain rfl := Option.some.inj (hc'.symm.trans hd)
    · exact hafter.state.trans (h.state c hc)
    · exact hafter.told (h.told c hc)
    · obtain ⟨hout, hacted⟩ := h.outside hne c hc
      refine ⟨Bool.eq_false_iff.mpr fun hin => ?_, (hafter.acted hout).trans hacted⟩
      rcases hafter.entered hin with hold | htest
      · rw [hout] at hold
        cases hold
      · exact hne (htests htest)

/-- The child leaves its loop only when it has been told to exactly when a test of the
condition, if the step is one, finds the state `RUNNING`. -/
theorem Twin.Served.leavesWhenTold_iff (h : s.Served stored)
    (hstep : s.step stored l = some t) :
    LeavesWhenTold s l t ↔ TestsRunning stored s l := by
  constructor
  · rintro hleaves rfl
    by_contra hne
    obtain ⟨c, hc, htest⟩ := Option.bind_eq_some_iff.mp hstep
    simp only [Twin.childStep] at htest
    split_ifs at htest with hplace hrun
    · exact hne ((h.state c hc).symm.trans hrun.2)
    · obtain rfl := Option.some.inj htest
      rcases hleaves c _ hc rfl (by rw [hplace]; decide) rfl with hmem | hfailed
      · rw [(h.outside hne c hc).2] at hmem
        cases hmem
      · cases hfailed
  · intro htests c c' hc hc' hne hleft
    rcases step_child hstep with hsame | ⟨-, hfork⟩ | ⟨d, d', hd, hd', hafter⟩
    · rw [hsame, hc] at hc'
      obtain rfl := Option.some.inj hc'
      exact absurd hleft hne
    · obtain rfl := Option.some.inj (hfork.symm.trans hc')
      cases hleft
    · obtain rfl := Option.some.inj (hd.symm.trans hc)
      obtain rfl := Option.some.inj (hd'.symm.trans hc')
      rcases hafter.left hleft with hold | hfailed | ⟨htest, hnot⟩
      · exact absurd hold hne
      · exact Or.inr hfailed
      · -- The state is `RUNNING`, so it is `running` that is false.
        refine Or.inl (h.told d hd (Bool.eq_false_iff.mpr fun hrunning => hnot ⟨hrunning, ?_⟩))
        rw [h.state d hd]
        exact htests htest

end Serving

/-! ## Whole runs -/

section Runs

variable {ι : Type*} [DecidableEq ι]

/-- Whatever state `worker_start` stores before it forks, the child leaves its loop only
when it has been told to exactly in the runs in which it tests the loop condition only
with the state `RUNNING`. -/
theorem leavesWhenTold_run_iff (stored : WorkerState) (clock : UInt64)
    (ls : List (TwinMove ι)) (t : Twin ι) :
    Transition.Run ((launching stored).filter LeavesWhenTold) (Twin.initial clock) ls t ↔
      Transition.Run ((launching stored).restrict (TestsRunning stored)) (Twin.initial clock)
        ls t := by
  apply Transition.run_filter_iff_restrict (I := Twin.Served stored)
  · intro s l t h htests hstep
    exact h.step htests hstep
  · intro s l t h hstep
    exact h.leavesWhenTold_iff hstep
  · exact served_initial stored clock

/-- With the state that `worker_start` stores, the child keeps serving exactly in the runs
in which it never gets as far as testing the loop condition. -/
theorem started_worker_serves_iff (clock : UInt64) (ls : List (TwinMove ι)) (t : Twin ι) :
    Transition.Run ((launching .starting).filter LeavesWhenTold) (Twin.initial clock) ls t ↔
      Transition.Run ((launching .starting).restrict fun _ l => l ≠ .test)
        (Twin.initial clock) ls t := by
  have hsame : (fun _ l => l ≠ .test : Twin ι → TwinMove ι → Prop) = TestsRunning .starting := by
    funext s l
    refine propext ⟨fun hne htest => absurd htest hne, fun htests htest => ?_⟩
    cases htests htest
  rw [hsame]
  exact leavesWhenTold_run_iff .starting clock ls t

/-- Nothing goes wrong in `worker_start`, and the child leaves the loop at its first
test, without a command. -/
theorem started_worker_leaves : ¬ ∀ (clock : UInt64) (ls : List (TwinMove Unit))
    (t : Twin Unit), Transition.Run (launching .starting) (Twin.initial clock) ls t →
      t.start = .returned .success →
        Transition.Run ((launching .starting).filter LeavesWhenTold) (Twin.initial clock)
          ls t := by
  intro hclaim
  have hrun := hclaim 0 [.create true, .start, .fork (some 6), .recordPid, .recordRunning,
    .startMonitor true, .setUp true, .setUp true, .setUp true, .setUp true, .test] _
    (.cons rfl (.cons rfl (.cons rfl (.cons rfl (.cons rfl (.cons rfl (.cons rfl (.cons rfl
      (.cons rfl (.cons rfl (.cons rfl (.nil _)))))))))))) rfl
  have htests := ((leavesWhenTold_run_iff .starting 0 _ _).mp hrun).forall_mem_of_restrict
    .test (by decide) rfl
  cases htests

end Runs

end Launch

end ModernPool

end ProcessThreadPool
