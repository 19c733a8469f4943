import ProcessThreadPool.ModernPool.Launch

/-!
# When a worker is declared dead

`worker_is_alive` compares the clock with `last_heartbeat` in the master's copy of the
record. The child refreshes its own copy, so the master goes on to find the time that
`worker_create` stored, and the worker counts as dead from ten seconds after that on,
however often its loop goes round. A call before `worker_start` has stored the pid finds
it dead as well.
-/

namespace ProcessThreadPool

namespace ModernPool

namespace Launch

/-- The process lives, nobody asks for it before it exists, and no more than
`WORKER_HEARTBEAT_INTERVAL` seconds pass without a heartbeat of its loop. -/
def Responsive {ι : Type*} (s : Twin ι) (l : TwinMove ι) (t : Twin ι) : Prop :=
  (∀ c, t.child = some c → c.place ≠ .gone) ∧
    match l with
    | .call _ _ => s.child ≠ none
    | .tick now => s.child ≠ none →
        now.toNat ≤ s.refreshedAt.toNat + workerHeartbeatInterval.toNat * 1000000000
    | _ => True

instance {ι : Type*} (s : Twin ι) (l : TwinMove ι) (t : Twin ι) :
    Decidable (Responsive s l t) :=
  @instDecidableAnd _ _ (inferInstanceAs (Decidable (∀ c ∈ t.child, c.place ≠ .gone)))
    (match l with
    | .call _ _ => inferInstanceAs (Decidable (s.child ≠ none))
    | .tick now => inferInstanceAs (Decidable (s.child ≠ none →
        now.toNat ≤ s.refreshedAt.toNat + workerHeartbeatInterval.toNat * 1000000000))
    | .create _ | .start | .fork _ | .recordPid | .recordRunning | .startMonitor _ =>
        isTrue trivial
    | .setUp _ | .test | .epoll _ | .handle | .exit | .kill | .conclude | .stop _ =>
        isTrue trivial)

/-- No call of `worker_is_alive` has returned false. -/
def NoneDeclaredDead {ι : Type*} (s : Twin ι) : Prop := ∀ c, s.calls c ≠ .returned false

/-- The master asks after it has stored the pid, and reads the clock less than ten seconds
after `worker_create` stored the heartbeat. -/
def AsksInTime {ι : Type*} (s : Twin ι) : TwinMove ι → Prop
  | .call c _ =>
      match s.calls c with
      | .idle | .returned _ => 0 < s.master.pid
      | .passed => True
      | .read now => now.toNat < s.createdAt.toNat + heartbeatTimeout.toNat
  | _ => True

/-- All interleavings in which the worker is responsive. -/
def responsive {ι : Type*} [DecidableEq ι] (stored : WorkerState) :
    Transition.System (Twin ι) (TwinMove ι) :=
  (launching stored).filter Responsive

/-- The master's copy has the heartbeat of `worker_create`, and every call has read the
clock after that. -/
structure Twin.Beating {ι : Type*} (s : Twin ι) : Prop where
  heartbeat : s.master.lastHeartbeat = s.createdAt
  createdAt : s.createdAt ≤ s.clock
  calls : ∀ c now, s.calls c = .read now → s.createdAt ≤ now
  idle : s.child = none → ∀ c, s.calls c = .idle
  unborn : s.start = .outside → s.child = none ∧ s.createdAt = 0
  alive : ∀ c, s.child = some c → c.place ≠ .gone
  clear : NoneDeclaredDead s

/-- What a step that neither creates the worker nor asks for it leaves as it was. -/
structure Twin.Untouched {ι : Type*} (s t : Twin ι) : Prop where
  heartbeat : t.master.lastHeartbeat = s.master.lastHeartbeat
  createdAt : t.createdAt = s.createdAt
  clock : s.clock ≤ t.clock
  calls : ∀ c, t.calls c = s.calls c ∨ t.calls c = .idle
  unborn : t.child = none → s.child = none
  outside : t.start = .outside → s.start = .outside ∧ (s.child = none → t.child = none)

section Steps

variable {ι : Type*} {s t : Twin ι} {stored : WorkerState} {l : TwinMove ι}

theorem conclude_untouched [DecidableEq ι] (hstep : s.conclude = some t) : s.Untouched t := by
  have hcalls : ∀ c, Function.update s.calls none .idle c = s.calls c ∨
      Function.update s.calls none .idle c = .idle := by
    intro c
    by_cases hc : c = none
    · subst hc
      exact Or.inr (Function.update_self _ _ _)
    · exact Or.inl (Function.update_of_ne hc _ _)
  simp only [Twin.conclude] at hstep
  split at hstep <;> cases hstep <;>
    exact ⟨rfl, rfl, UInt64.le_refl _, hcalls, id, fun hstart => ⟨hstart, id⟩⟩

theorem stopStep_untouched [DecidableEq ι] {c : ι} (hstep : s.stopStep c = some t) :
    s.Untouched t := by
  cases hc : s.stops c with
  | sent =>
      simp only [Twin.stopStep, hc, Option.some.injEq] at hstep
      subst hstep
      exact ⟨rfl, rfl, UInt64.le_refl _, fun _ => Or.inl rfl, Option.map_eq_none_iff.mp,
        fun hstart => ⟨hstart, Option.map_eq_none_iff.mpr⟩⟩
  | joining =>
      simp only [Twin.stopStep, hc] at hstep
      split_ifs at hstep
      obtain rfl := Option.some.inj hstep
      exact ⟨rfl, rfl, UInt64.le_refl _, fun _ => Or.inl rfl, id, fun hstart => ⟨hstart, id⟩⟩
  | _ =>
      simp only [Twin.stopStep, hc, Option.some.injEq] at hstep
      subst hstep
      exact ⟨rfl, rfl, UInt64.le_refl _, fun _ => Or.inl rfl, id, fun hstart => ⟨hstart, id⟩⟩

theorem step_untouched [DecidableEq ι] (hstep : s.step stored l = some t)
    (hcreate : ∀ ok, l ≠ .create ok) (hcall : ∀ c killOk, l ≠ .call c killOk) : s.Untouched t := by
  cases l with
  | create ok => exact absurd rfl (hcreate ok)
  | call c killOk => exact absurd rfl (hcall c killOk)
  | conclude => exact conclude_untouched hstep
  | stop c => exact stopStep_untouched hstep
  | start =>
      simp only [Twin.step] at hstep
      split_ifs at hstep <;> obtain rfl := Option.some.inj hstep <;>
        exact ⟨rfl, rfl, UInt64.le_refl _, fun _ => Or.inl rfl, id, fun h => by cases h⟩
  | fork pid =>
      simp only [Twin.step] at hstep
      split_ifs at hstep
      cases pid <;> obtain rfl := Option.some.inj hstep
      · exact ⟨rfl, rfl, UInt64.le_refl _, fun _ => Or.inl rfl, id, fun h => by cases h⟩
      · exact ⟨rfl, rfl, UInt64.le_refl _, fun _ => Or.inl rfl, (fun h => by cases h),
          fun h => by cases h⟩
  | recordPid =>
      simp only [Twin.step] at hstep
      split at hstep
      · obtain rfl := Option.some.inj hstep
        exact ⟨rfl, rfl, UInt64.le_refl _, fun _ => Or.inl rfl, id, fun h => by cases h⟩
      · cases hstep
  | recordRunning | startMonitor _ =>
      simp only [Twin.step] at hstep
      split_ifs at hstep
      obtain rfl := Option.some.inj hstep
      exact ⟨rfl, rfl, UInt64.le_refl _, fun _ => Or.inl rfl, id, fun h => by cases h⟩
  | tick now =>
      simp only [Twin.step] at hstep
      split_ifs at hstep with hle
      obtain rfl := Option.some.inj hstep
      exact ⟨rfl, rfl, hle, fun _ => Or.inl rfl, id, fun hstart => ⟨hstart, id⟩⟩
  | setUp _ | test | epoll _ | handle | exit | kill =>
      obtain ⟨c, hc, hchild⟩ := Option.bind_eq_some_iff.mp hstep
      obtain ⟨_, _, _, rfl⟩ := childStep_frame hchild
      refine ⟨rfl, rfl, UInt64.le_refl _, fun _ => Or.inl rfl, (fun h => by cases h),
        fun hstart => ⟨hstart, fun hnone => ?_⟩⟩
      rw [hc] at hnone
      cases hnone

/-- The verdict on a clock reading that is not before the heartbeat. -/
theorem recent_iff {now lastHeartbeat : UInt64} (hle : lastHeartbeat ≤ now) :
    now - lastHeartbeat < heartbeatTimeout ↔
      now.toNat < lastHeartbeat.toNat + heartbeatTimeout.toNat := by
  have hnat := UInt64.le_iff_toNat_le.mp hle
  rw [UInt64.lt_iff_toNat_lt, UInt64.toNat_sub_of_le _ _ hle]
  omega

namespace Twin.Beating

theorem of_untouched (h : s.Beating) (hsame : s.Untouched t)
    (halive : ∀ c, t.child = some c → c.place ≠ .gone) : t.Beating where
  heartbeat := by rw [hsame.heartbeat, hsame.createdAt]; exact h.heartbeat
  createdAt := by rw [hsame.createdAt]; exact UInt64.le_trans h.createdAt hsame.clock
  calls := fun c now hc => by
    rw [hsame.createdAt]
    rcases hsame.calls c with hold | hidle
    · exact h.calls c now (hold ▸ hc)
    · rw [hidle] at hc
      cases hc
  idle := fun hnone c => by
    rcases hsame.calls c with hold | hidle
    · exact hold.trans (h.idle (hsame.unborn hnone) c)
    · exact hidle
  unborn := fun hstart => by
    obtain ⟨hbefore, hnone⟩ := hsame.outside hstart
    obtain ⟨hchild, hcreated⟩ := h.unborn hbefore
    exact ⟨hnone hchild, hsame.createdAt.trans hcreated⟩
  alive := halive
  clear := fun c hc => by
    rcases hsame.calls c with hold | hidle
    · exact h.clear c (hold ▸ hc)
    · rw [hidle] at hc
      cases hc

variable [DecidableEq ι]

/-- What a call of `worker_is_alive` does on a worker whose process lives. -/
theorem callStep_cases (h : s.Beating) (hchild : s.child ≠ none) {c : Option ι}
    {killOk : Bool} (hstep : s.callStep c killOk = some t) :
    ∃ call, t = { s with calls := Function.update s.calls c call } ∧
      (call = .returned false ↔ ¬ AsksInTime s (.call c killOk)) ∧
      ∀ now, call = .read now → now = s.clock := by
  have halive : (s.child.map Child.alive).getD false = true := by
    obtain ⟨child, hsome⟩ := Option.ne_none_iff_exists'.mp hchild
    rw [hsome]
    exact decide_eq_true (h.alive child hsome)
  cases hc : s.calls c with
  | passed =>
      simp only [Twin.callStep, hc, Option.some.injEq] at hstep
      subst hstep
      refine ⟨_, rfl, ?_, fun now hnow => (Call.read.inj hnow).symm⟩
      simp [AsksInTime, hc]
  | read now =>
      simp only [Twin.callStep, hc, Option.some.injEq] at hstep
      subst hstep
      refine ⟨_, rfl, ?_, fun _ hnow => by cases hnow⟩
      simp only [AsksInTime, hc, Call.returned.injEq, decide_eq_false_iff_not, h.heartbeat]
      exact not_congr (recent_iff (h.calls c now hc))
  | idle | returned =>
      simp only [Twin.callStep, hc, halive, if_true] at hstep
      split_ifs at hstep with hmonitor hpid hkill <;> obtain rfl := Option.some.inj hstep
      · refine ⟨_, rfl, ?_, fun _ hnow => by cases hnow⟩
        simp [AsksInTime, hc, Int.not_lt.mpr hpid]
      · refine ⟨_, rfl, ?_, fun _ hnow => by cases hnow⟩
        simp [AsksInTime, hc, Int.not_le.mp hpid]

theorem callStep (h : s.Beating) (hchild : s.child ≠ none) {c : Option ι} {killOk : Bool}
    (hasks : AsksInTime s (.call c killOk)) (hstep : s.callStep c killOk = some t) :
    t.Beating := by
  obtain ⟨call, rfl, hverdict, hread⟩ := h.callStep_cases hchild hstep
  refine ⟨h.heartbeat, h.createdAt, fun c' now hc' => ?_, fun hnone => absurd hnone hchild,
    h.unborn, h.alive, fun c' hc' => ?_⟩ <;> simp only at hc' <;> by_cases heq : c' = c
  · rw [heq, Function.update_self] at hc'
    rw [hread now hc']
    exact h.createdAt
  · rw [Function.update_of_ne heq] at hc'
    exact h.calls c' now hc'
  · rw [heq, Function.update_self] at hc'
    exact hverdict.mp hc' hasks
  · rw [Function.update_of_ne heq] at hc'
    exact h.clear c' hc'

theorem create (h : s.Beating) {ok : Bool} (hstep : s.step stored (.create ok) = some t) :
    t.Beating := by
  simp only [Twin.step] at hstep
  split_ifs at hstep with hstart hok <;> obtain rfl := Option.some.inj hstep
  · -- No call is under way before there is a child.
    have hidle := h.idle (h.unborn hstart).1
    refine ⟨rfl, UInt64.le_refl _, fun c now hc => ?_, h.idle, (fun hout => by cases hout),
      h.alive, h.clear⟩
    cases (hidle c).symm.trans hc
  · exact ⟨(h.unborn hstart).2.symm, h.createdAt, h.calls, h.idle, (fun hout => by cases hout),
      h.alive, h.clear⟩

theorem step (h : s.Beating) (hasks : AsksInTime s l) (hresponsive : Responsive s l t)
    (hstep : s.step stored l = some t) : t.Beating := by
  cases l with
  | create ok => exact h.create hstep
  | call c killOk => exact h.callStep hresponsive.2 hasks hstep
  | _ =>
      exact h.of_untouched (step_untouched hstep (fun _ h => by cases h) fun _ _ h => by cases h)
        hresponsive.1

theorem clear_iff (h : s.Beating) (hresponsive : Responsive s l t)
    (hstep : s.step stored l = some t) : NoneDeclaredDead t ↔ AsksInTime s l := by
  cases l with
  | call c killOk =>
      obtain ⟨call, rfl, hverdict, -⟩ := h.callStep_cases hresponsive.2 hstep
      refine ⟨fun hclear => ?_, fun hasks => (h.callStep hresponsive.2 hasks hstep).clear⟩
      by_contra hasks
      exact hclear c ((Function.update_self _ _ _).trans (hverdict.mpr hasks))
  | _ => exact ⟨fun _ => trivial, fun hasks => (h.step hasks hresponsive hstep).clear⟩

end Twin.Beating

end Steps

theorem beating_initial {ι : Type*} (clock : UInt64) : (Twin.initial clock : Twin ι).Beating where
  heartbeat := rfl
  createdAt := UInt64.le_iff_toNat_le.mpr (Nat.zero_le _)
  calls := fun _ _ h => by cases h
  idle := fun _ _ => rfl
  unborn := fun _ => ⟨rfl, rfl⟩
  alive := fun _ h => by cases h
  clear := fun _ h => by cases h

/-! ## Whole runs -/

section Runs

variable {ι : Type*} [DecidableEq ι]

/-- In a run of a responsive worker no call of `worker_is_alive` returns false exactly
when each call comes after the pid is stored and reads the clock less than ten seconds
after `worker_create`. It does not matter what the child finds in its copy, nor how often
it refreshes its heartbeat. -/
theorem noneDeclaredDead_iff (stored : WorkerState) (clock : UInt64)
    (ls : List (TwinMove ι)) (t : Twin ι) :
    Transition.Run ((responsive stored).filter fun _ _ t => NoneDeclaredDead t)
        (Twin.initial clock) ls t ↔
      Transition.Run ((responsive stored).restrict AsksInTime) (Twin.initial clock) ls t := by
  apply Transition.run_filter_iff_restrict (I := Twin.Beating)
  · intro s l t h hasks hstep
    exact h.step hasks hstep.2 hstep.1
  · intro s l t h hstep
    exact h.clear_iff hstep.2 hstep.1
  · exact beating_initial clock

end Runs

/-- `worker_start` comes ten seconds after `worker_create`, and the process that it has
just forked is declared dead. With `RUNNING` in its copy a child that refreshes its
heartbeat every five seconds is declared dead after ten. -/
theorem responsive_worker_declared_dead :
    (¬ ∀ t : Twin Unit, Transition.Reachable (responsive .starting) t → NoneDeclaredDead t) ∧
      ¬ ∀ t : Twin Unit, Transition.Reachable (responsive .running) t →
        NoneDeclaredDead t := by
  have hchecked : ∀ (stored : WorkerState) (ls : List (TwinMove Unit)),
      (Transition.exec (fun s l => (Twin.step stored s l).filter fun t => Responsive s l t)
        (Twin.initial 0) ls).map (fun t => t.calls none) = some (.returned false) →
      ¬ ∀ t : Twin Unit, Transition.Reachable (responsive stored) t → NoneDeclaredDead t := by
    intro stored ls hexec hclaim
    obtain ⟨t, ht, hdead⟩ := Option.map_eq_some_iff.mp hexec
    have hrun : Transition.Run (responsive stored) (Twin.initial 0) ls t :=
      Transition.run_filter_of_exec (fun _ _ _ hstep => hstep) ht
    exact hclaim t ⟨_, ls, ⟨0, rfl⟩, hrun⟩ none hdead
  constructor
  · exact hchecked .starting [.create true, .tick 10000000000, .start, .fork (some 6),
      .recordPid, .recordRunning, .startMonitor true, .call none true, .call none true,
      .call none true] (by decide +kernel)
  · exact hchecked .running [.create true, .start, .fork (some 6), .recordPid, .recordRunning,
      .startMonitor true, .setUp true, .setUp true, .setUp true, .setUp true, .test,
      .tick 5000000000, .epoll .timedOut, .test, .tick 10000000000, .epoll .timedOut,
      .call none true, .call none true, .call none true] (by decide +kernel)

end Launch

end ModernPool

end ProcessThreadPool
