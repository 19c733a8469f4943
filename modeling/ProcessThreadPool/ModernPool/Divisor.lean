import ProcessThreadPool.ModernPool.Workers

/-!
# The divisor of `pool_stop`

`pool_stop` divides its timeout by the number of active workers, which it loads after it has
waited for the running tasks without `pool_mutex`. A pool that runs has at least
`min_workers` active workers, and `pool_resize`, which does not look at the state of the
pool, never goes below that number, also not in the middle of its loops.
-/

namespace ProcessThreadPool

namespace ModernPool

open Transition

variable {c : Config} {s t : Pool c}

/-- No `pool_stop` waits, and the pool is in the given state. -/
def Held (s : Pool c) (state : PoolState) : Prop := s.state = state ∧ s.waiting = none

/-- What a call knows about the count at the slot that it has come to. -/
def Ongoing (s : Pool c) : Phase → Prop
  | .within (.start before) i op =>
      Held s .starting ∧ before ≤ c.maxWorkers ∧ s.activeWorkers = before + i ∧
        i ≤ c.minWorkers ∧ (op ≠ .test → i < c.minWorkers)
  | .within .undo _ op => Held s .stopping ∧ op ≠ .create ∧ op ≠ .start
  | .within (.grow target) i op =>
      target ≤ c.maxWorkers ∧ s.activeWorkers = i ∧ (op ≠ .test → i < target)
  | .within (.shrink target current) i op =>
      c.minWorkers ≤ target ∧ target + (current - i) ≤ s.activeWorkers ∧
        (op ≠ .test → i < current) ∧ op ≠ .create ∧ op ≠ .start
  | .within (.stop _) _ op =>
      Held s .stopping ∧ c.minWorkers ≤ s.activeWorkers ∧ op ≠ .create ∧ op ≠ .start
  | _ => True

/-- A pool that runs, or that is being stopped, has `min_workers` active workers. -/
structure Guarded (s : Pool c) : Prop where
  running : s.state = .running → c.minWorkers ≤ s.activeWorkers
  waiting : s.waiting.isSome → s.state = .stopping ∧ c.minWorkers ≤ s.activeWorkers
  created : s.state = .created → s.activeWorkers ≤ c.maxWorkers
  bounded : s.activeWorkers ≤ c.maxWorkers + c.minWorkers
  ongoing : Ongoing s s.phase

/-- The division of `pool_stop` is defined in this state, and was since the pool has begun to
run. -/
structure DivisorSafe (s : Pool c) : Prop where
  minimum : 1 ≤ c.minWorkers
  running : s.state = .running → c.minWorkers ≤ s.activeWorkers
  waiting : s.waiting.isSome → c.minWorkers ≤ s.activeWorkers
  loaded : ∀ destroying i op, s.phase = .within (.stop destroying) i op →
    c.minWorkers ≤ s.activeWorkers
  divisor : ∀ call i, s.phase = .within call i .stop → call.divides →
    UInt32.ofNat s.activeWorkers ≠ 0

/-- The two states agree in what the count depends on. -/
structure SameBooks (s t : Pool c) : Prop where
  phase : t.phase = s.phase
  state : t.state = s.state
  activeWorkers : t.activeWorkers = s.activeWorkers
  waiting : t.waiting = s.waiting

/-! ## Functions that leave the count alone -/

theorem SameBooks.refl (s : Pool c) : SameBooks s s := ⟨rfl, rfl, rfl, rfl⟩

theorem OnSlot.sameBooks {i : Fin c.maxWorkers} (h : OnSlot i s t) : SameBooks s t :=
  ⟨h.phase, h.state, h.activeWorkers, h.waiting⟩

theorem Behind.sameBooks {i : Fin c.maxWorkers} (h : Behind i s t) : SameBooks s t :=
  ⟨h.phase, h.state, h.activeWorkers, h.waiting⟩

theorem SameBooks.monitorStep {i : Fin c.maxWorkers} (hstep : monitorStep s i = some t) :
    SameBooks s t := by
  rw [ModernPool.monitorStep] at hstep
  split_ifs at hstep <;> obtain rfl := Option.some.inj hstep
  · exact .refl s
  · exact ⟨rfl, rfl, rfl, rfl⟩

theorem SameBooks.ongoing_iff (h : SameBooks s t) {phase : Phase} :
    Ongoing t phase ↔ Ongoing s phase := by
  unfold Ongoing Held
  rw [h.state, h.activeWorkers, h.waiting]

theorem Guarded.of_books (h : Guarded s) (hbooks : SameBooks s t) : Guarded t where
  running := by
    rw [hbooks.state, hbooks.activeWorkers]
    exact h.running
  waiting := by
    rw [hbooks.state, hbooks.activeWorkers, hbooks.waiting]
    exact h.waiting
  created := by
    rw [hbooks.state, hbooks.activeWorkers]
    exact h.created
  bounded := by
    rw [hbooks.activeWorkers]
    exact h.bounded
  ongoing := by
    rw [hbooks.ongoing_iff, hbooks.phase]
    exact h.ongoing

theorem Guarded.goto (h : Guarded s) {phase : Phase} (hphase : Ongoing s phase) :
    Guarded (s.goto phase) :=
  ⟨h.running, h.waiting, h.created, h.bounded, hphase⟩

/-- With no `pool_stop` waiting, in a state other than `RUNNING`. -/
theorem Guarded.of_held (state : PoolState) (hheld : Held s state) (hrunning : state ≠ .running)
    (hcreated : state = .created → s.activeWorkers ≤ c.maxWorkers)
    (hbounded : s.activeWorkers ≤ c.maxWorkers + c.minWorkers) (hongoing : Ongoing s s.phase) :
    Guarded s where
  running := fun hstate => absurd (hheld.1.symm.trans hstate) hrunning
  waiting := by
    rw [hheld.2]
    exact fun hsome => absurd hsome Bool.false_ne_true
  created := fun hstate => hcreated (hheld.1.symm.trans hstate)
  bounded := hbounded
  ongoing := hongoing

/-! ## The steps of a call -/

/-- Behind the test of its loop a call knows the same at each step, if it takes the step. -/
theorem Ongoing.advance {call : Call} {i : ℕ} {op next : Op} (h : Ongoing s (.within call i op))
    (hop : op ≠ .test)
    (hclears : op ≠ .create → op ≠ .start → next ≠ .create ∧ next ≠ .start) :
    Ongoing s (.within call i next) := by
  cases call with
  | start before =>
    obtain ⟨hheld, hbefore, hactive, hi, hlt⟩ := h
    exact ⟨hheld, hbefore, hactive, hi, fun _ => hlt hop⟩
  | grow target =>
    obtain ⟨htarget, hactive, hlt⟩ := h
    exact ⟨htarget, hactive, fun _ => hlt hop⟩
  | undo => exact ⟨h.1, hclears h.2.1 h.2.2⟩
  | shrink target current =>
    obtain ⟨hmin, hcount, hlt, hcreate, hstart⟩ := h
    exact ⟨hmin, hcount, fun _ => hlt hop, hclears hcreate hstart⟩
  | stop destroying =>
    obtain ⟨hheld, hmin, hcreate, hstart⟩ := h
    exact ⟨hheld, hmin, hclears hcreate hstart⟩

theorem Guarded.failed {call : Call} {i : ℕ} {op : Op} (h : Guarded s)
    (hongoing : Ongoing s (.within call i op)) : Guarded (failed s call) := by
  cases call with
  | start before =>
    obtain ⟨⟨-, hwaiting⟩, -⟩ := hongoing
    exact .of_held .stopping ⟨rfl, hwaiting⟩ (by decide)
      (fun hstate => absurd hstate (by decide)) h.bounded
      ⟨⟨rfl, hwaiting⟩, by decide, by decide⟩
  | _ => exact h.goto trivial

theorem Guarded.testStep {call : Call} {i : ℕ} (h : Guarded s)
    (hongoing : Ongoing s (.within call i .test)) (hstep : testStep s call i = some t) :
    Guarded t := by
  have hstopStarted : ∀ j : Fin c.maxWorkers,
      Ongoing s (.within call j .stop) → Ongoing s (.within call (j + 1) .test) →
        Guarded (stopStarted s call j) := by
    intro j hstop hnext
    rw [stopStarted]
    split_ifs
    · exact h.goto hstop
    · exact h.goto hnext
  cases call with
  | start before =>
    obtain ⟨hheld, hbefore, hactive, hi, -⟩ := hongoing
    simp only [ModernPool.testStep] at hstep
    split_ifs at hstep with hlt <;> obtain rfl := Option.some.inj hstep
    · exact h.goto ⟨hheld, hbefore, hactive, hi, fun _ => hlt⟩
    · refine ⟨fun _ => ?_, fun hsome => absurd hsome (by simp [hheld.2]), ?_, h.bounded,
        trivial⟩
      · show c.minWorkers ≤ s.activeWorkers
        omega
      · intro hstate
        cases hstate
  | undo =>
    obtain ⟨hheld, -⟩ := hongoing
    simp only [ModernPool.testStep] at hstep
    split_ifs at hstep with hlt <;> obtain rfl := Option.some.inj hstep
    · exact hstopStarted ⟨i, hlt⟩ ⟨hheld, by decide, by decide⟩ ⟨hheld, by decide, by decide⟩
    · exact .of_held .created ⟨rfl, hheld.2⟩ (by decide) (fun _ => Nat.zero_le _)
        (Nat.zero_le _) trivial
  | grow target =>
    obtain ⟨htarget, hactive, -⟩ := hongoing
    simp only [ModernPool.testStep] at hstep
    split_ifs at hstep with hlt <;> obtain rfl := Option.some.inj hstep
    · exact h.goto ⟨htarget, hactive, fun _ => hlt⟩
    · exact h.goto trivial
  | shrink target current =>
    obtain ⟨hmin, hcount, -⟩ := hongoing
    simp only [ModernPool.testStep] at hstep
    split_ifs at hstep with hlt hmax <;> obtain rfl := Option.some.inj hstep
    · refine hstopStarted ⟨i, hmax⟩ ⟨hmin, hcount, fun _ => hlt, by decide, by decide⟩
        ⟨hmin, ?_, fun hne => absurd rfl hne, by decide, by decide⟩
      simp only
      omega
    · exact h.goto trivial
  | stop destroying =>
    obtain ⟨hheld, hmin, -⟩ := hongoing
    simp only [ModernPool.testStep] at hstep
    split_ifs at hstep with hlt hhandler hdestroying <;> obtain rfl := Option.some.inj hstep
    · exact hstopStarted ⟨i, hlt⟩ ⟨hheld, hmin, by decide, by decide⟩
        ⟨hheld, hmin, by decide, by decide⟩
    all_goals
      exact .of_held .stopped ⟨rfl, hheld.2⟩ (by decide) (fun _ => Nat.zero_le _)
        (Nat.zero_le _) trivial

/-- A worker more is counted only below the number that the call is to reach. -/
theorem Guarded.started {call : Call} {i : ℕ} {success : Bool} (h : Guarded s)
    (hongoing : Ongoing s (.within call i .start)) : Guarded (started s i call success) := by
  cases success with
  | false =>
    cases call with
    | start before =>
      exact h.goto (Ongoing.advance hongoing (by decide) fun _ hne => absurd rfl hne)
    | grow target =>
      exact h.goto (Ongoing.advance hongoing (by decide) fun _ hne => absurd rfl hne)
    | undo => exact absurd rfl hongoing.2.2
    | shrink target current => exact absurd rfl hongoing.2.2.2.2
    | stop destroying => exact absurd rfl hongoing.2.2.2
  | true =>
    cases call with
    | start before =>
      obtain ⟨⟨hstate, hwaiting⟩, hbefore, hactive, hi, hlt⟩ := hongoing
      have hlt := hlt (by decide)
      refine .of_held .starting ⟨hstate, hwaiting⟩ (by decide)
        (fun hcreated => absurd hcreated (by decide)) ?_
        ⟨⟨hstate, hwaiting⟩, hbefore, ?_, hlt, fun hne => absurd rfl hne⟩
      all_goals
        simp only [ModernPool.started]
        omega
    | grow target =>
      obtain ⟨htarget, hactive, hlt⟩ := hongoing
      have hlt := hlt (by decide)
      refine ⟨fun hrunning => (h.running hrunning).trans (Nat.le_succ _), fun hsome => ?_,
        fun _ => ?_, ?_, htarget, ?_, fun hne => absurd rfl hne⟩
      · exact (h.waiting hsome).imp_right fun hmin => hmin.trans (Nat.le_succ _)
      all_goals
        simp only [ModernPool.started]
        omega
    | undo => exact absurd rfl hongoing.2.2
    | shrink target current => exact absurd rfl hongoing.2.2.2.2
    | stop destroying => exact absurd rfl hongoing.2.2.2

/-- A worker less is counted only above the number that `pool_resize` is to reach. -/
theorem Guarded.cleared {call : Call} {i : ℕ} (h : Guarded s)
    (hongoing : Ongoing s (.within call i .destroy)) : Guarded (cleared s i call) := by
  cases call with
  | start before => exact h.failed hongoing
  | grow target => exact h.failed hongoing
  | undo => exact h.goto ⟨hongoing.1, by decide, by decide⟩
  | stop destroying => exact h.goto ⟨hongoing.1, hongoing.2.1, by decide, by decide⟩
  | shrink target current =>
    obtain ⟨hmin, hcount, hlt, -⟩ := hongoing
    have hlt := hlt (by decide)
    have hleft : c.minWorkers ≤ s.activeWorkers - 1 := by omega
    refine ⟨fun _ => hleft, fun hsome => ⟨(h.waiting hsome).1, hleft⟩, fun hcreated => ?_, ?_,
      hmin, ?_, fun hne => absurd rfl hne, by decide, by decide⟩
    · exact (Nat.sub_le _ _).trans (h.created hcreated)
    · exact (Nat.sub_le _ _).trans h.bounded
    · simp only [ModernPool.cleared]
      omega

theorem Guarded.callStep {call : Call} {i : ℕ} {op : Op} {created : Bool} {forked : Option ℕ}
    (h : Guarded s) (hphase : s.phase = .within call i op)
    (hstep : callStep s call i op created forked = some t) : Guarded t := by
  have hongoing : Ongoing s (.within call i op) := hphase ▸ h.ongoing
  cases op with
  | test => exact h.testStep hongoing hstep
  | create =>
    have hstart : Ongoing s (.within call i .start) :=
      Ongoing.advance hongoing (by decide) fun hne => absurd rfl hne
    have hbooks : ∀ (j : Fin c.maxWorkers) (done : Bool), SameBooks s (workerCreate s j done) :=
      fun j done => (OnSlot.workerCreate s j done).sameBooks
    simp only [ModernPool.callStep] at hstep
    split_ifs at hstep with hi hcreated <;> obtain rfl := Option.some.inj hstep
    · exact (h.of_books (hbooks ⟨i, hi⟩ true)).goto
        ((hbooks ⟨i, hi⟩ true).ongoing_iff.mpr hstart)
    · exact (h.of_books (hbooks ⟨i, hi⟩ false)).failed
        ((hbooks ⟨i, hi⟩ false).ongoing_iff.mpr hongoing)
    · exact h.failed hongoing
  | start =>
    simp only [ModernPool.callStep] at hstep
    split_ifs at hstep
    obtain ⟨⟨r, success⟩, hstart, rfl⟩ := Option.map_eq_some_iff.mp hstep
    have hbooks := (OnSlot.workerStart hstart).sameBooks
    exact (h.of_books hbooks).started (hbooks.ongoing_iff.mpr hongoing)
  | stop =>
    have hdestroy : Ongoing s (.within call i .destroy) :=
      Ongoing.advance hongoing (by decide) fun _ _ => by decide
    simp only [ModernPool.callStep] at hstep
    split_ifs at hstep with hi
    obtain rfl := Option.some.inj hstep
    have hbooks := (OnSlot.workerStop s ⟨i, hi⟩).sameBooks
    exact (h.of_books hbooks).goto (hbooks.ongoing_iff.mpr hdestroy)
  | destroy =>
    simp only [ModernPool.callStep] at hstep
    split_ifs at hstep with hi
    obtain rfl := Option.some.inj hstep
    have hbooks := (OnSlot.workerDestroy s ⟨i, hi⟩).sameBooks
    exact (h.of_books hbooks).cleared (hbooks.ongoing_iff.mpr hongoing)

/-! ## All runs -/

theorem Guarded.create : Guarded (Pool.create c) :=
  ⟨nofun, nofun, fun _ => Nat.zero_le _, Nat.zero_le _, trivial⟩

/-- `pool_stop` and `pool_destroy` on a pool that runs. -/
theorem Guarded.stopBegun {destroying : Bool} (h : Guarded s) (hidle : s.phase = .idle)
    (hrunning : s.state = .running) :
    Guarded { s with state := .stopping, waiting := some destroying } where
  running := by
    intro hstate
    cases hstate
  waiting := fun _ => ⟨rfl, h.running hrunning⟩
  created := by
    intro hstate
    cases hstate
  bounded := h.bounded
  ongoing := by
    rw [hidle]
    exact trivial

theorem Guarded.beginStep {l : PoolAction c} (h : Guarded s) (hidle : s.phase = .idle)
    (hstep : beginStep s l = some t) : Guarded t := by
  have hnone : s.state ≠ .stopping → s.waiting = none := by
    intro hstate
    by_contra hsome
    exact hstate (h.waiting (Option.isSome_iff_ne_none.mpr hsome)).1
  cases l with
  | poolStart thread =>
    simp only [ModernPool.beginStep] at hstep
    split_ifs at hstep with hcond <;> obtain rfl := Option.some.inj hstep
    · have hwaiting : s.waiting = none := hnone (by rw [hcond.1]; decide)
      exact .of_held .starting ⟨rfl, hwaiting⟩ (by decide)
        (fun hstate => absurd hstate (by decide)) h.bounded
        ⟨⟨rfl, hwaiting⟩, h.created hcond.1, rfl, Nat.zero_le _, fun hne => absurd rfl hne⟩
    · exact h
  | poolResize target =>
    simp only [ModernPool.beginStep] at hstep
    split_ifs at hstep with hrange hgrow hshrink <;> obtain rfl := Option.some.inj hstep
    · exact h
    · exact h.goto ⟨by omega, rfl, fun hne => absurd rfl hne⟩
    · exact h.goto ⟨by omega, by omega, fun hne => absurd rfl hne, by decide, by decide⟩
    · exact h
  | poolStop =>
    simp only [ModernPool.beginStep] at hstep
    split_ifs at hstep with hrunning <;> obtain rfl := Option.some.inj hstep
    · exact h.stopBegun hidle hrunning
    · exact h
  | poolDestroy =>
    simp only [ModernPool.beginStep] at hstep
    split_ifs at hstep with hrunning hhandler <;> obtain rfl := Option.some.inj hstep
    · exact h.stopBegun hidle hrunning
    · exact h.goto trivial
  | proceed =>
    obtain ⟨destroying, hwaiting, rfl⟩ := Option.map_eq_some_iff.mp hstep
    obtain ⟨hstate, hmin⟩ := h.waiting (by rw [hwaiting]; rfl)
    exact .of_held .stopping ⟨hstate, rfl⟩ (by decide)
      (fun hcreated => absurd hcreated (by decide)) h.bounded
      ⟨⟨hstate, rfl⟩, hmin, by decide, by decide⟩
  | _ => cases hstep

theorem Guarded.step {l : PoolAction c} (h : Guarded s) (hstep : s.step l = some t) :
    Guarded t := by
  cases l with
  | next created forked =>
    simp only [Pool.step] at hstep
    split at hstep
    · next call i op hphase => exact h.callStep hphase hstep
    · cases hstep
  | handle created forked =>
    obtain ⟨⟨i, op⟩, -, hstep⟩ := Option.bind_eq_some_iff.mp hstep
    exact h.of_books (handlerStep_behind hstep).sameBooks
  | workerStatus i =>
    simp only [Pool.step] at hstep
    split_ifs at hstep
    obtain rfl := Option.some.inj hstep
    exact h.of_books ⟨rfl, rfl, rfl, rfl⟩
  | monitor i =>
    simp only [Pool.step] at hstep
    split_ifs at hstep
    exact h.of_books (.monitorStep hstep)
  | die pid =>
    simp only [Pool.step] at hstep
    split at hstep
    · obtain rfl := Option.some.inj hstep
      exact h.of_books ⟨rfl, rfl, rfl, rfl⟩
    · cases hstep
  | expire i =>
    simp only [Pool.step] at hstep
    split_ifs at hstep
    obtain rfl := Option.some.inj hstep
    exact h.of_books ⟨rfl, rfl, rfl, rfl⟩
  | _ =>
    simp only [Pool.step] at hstep
    split_ifs at hstep with hidle
    exact h.beginStep hidle hstep

theorem guarded_inductive (c : Config) : Inductive (poolManager c) Guarded where
  init := by
    rintro s rfl
    exact .create
  step := fun _ _ _ h hstep => h.step hstep

theorem Guarded.divisorSafe (h : Guarded s) : DivisorSafe s where
  minimum := c.minWorkers_pos
  running := h.running
  waiting := fun hsome => (h.waiting hsome).2
  loaded := by
    intro destroying i op hphase
    have hongoing := h.ongoing
    rw [hphase] at hongoing
    exact hongoing.2.1
  divisor := by
    intro call i hphase hdivides
    cases call with
    | stop destroying =>
      have hongoing := h.ongoing
      rw [hphase] at hongoing
      have hmin : c.minWorkers ≤ s.activeWorkers := hongoing.2.1
      have hbounded := h.bounded
      have hpos := c.minWorkers_pos
      have hle := c.min_le_max
      have hmax := c.maxWorkers_le
      rw [ne_eq, ← UInt32.toNat_inj, UInt32.toNat_ofNat', Nat.mod_eq_of_lt (by omega)]
      exact (Nat.lt_of_lt_of_le hpos hmin).ne'
    | _ => cases hdivides

/-- Whatever calls go on, `pool_stop` divides by a number that is not zero. -/
theorem divisor_safe {c : Config} {s : Pool c} (h : Reachable (poolManager c) s) :
    DivisorSafe s :=
  ((guarded_inductive c).reachable h).divisorSafe

/-- The pool is resized from two workers to one while `pool_stop` waits. -/
theorem divisor_safe_resized : ∃ s : Pool ⟨1, 2, by decide, by decide, by decide⟩,
    s.phase = .within (.stop false) 0 .stop ∧ s.activeWorkers = 1 ∧ DivisorSafe s := by
  have hreach : Reachable (poolManager ⟨1, 2, by decide, by decide, by decide⟩) _ :=
    reachable_ofFun_iff.mpr ⟨[.poolStart true, .next true none, .next true none,
      .next true (some 7), .next true none, .poolResize 2, .next true none, .next true none,
      .next true (some 8), .next true none, .poolStop, .poolResize 1, .next true none,
      .next true none, .next true none, .next true none, .proceed, .next true none], rfl⟩
  exact ⟨_, rfl, rfl, divisor_safe hreach⟩

end ModernPool

end ProcessThreadPool
