import ProcessThreadPool.ModernPool.Workers

/-!
# The children of the pool

A child that has been forked stays until it is waited for, which only `worker_stop` does,
and only in a slot whose state is `RUNNING`. A slot that a monitor thread has marked is
cleared all the same, `worker_create` clears whatever slot it is given, and the handler of the
event loop works on a slot without the mutex of the calls. As long as none of this goes wrong
the slots that hold a worker are among those that the call that goes on still counts with.
-/

namespace ProcessThreadPool

namespace ModernPool

variable {c : Config} {s t : Pool c}

/-- The child of the slot has not been waited for. `worker_stop` stores `STOPPED` when it has;
the number may then be that of another child. -/
def Occupied (s : Pool c) (i : Fin c.maxWorkers) : Prop :=
  s.processes (s.workers i).pid ≠ none ∧ (s.workers i).state ≠ .stopped

/-- Every child that has not been waited for is in some slot, none is left after
`pool_destroy`, and `worker_create` and `worker_destroy` are not applied to a slot with
such a child, neither by a call nor by the handler. -/
structure Tracked (s : Pool c) : Prop where
  recorded : s.phase ≠ .destroyed → ∀ pid, s.processes pid ≠ none → ∃ i, (s.workers i).pid = pid
  released : s.phase = .destroyed → ∀ pid, s.processes pid = none
  spared : ∀ call i op (h : i < c.maxWorkers), s.phase = .within call i op →
    op = .create ∨ op = .destroy → ¬ Occupied s ⟨i, h⟩
  sparedByHandler : ∀ i op, s.handler = some (i, op) → op = .create ∨ op = .destroy →
    ¬ Occupied s i

/-- A started worker is stopped before its monitor thread marks it, `pool_start` finds no
active workers, `pool_destroy` finds the pool running or no children, and the handler restarts
only slots with a worker, none of them together with a call. -/
def Sparing (s : Pool c) : PoolAction c → Prop
  | .next _ _ =>
      match s.phase with
      | .within _ i .test => ∀ j op, s.handler = some (j, op) → op ≠ .test → (j : ℕ) ≠ i
      | .within _ i .stop => ∀ h : i < c.maxWorkers,
          0 < (s.workers ⟨i, h⟩).pid → (s.workers ⟨i, h⟩).state = .running
      | _ => True
  | .handle _ _ =>
      match s.handler with
      | some (i, .test) => workerIsAlive s i = false → 0 < (s.workers i).pid ∧
          ∀ call op, s.phase = .within call i op → op = .test
      | some (i, .stop) => 0 < (s.workers i).pid → (s.workers i).state = .running
      | _ => True
  | .poolStart _ => s.state = .created → s.activeWorkers = 0
  | .poolDestroy => s.state = .running ∨ ∀ pid, s.processes pid = none
  | _ => True

/-- The slots in which the call that goes on expects the started workers, apart from its own
slot. -/
def Expects (s : Pool c) : Phase → ℕ → Prop
  | .idle, j => j < s.activeWorkers
  | .destroyed, _ => True
  | .within (.start _) i _, j | .within (.grow _) i _, j => j < i
  | .within (.shrink target current) i _, j => j < target ∨ i ≤ j ∧ j < current
  | .within .undo i _, j | .within (.stop _) i _, j => i ≤ j

/-- What the call that goes on knows about the count. -/
def Books (s : Pool c) : Phase → Prop
  | .within (.start before) i _ => before = 0 ∧ s.activeWorkers = i
  | .within (.grow _) i _ => s.activeWorkers = i
  | .within (.shrink target current) i op =>
      target + (current - i) ≤ s.activeWorkers ∧ (op ≠ .test → i < current) ∧ op ≠ .create ∧
        op ≠ .start
  | .within .undo _ op | .within (.stop _) _ op => op ≠ .create ∧ op ≠ .start
  | _ => True

/-- Every child that has not been waited for is in a slot that `worker_stop` has not been
through. -/
def Recorded (s : Pool c) : Prop :=
  ∀ pid, s.processes pid ≠ none → ∃ i, (s.workers i).pid = pid ∧ (s.workers i).state ≠ .stopped

/-- The children are in slots where they are expected, and so is the slot that the handler
restarts, which is not that of the call. -/
structure Supervised (s : Pool c) : Prop where
  recorded : Recorded s
  zero : s.processes 0 = none
  released : s.phase = .destroyed → ∀ pid, s.processes pid = none
  placed : ∀ call i op (h : i < c.maxWorkers), s.phase = .within call i op →
    Placed (s.workers ⟨i, h⟩) op
  handled : ∀ i op, s.handler = some (i, op) → s.phase ≠ .destroyed ∧ Placed (s.workers i) op ∧
    (op ≠ .test → Expects s s.phase i)
  apart : ∀ call k op i op', s.phase = .within call k op → op ≠ .test →
    s.handler = some (i, op') → op' ≠ .test → (i : ℕ) ≠ k
  expected : s.phase ≠ .destroyed → ∀ j, 0 < (s.workers j).pid → Expects s s.phase j
  books : Books s s.phase

/-! ## The functions on one slot and the children -/

section

variable {i : Fin c.maxWorkers}

theorem not_occupied (hzero : s.processes 0 = none)
    (h : (s.workers i).pid = 0 ∨ (s.workers i).state = .stopped) : ¬ Occupied s i := by
  rintro ⟨hchild, hstate⟩
  rcases h with hpid | hstopped
  · rw [hpid] at hchild
    exact hchild hzero
  · exact hstate hstopped

theorem Placed.not_occupied {op : Op} (h : Placed (s.workers i) op) (hzero : s.processes 0 = none)
    (hop : op = .create ∨ op = .destroy) : ¬ Occupied s i := by
  rcases hop with rfl | rfl
  · exact ModernPool.not_occupied hzero (Or.inl h)
  · exact ModernPool.not_occupied hzero (h.imp_right And.left)

theorem placed_workerDestroy (s : Pool c) (i : Fin c.maxWorkers) :
    ((workerDestroy s i).workers i).pid = 0 := by
  rw [workerDestroy_pid, if_pos rfl]

/-- `worker_stop` has waited for the child of a slot that is not marked. -/
theorem placed_workerStop (h : 0 < (s.workers i).pid → (s.workers i).state = .running) :
    Placed ((workerStop s i).workers i) .destroy := by
  rw [workerStop]
  split_ifs with hskip
  · rcases hskip with hpid | hstate
    · exact Or.inl hpid
    · exact Or.inl (Nat.eq_zero_of_not_pos fun hpos => hstate (h hpos))
  · exact Or.inr (by simp [Pool.setSlot])

namespace Recorded

/-- A slot without a child may be cleared. -/
theorem clear (h : Recorded s) (hfree : ¬ Occupied s i)
    (hworkers : ∀ j, j ≠ i → t.workers j = s.workers j)
    (hprocesses : ∀ pid, s.processes pid = none → t.processes pid = none) : Recorded t := by
  intro pid hpid
  obtain ⟨k, hk, hstate⟩ := h pid fun hnone => hpid (hprocesses pid hnone)
  have hki : k ≠ i := by
    rintro rfl
    refine hfree ⟨?_, hstate⟩
    rw [hk]
    exact fun hnone => hpid (hprocesses pid hnone)
  exact ⟨k, by rw [hworkers k hki, hk], by rw [hworkers k hki]; exact hstate⟩

theorem congr (h : Recorded s) (hworkers : t.workers = s.workers)
    (hprocesses : t.processes = s.processes) : Recorded t := by
  rw [Recorded, hworkers, hprocesses]
  exact h

theorem stop (h : Recorded s) : Recorded (workerStop s i) := by
  rw [workerStop]
  split_ifs with hskip
  · exact h
  · intro pid hpid
    have hne : pid ≠ (s.workers i).pid := by
      rintro rfl
      simp [Pool.setSlot] at hpid
    obtain ⟨k, hk, hstate⟩ := h pid (by simpa [Pool.setSlot, Function.update_of_ne hne] using hpid)
    have hki : k ≠ i := by
      rintro rfl
      exact hne hk.symm
    exact ⟨k, by simp [Pool.setSlot, hki, hk], by simp [Pool.setSlot, hki, hstate]⟩

/-- A new child gets into a slot that held none. -/
theorem start (h : Recorded s) (hzero : s.processes 0 = none)
    (hplaced : Placed (s.workers i) .start) {forked : Option ℕ} {r : Pool c × Bool}
    (hstart : workerStart s i forked = some r) :
    Recorded r.1 ∧ r.1.processes 0 = none ∧ (r.2 = false → (r.1.workers i).pid = 0) := by
  obtain ⟨hfree, hcreated, -⟩ := hplaced
  have hne : ∀ {pid : ℕ} {k : Fin c.maxWorkers}, s.processes pid ≠ none →
      (s.workers k).pid = pid → k ≠ i := by
    rintro pid k hchild hk rfl
    rw [hfree] at hk
    rw [← hk] at hchild
    exact hchild hzero
  rcases workerStart_cases hcreated hstart with ⟨-, rfl⟩ | ⟨pid, -, hpid, -, rfl⟩
  · refine ⟨fun pid hchild => ?_, hzero, fun _ => by simp [Pool.setSlot, hfree]⟩
    obtain ⟨k, hk, hstate⟩ := h pid hchild
    have hki := hne hchild hk
    exact ⟨k, by simp [Pool.setSlot, hki, hk], by simp [Pool.setSlot, hki, hstate]⟩
  · refine ⟨fun pid' hchild => ?_, ?_, by simp⟩
    · by_cases hnew : pid' = pid
      · exact ⟨i, by simp [Pool.setSlot, hnew], by simp [Pool.setSlot]⟩
      · have hold : s.processes pid' ≠ none := by
          simpa [Pool.setSlot, Function.update_of_ne hnew] using hchild
        obtain ⟨k, hk, hstate⟩ := h pid' hold
        have hki := hne hold hk
        exact ⟨k, by simp [Pool.setSlot, hki, hk], by simp [Pool.setSlot, hki, hstate]⟩
    · simpa [Pool.setSlot, Function.update_of_ne hpid.symm] using hzero

theorem unattended (h : Recorded s) (hst : Unattended s t) : Recorded t := by
  intro pid hpid
  obtain ⟨k, hk, hstate⟩ := h pid fun hnone => hpid ((hst.processes pid).mpr hnone)
  refine ⟨k, (hst.pid k).trans hk, ?_⟩
  rcases hst.state k with hsame | ⟨-, hmarked⟩
  · rw [hsame]
    exact hstate
  · rw [hmarked]
    simp

end Recorded

theorem workerStop_processes {pid : ℕ}
    (h : s.processes pid = none) : (workerStop s i).processes pid = none := by
  rw [workerStop]
  split_ifs
  · exact h
  · by_cases hpid : pid = (s.workers i).pid
    · simp [Pool.setSlot, hpid]
    · simpa [Pool.setSlot, Function.update_of_ne hpid] using h

theorem workerDestroy_processes {pid : ℕ}
    (h : s.processes pid = none) : (workerDestroy s i).processes pid = none := by
  rw [workerDestroy]
  split_ifs
  · exact workerStop_processes h
  · exact h

end

namespace Supervised

theorem create : Supervised (Pool.create c) where
  recorded := fun _ hpid => absurd rfl hpid
  zero := rfl
  released := fun hphase => by cases hphase
  placed := fun _ _ _ _ hphase => by cases hphase
  handled := fun _ _ hhandler => by cases hhandler
  apart := fun _ _ _ _ _ hphase => by cases hphase
  expected := fun _ _ hpid => absurd hpid (lt_irrefl 0)
  books := trivial

theorem tracked (h : Supervised s) : Tracked s where
  recorded := by
    intro _ pid hpid
    obtain ⟨i, hi, -⟩ := h.recorded pid hpid
    exact ⟨i, hi⟩
  released := h.released
  spared := fun call i op hi hphase => (h.placed call i op hi hphase).not_occupied h.zero
  sparedByHandler := fun i op hhandler => (h.handled i op hhandler).2.1.not_occupied h.zero

/-! ## The steps of a call -/

section

variable {call : Call} {i : ℕ} {op : Op} {created : Bool} {forked : Option ℕ}

/-- A step of a call at slot `i`, which the handler does not restart. -/
theorem of_callStep (h : Supervised s) (hphase : s.phase = .within call i op)
    (hoff : ∀ j op', s.handler = some (j, op') → op' ≠ .test → (j : ℕ) ≠ i)
    (hstep : callStep s call i op created forked = some t)
    (hrecorded : Recorded t) (hzero : t.processes 0 = none)
    (hreleased : t.phase = .destroyed → ∀ pid, t.processes pid = none)
    (hplaced : ∀ call' k op' (hk : k < c.maxWorkers), t.phase = .within call' k op' →
      Placed (t.workers ⟨k, hk⟩) op')
    (hjoined : t.phase = .destroyed → s.handler = none)
    (hslot : ∀ call' k op', t.phase = .within call' k op' → op' ≠ .test → k = i)
    (hkept : ∀ j : Fin c.maxWorkers, (j : ℕ) ≠ i → Expects s (.within call i op) j →
      Expects t t.phase j)
    (hexpected : ∀ hi : i < c.maxWorkers, 0 < (t.workers ⟨i, hi⟩).pid → Expects t t.phase i)
    (hbooks : Books t t.phase) : Supervised t := by
  obtain ⟨hhandler, hworkers⟩ := callStep_aside hstep
  refine ⟨hrecorded, hzero, hreleased, hplaced, fun j op' hj => ?_,
    fun call' k op' j op'' hk hop hj hop'' => ?_, fun _ j hj => ?_, hbooks⟩
  · rw [hhandler] at hj
    obtain ⟨-, hj', hexpects⟩ := h.handled j op' hj
    rw [hphase] at hexpects
    refine ⟨fun hdestroyed => ?_, ?_, fun hop => hkept j (hoff j op' hj hop) (hexpects hop)⟩
    · rw [hjoined hdestroyed] at hj
      cases hj
    · by_cases hop : op' = .test
      · rw [hop]
        trivial
      · rw [hworkers j (hoff j op' hj hop)]
        exact hj'
  · rw [hhandler] at hj
    rw [hslot call' k op' hk hop]
    exact hoff j op'' hj hop''
  · by_cases hji : (j : ℕ) = i
    · subst hji
      exact hexpected j.isLt hj
    · rw [hworkers j hji] at hj
      have hexpects := h.expected (by rw [hphase]; simp) j hj
      rw [hphase] at hexpects
      exact hkept j hji hexpects

/-- The call goes on, at the same slot unless it is at the head of its loop. -/
theorem of_within {call' : Call} {k : ℕ} {op' : Op} (h : Supervised s)
    (hphase : s.phase = .within call i op)
    (hoff : ∀ j op', s.handler = some (j, op') → op' ≠ .test → (j : ℕ) ≠ i)
    (hstep : callStep s call i op created forked = some t)
    (hp : t.phase = .within call' k op') (hrecorded : Recorded t) (hzero : t.processes 0 = none)
    (hplaced : ∀ hk : k < c.maxWorkers, Placed (t.workers ⟨k, hk⟩) op')
    (hslot : op' ≠ .test → k = i)
    (hkept : ∀ j : Fin c.maxWorkers, (j : ℕ) ≠ i → Expects s (.within call i op) j →
      Expects t (.within call' k op') j)
    (hexpected : ∀ hi : i < c.maxWorkers, 0 < (t.workers ⟨i, hi⟩).pid →
      Expects t (.within call' k op') i)
    (hbooks : Books t (.within call' k op')) : Supervised t := by
  rw [← hp] at hkept hexpected hbooks
  refine h.of_callStep hphase hoff hstep hrecorded hzero (by simp [hp]) ?_ (by simp [hp]) ?_
    hkept hexpected hbooks
  · intro call'' k' op'' hk hp'
    rw [hp] at hp'
    cases hp'
    exact hplaced hk
  · intro call'' k' op'' hp'
    rw [hp] at hp'
    cases hp'
    exact hslot

/-- The call is over. -/
theorem of_idle (h : Supervised s) (hphase : s.phase = .within call i op)
    (hoff : ∀ j op', s.handler = some (j, op') → op' ≠ .test → (j : ℕ) ≠ i)
    (hstep : callStep s call i op created forked = some t) (hp : t.phase = .idle)
    (hrecorded : Recorded t) (hzero : t.processes 0 = none)
    (hkept : ∀ j : Fin c.maxWorkers, (j : ℕ) ≠ i → Expects s (.within call i op) j →
      (j : ℕ) < t.activeWorkers)
    (hexpected : ∀ hi : i < c.maxWorkers, 0 < (t.workers ⟨i, hi⟩).pid → i < t.activeWorkers) :
    Supervised t := by
  refine h.of_callStep hphase hoff hstep hrecorded hzero (by simp [hp]) (by simp [hp])
    (by simp [hp]) (by simp [hp]) ?_ ?_ ?_ <;> rw [hp]
  · exact hkept
  · exact hexpected
  · trivial

theorem testStep (h : Supervised s) (hphase : s.phase = .within call i .test)
    (hoff : ∀ j op', s.handler = some (j, op') → op' ≠ .test → (j : ℕ) ≠ i)
    (hstep : testStep s call i = some t) : Supervised t := by
  obtain ⟨hworkers, hprocesses, -⟩ := testStep_same hstep
  have hstep' : callStep s call i .test true none = some t := hstep
  have hzero : t.processes 0 = none := by
    rw [hprocesses]
    exact h.zero
  have hrecorded : Recorded t := h.recorded.congr hworkers hprocesses
  have hpid : ∀ hi : i < c.maxWorkers, ¬ Expects s (.within call i .test) i →
      (s.workers ⟨i, hi⟩).pid = 0 := by
    intro hi hnot
    refine Nat.eq_zero_of_not_pos fun hpos => hnot ?_
    have hexpects := h.expected (by rw [hphase]; simp) ⟨i, hi⟩ hpos
    rwa [hphase] at hexpects
  have hbooks := h.books
  rw [hphase] at hbooks
  -- a step that keeps to the slots of the call and does not leave its loop
  have hgoto : ∀ {k : ℕ} {op : Op}, t = s.goto (.within call k op) →
      (∀ hk : k < c.maxWorkers, Placed (s.workers ⟨k, hk⟩) op) → (op ≠ .test → k = i) →
      (∀ j : Fin c.maxWorkers, (j : ℕ) ≠ i → Expects s (.within call i .test) j →
        Expects s (.within call k op) j) →
      (∀ hi : i < c.maxWorkers, 0 < (s.workers ⟨i, hi⟩).pid → Expects s (.within call k op) i) →
      Books s (.within call k op) → Supervised t := by
    rintro k op rfl hplaced hslot hkept hexpected hbooks'
    exact h.of_within hphase hoff hstep' rfl hrecorded hzero hplaced hslot hkept hexpected hbooks'
  -- a step that ends the call
  have hend : t.phase = .idle → (∀ j : Fin c.maxWorkers, Expects s (.within call i .test) j →
      (j : ℕ) < t.activeWorkers) → Supervised t := by
    intro hidle hkept
    refine h.of_idle hphase hoff hstep' hidle hrecorded hzero (fun j _ hj => hkept j hj)
      fun hi hpos => ?_
    rw [hworkers] at hpos
    have hexpects := h.expected (by rw [hphase]; simp) ⟨i, hi⟩ hpos
    rw [hphase] at hexpects
    exact hkept ⟨i, hi⟩ hexpects
  have hstopStarted : ∀ hi : i < c.maxWorkers, t = stopStarted s call ⟨i, hi⟩ →
      (∀ op, op ≠ .create → op ≠ .start → Books s (.within call i op)) →
      (∀ j : Fin c.maxWorkers, (j : ℕ) ≠ i → Expects s (.within call i .test) j →
        Expects s (.within call (i + 1) .test) j) → Books s (.within call (i + 1) .test) →
      (0 < (s.workers ⟨i, hi⟩).pid → Expects s (.within call i .stop) i) → Supervised t := by
    intro hi ht hstop hnext hbooks' hexpects
    rw [stopStarted] at ht
    split_ifs at ht with hpos
    · exact hgoto ht (fun _ => trivial) (fun _ => rfl) (fun j _ hj => by cases call <;> exact hj)
        (fun _ hpos => hexpects hpos) (hstop .stop (by simp) (by simp))
    · refine hgoto ht (fun _ => trivial) (fun hop => absurd rfl hop) hnext
        (fun _ hpos' => absurd hpos' hpos) hbooks'
  cases call with
  | start before =>
      obtain ⟨hbefore, hactive⟩ := hbooks
      have hfree : ∀ hi : i < c.maxWorkers, (s.workers ⟨i, hi⟩).pid = 0 :=
        fun hi => hpid hi (lt_irrefl i)
      simp only [ModernPool.testStep] at hstep
      split_ifs at hstep with hlt <;> obtain rfl := Option.some.inj hstep
      · exact hgoto rfl hfree (fun _ => rfl) (fun _ _ => id)
          (fun hi hpos => absurd (hfree hi) hpos.ne') ⟨hbefore, hactive⟩
      · refine hend rfl fun j hj => ?_
        show (j : ℕ) < s.activeWorkers
        rw [hactive]
        exact hj
  | grow target =>
      have hactive : s.activeWorkers = i := hbooks
      have hfree : ∀ hi : i < c.maxWorkers, (s.workers ⟨i, hi⟩).pid = 0 :=
        fun hi => hpid hi (lt_irrefl i)
      simp only [ModernPool.testStep] at hstep
      split_ifs at hstep with hlt <;> obtain rfl := Option.some.inj hstep
      · exact hgoto rfl hfree (fun _ => rfl) (fun _ _ => id)
          (fun hi hpos => absurd (hfree hi) hpos.ne') hactive
      · refine hend rfl fun j hj => ?_
        show (j : ℕ) < s.activeWorkers
        rw [hactive]
        exact hj
  | shrink target current =>
      obtain ⟨hcount, -⟩ := hbooks
      simp only [ModernPool.testStep] at hstep
      split_ifs at hstep with hlt hmax <;> obtain rfl := Option.some.inj hstep
      · refine hstopStarted hmax rfl
          (fun op hcreate hstart => ⟨hcount, fun _ => hlt, hcreate, hstart⟩)
          (fun j hji hj => ?_) ⟨?_, by simp, by simp, by simp⟩ fun _ => Or.inr ⟨le_rfl, hlt⟩
        · simp only [Expects] at hj ⊢
          omega
        · omega
      · refine hend rfl fun j hj => ?_
        show (j : ℕ) < s.activeWorkers
        simp only [Expects] at hj
        omega
  | undo =>
      simp only [ModernPool.testStep] at hstep
      split_ifs at hstep with hlt <;> obtain rfl := Option.some.inj hstep
      · refine hstopStarted hlt rfl (fun op hcreate hstart => ⟨hcreate, hstart⟩)
          (fun j hji hj => ?_) ⟨by simp, by simp⟩ fun _ => le_rfl
        simp only [Expects] at hj ⊢
        omega
      · refine hend rfl fun j hj => ?_
        exact absurd (lt_of_le_of_lt hj j.isLt) hlt
  | stop destroying =>
      simp only [ModernPool.testStep] at hstep
      have hnobody : ¬ i < c.maxWorkers → ∀ j : Fin c.maxWorkers, ¬ i ≤ j :=
        fun hlt j hj => hlt (lt_of_le_of_lt hj j.isLt)
      split_ifs at hstep with hlt hhandler hdestroying <;> obtain rfl := Option.some.inj hstep
      · refine hstopStarted hlt rfl (fun op hcreate hstart => ⟨hcreate, hstart⟩)
          (fun j hji hj => ?_) ⟨by simp, by simp⟩ fun _ => le_rfl
        simp only [Expects] at hj ⊢
        omega
      · -- no slot holds a worker any more, so there is no child
        refine h.of_callStep hphase hoff hstep' hrecorded hzero (fun _ pid => ?_) (by simp)
          (fun _ => Option.not_isSome_iff_eq_none.mp hhandler) (by simp)
          (fun _ _ _ => trivial) (fun _ _ => trivial) trivial
        by_contra hchild
        obtain ⟨k, hk, -⟩ := h.recorded pid hchild
        have hpos : 0 < (s.workers k).pid := by
          rw [hk]
          refine Nat.pos_of_ne_zero ?_
          rintro rfl
          exact hchild h.zero
        have hexpects := h.expected (by rw [hphase]; simp) k hpos
        rw [hphase] at hexpects
        exact hnobody hlt k hexpects
      · exact hend rfl fun j hj => absurd hj (hnobody hlt j)

/-- `pool_start` or `pool_resize` gives up at slot `i`, which holds no worker. -/
theorem of_failed {u : Pool c} (h : Supervised s) (hphase : s.phase = .within call i op)
    (hoff : ∀ j op', s.handler = some (j, op') → op' ≠ .test → (j : ℕ) ≠ i)
    (hcall : (∃ before, call = .start before) ∨ ∃ target, call = .grow target)
    (hstep : callStep s call i op created forked = some (ModernPool.failed u call))
    (hrecorded : Recorded u) (hzero : u.processes 0 = none)
    (hactive : u.activeWorkers = s.activeWorkers)
    (hfree : ∀ hi : i < c.maxWorkers, (u.workers ⟨i, hi⟩).pid = 0) :
    Supervised (ModernPool.failed u call) := by
  obtain ⟨hworkers, hprocesses, -⟩ := failed_same u call
  have hrecorded' : Recorded (ModernPool.failed u call) := hrecorded.congr hworkers hprocesses
  have hzero' : (ModernPool.failed u call).processes 0 = none := by rwa [hprocesses]
  have hfree' : ∀ hi : i < c.maxWorkers,
      ¬ 0 < ((ModernPool.failed u call).workers ⟨i, hi⟩).pid := by
    intro hi
    rw [hworkers, hfree hi]
    exact lt_irrefl 0
  have hbooks := h.books
  rw [hphase] at hbooks
  rcases hcall with ⟨before, rfl⟩ | ⟨target, rfl⟩
  · exact h.of_within hphase hoff hstep rfl hrecorded' hzero' (fun _ => trivial)
      (fun hop => absurd rfl hop) (fun _ _ _ => Nat.zero_le _) (fun _ _ => Nat.zero_le _)
      ⟨by simp, by simp⟩
  · have hactive' : s.activeWorkers = i := hbooks
    refine h.of_idle hphase hoff hstep rfl hrecorded' hzero' (fun j _ hj => ?_)
      fun hi hpos => absurd hpos (hfree' hi)
    show (j : ℕ) < u.activeWorkers
    rw [hactive, hactive']
    exact hj

/-- Only `pool_start` and `pool_resize` create and start workers. -/
theorem filling (h : Supervised s) (hphase : s.phase = .within call i op)
    (hop : op = .create ∨ op = .start) :
    (∃ before, call = .start before) ∨ ∃ target, call = .grow target := by
  have hbooks := h.books
  rw [hphase] at hbooks
  cases call with
  | start before => exact Or.inl ⟨before, rfl⟩
  | grow target => exact Or.inr ⟨target, rfl⟩
  | shrink target current => exact absurd hop (not_or.mpr ⟨hbooks.2.2.1, hbooks.2.2.2⟩)
  | undo | stop _ => exact absurd hop (not_or.mpr ⟨hbooks.1, hbooks.2⟩)

theorem createStep (h : Supervised s) (hphase : s.phase = .within call i .create)
    (hstep : callStep s call i .create created forked = some t) : Supervised t := by
  have hoff := fun j op' => h.apart call i .create j op' hphase (by simp)
  have hcall := h.filling hphase (Or.inl rfl)
  have hclear : ∀ (hi : i < c.maxWorkers) (created : Bool),
      Recorded (workerCreate s ⟨i, hi⟩ created) := fun hi created =>
    h.recorded.clear ((h.placed call i .create hi hphase).not_occupied h.zero (Or.inl rfl))
      (OnSlot.workerCreate s _ created).workers fun _ => id
  have hstep' := hstep
  simp only [callStep] at hstep
  split_ifs at hstep with hi hcreated <;> obtain rfl := Option.some.inj hstep
  · refine h.of_within hphase hoff hstep' rfl (hclear hi true) h.zero
      (fun _ => placed_workerCreate s ⟨i, hi⟩ true) (fun _ => rfl) (fun j _ hj => ?_)
      (fun _ hpos => ?_) ?_
    · rcases hcall with ⟨before, rfl⟩ | ⟨target, rfl⟩ <;> exact hj
    · exact absurd (placed_workerCreate s ⟨i, hi⟩ true).1 hpos.ne'
    · have hbooks := h.books
      rw [hphase] at hbooks
      rcases hcall with ⟨before, rfl⟩ | ⟨target, rfl⟩ <;> exact hbooks
  · exact h.of_failed hphase hoff hcall hstep' (hclear hi false) h.zero rfl
      fun _ => (placed_workerCreate s ⟨i, hi⟩ false).1
  · exact h.of_failed hphase hoff hcall hstep' h.recorded h.zero rfl fun hi' => absurd hi' hi

theorem startStep (h : Supervised s) (hphase : s.phase = .within call i .start)
    (hstep : callStep s call i .start created forked = some t) : Supervised t := by
  have hoff := fun j op' => h.apart call i .start j op' hphase (by simp)
  have hcall := h.filling hphase (Or.inr rfl)
  have hbooks := h.books
  rw [hphase] at hbooks
  have hstep' := hstep
  simp only [callStep] at hstep
  split_ifs at hstep with hi
  obtain ⟨⟨u, success⟩, hstart, rfl⟩ := Option.map_eq_some_iff.mp hstep
  obtain ⟨hrecorded, hzero, hfree⟩ :=
    h.recorded.start h.zero (h.placed call i .start hi hphase) hstart
  have hactive : u.activeWorkers = s.activeWorkers := (OnSlot.workerStart hstart).activeWorkers
  cases success with
  | true =>
      refine h.of_within hphase hoff hstep' rfl hrecorded hzero (fun _ => trivial)
        (fun hop => absurd rfl hop) (fun j _ hj => ?_) (fun _ _ => ?_) ?_
      · rcases hcall with ⟨before, rfl⟩ | ⟨target, rfl⟩ <;> exact Nat.lt_succ_of_lt hj
      · rcases hcall with ⟨before, rfl⟩ | ⟨target, rfl⟩ <;> exact Nat.lt_succ_self i
      · rcases hcall with ⟨before, rfl⟩ | ⟨target, rfl⟩
        · exact ⟨hbooks.1, congrArg Nat.succ (hactive.trans hbooks.2)⟩
        · exact congrArg Nat.succ (hactive.trans hbooks)
  | false =>
      have hfree' : (u.workers ⟨i, hi⟩).pid = 0 := hfree rfl
      refine h.of_within hphase hoff hstep' rfl hrecorded hzero (fun _ => Or.inl hfree')
        (fun _ => rfl) (fun j _ hj => ?_) (fun _ hpos => absurd hfree' hpos.ne') ?_
      · rcases hcall with ⟨before, rfl⟩ | ⟨target, rfl⟩ <;> exact hj
      · rcases hcall with ⟨before, rfl⟩ | ⟨target, rfl⟩
        · exact ⟨hbooks.1, hactive.trans hbooks.2⟩
        · exact hactive.trans hbooks

theorem stopStep (h : Supervised s) (hphase : s.phase = .within call i .stop)
    (hsparing : Sparing s (.next created forked))
    (hstep : callStep s call i .stop created forked = some t) : Supervised t := by
  have hoff := fun j op' => h.apart call i .stop j op' hphase (by simp)
  have hbooks := h.books
  rw [hphase] at hbooks
  simp only [Sparing, hphase] at hsparing
  have hstep' := hstep
  simp only [callStep] at hstep
  split_ifs at hstep with hi hdivides
  obtain rfl := Option.some.inj hstep
  have hslot := OnSlot.workerStop s ⟨i, hi⟩
  refine h.of_within hphase hoff hstep' rfl h.recorded.stop (workerStop_processes h.zero)
    (fun _ => placed_workerStop (hsparing hi)) (fun _ => rfl) (fun j _ hj => ?_)
    (fun hi' hpos => ?_) ?_
  · cases call <;> exact hj
  · have hpos' : 0 < (s.workers ⟨i, hi'⟩).pid := by
      rw [← workerStop_pid (i := ⟨i, hi⟩)]
      exact hpos
    have hexpects := h.expected (by rw [hphase]; simp) ⟨i, hi'⟩ hpos'
    rw [hphase] at hexpects
    cases call <;> exact hexpects
  · cases call with
    | start before => exact ⟨hbooks.1, hslot.activeWorkers.trans hbooks.2⟩
    | grow target => exact hslot.activeWorkers.trans hbooks
    | shrink target current =>
        exact ⟨hbooks.1.trans_eq hslot.activeWorkers.symm, fun _ => hbooks.2.1 (by simp), by simp,
          by simp⟩
    | undo | stop _ => exact ⟨by simp, by simp⟩

theorem destroyStep (h : Supervised s) (hphase : s.phase = .within call i .destroy)
    (hstep : callStep s call i .destroy created forked = some t) : Supervised t := by
  have hoff := fun j op' => h.apart call i .destroy j op' hphase (by simp)
  have hbooks := h.books
  rw [hphase] at hbooks
  have hstep' := hstep
  simp only [callStep] at hstep
  split_ifs at hstep with hi
  obtain rfl := Option.some.inj hstep
  have hslot := OnSlot.workerDestroy s ⟨i, hi⟩
  have hrecorded : Recorded (workerDestroy s ⟨i, hi⟩) :=
    h.recorded.clear ((h.placed call i .destroy hi hphase).not_occupied h.zero (Or.inr rfl))
      hslot.workers fun _ => workerDestroy_processes
  have hzero : (workerDestroy s ⟨i, hi⟩).processes 0 = none := workerDestroy_processes h.zero
  have hfree := placed_workerDestroy s ⟨i, hi⟩
  -- the loops that go on to the next slot
  have hgo : ∀ {u : Pool c}, cleared (workerDestroy s ⟨i, hi⟩) i call = u →
      u.phase = .within call (i + 1) .test → u.workers = (workerDestroy s ⟨i, hi⟩).workers →
      u.processes = (workerDestroy s ⟨i, hi⟩).processes →
      (∀ j : Fin c.maxWorkers, (j : ℕ) ≠ i → Expects s (.within call i .destroy) j →
        Expects u (.within call (i + 1) .test) j) →
      Books u (.within call (i + 1) .test) → Supervised u := by
    rintro u hu hp hworkers hprocesses hkept hbooks'
    refine h.of_within hphase hoff (hstep'.trans (congrArg some hu)) hp
      (hrecorded.congr hworkers hprocesses) (by rw [hprocesses]; exact hzero) (fun _ => trivial)
      (fun hop => absurd rfl hop) hkept (fun hi' hpos => ?_) hbooks'
    rw [hworkers, hfree] at hpos
    exact absurd hpos (lt_irrefl 0)
  cases call with
  | start before =>
      exact h.of_failed hphase hoff (Or.inl ⟨before, rfl⟩) hstep' hrecorded hzero
        hslot.activeWorkers fun _ => hfree
  | grow target =>
      exact h.of_failed hphase hoff (Or.inr ⟨target, rfl⟩) hstep' hrecorded hzero
        hslot.activeWorkers fun _ => hfree
  | shrink target current =>
      obtain ⟨hcount, hlt, -⟩ := hbooks
      refine hgo rfl rfl rfl rfl (fun j hji hj => ?_) ⟨?_, by simp, by simp, by simp⟩
      · simp only [Expects] at hj ⊢
        omega
      · show target + (current - (i + 1)) ≤ (workerDestroy s ⟨i, hi⟩).activeWorkers - 1
        rw [hslot.activeWorkers]
        have := hlt (by simp)
        omega
  | undo | stop _ =>
      refine hgo rfl rfl rfl rfl (fun j hji hj => ?_) ⟨by simp, by simp⟩
      simp only [Expects] at hj ⊢
      omega

end

/-! ## The steps of the handler, and the others -/

theorem expects_congr {phase : Phase} {j : ℕ} (hactive : t.activeWorkers = s.activeWorkers)
    (h : Expects s phase j) : Expects t phase j := by
  cases phase with
  | idle =>
      show j < t.activeWorkers
      rw [hactive]
      exact h
  | destroyed => trivial
  | within call i op => cases call <;> exact h

theorem books_congr {phase : Phase} (hactive : t.activeWorkers = s.activeWorkers)
    (h : Books s phase) : Books t phase := by
  cases phase with
  | idle | destroyed => trivial
  | within call i op => cases call <;> simpa only [Books, hactive] using h

/-- The handler begins, ends, or goes on to restart the slot. -/
theorem setHandler {handler : Option (Fin c.maxWorkers × Op)} (h : Supervised s)
    (hhandler : ∀ i op, handler = some (i, op) → s.phase ≠ .destroyed ∧
      Placed (s.workers i) op ∧ (op ≠ .test → Expects s s.phase i ∧
        ∀ call op', s.phase = .within call i op' → op' = .test)) :
    Supervised { s with handler := handler } where
  recorded := h.recorded.congr rfl rfl
  zero := h.zero
  released := h.released
  placed := h.placed
  handled := by
    intro i op hi
    obtain ⟨hdestroyed, hplaced, hrestart⟩ := hhandler i op hi
    exact ⟨hdestroyed, hplaced, fun hop => expects_congr rfl (hrestart hop).1⟩
  apart := by
    rintro call k op i op' hphase hop hi hop' rfl
    exact hop (((hhandler i op' hi).2.2 hop').2 call op hphase)
  expected := fun hdestroyed j hj => expects_congr rfl (h.expected hdestroyed j hj)
  books := books_congr rfl h.books

/-- A step with which the handler restarts slot `i`. -/
theorem of_handlerStep {i : Fin c.maxWorkers} {op : Op} (h : Supervised s)
    (hhandler : s.handler = some (i, op)) (hrestart : op ≠ .test) (hbehind : Behind i s t)
    (hrecorded : Recorded t) (hzero : t.processes 0 = none)
    (hplaced : ∀ j op', t.handler = some (j, op') → j = i ∧ Placed (t.workers i) op') :
    Supervised t := by
  obtain ⟨hdestroyed, -, hexpects⟩ := h.handled i op hhandler
  have hexpects' : Expects t t.phase i := by
    rw [hbehind.phase]
    exact expects_congr hbehind.activeWorkers (hexpects hrestart)
  refine ⟨hrecorded, hzero, fun hp => ?_, fun call k op' hk hp => ?_, fun j op' hj => ?_,
    fun call k op' j op'' hp hop hj _ => ?_, fun _ j hj => ?_, ?_⟩
  · rw [hbehind.phase] at hp
    exact absurd hp hdestroyed
  · rw [hbehind.phase] at hp
    by_cases htest : op' = .test
    · rw [htest]
      trivial
    · have hne := h.apart call k op' i op hp htest hhandler hrestart
      rw [hbehind.workers ⟨k, hk⟩ fun heq => hne (congrArg Fin.val heq).symm]
      exact h.placed call k op' hk hp
  · obtain ⟨rfl, hslot⟩ := hplaced j op' hj
    rw [hbehind.phase] at hexpects' ⊢
    exact ⟨hdestroyed, hslot, fun _ => hexpects'⟩
  · obtain ⟨rfl, -⟩ := hplaced j op'' hj
    rw [hbehind.phase] at hp
    exact h.apart call k op' j op hp hop hhandler hrestart
  · by_cases hji : j = i
    · rw [hji]
      exact hexpects'
    · rw [hbehind.workers j hji] at hj
      rw [hbehind.phase]
      exact expects_congr hbehind.activeWorkers (h.expected hdestroyed j hj)
  · rw [hbehind.phase]
    exact books_congr hbehind.activeWorkers h.books

theorem handlerStep {i : Fin c.maxWorkers} {op : Op} {created : Bool} {forked : Option ℕ}
    (h : Supervised s) (hhandler : s.handler = some (i, op))
    (hsparing : Sparing s (.handle created forked))
    (hstep : handlerStep s i op created forked = some t) : Supervised t := by
  have hbehind := handlerStep_behind hstep
  obtain ⟨hdestroyed, hplaced, -⟩ := h.handled i op hhandler
  cases op with
  | test =>
      simp only [Sparing, hhandler] at hsparing
      simp only [ModernPool.handlerStep] at hstep
      split_ifs at hstep with halive <;> obtain rfl := Option.some.inj hstep
      · exact h.setHandler fun _ _ hj => by cases hj
      · obtain ⟨hpos, htest⟩ := hsparing (Bool.eq_false_of_not_eq_true halive)
        refine h.setHandler fun j op hj => ?_
        cases hj
        exact ⟨hdestroyed, trivial, fun _ => ⟨h.expected hdestroyed i hpos, htest⟩⟩
  | stop =>
      simp only [Sparing, hhandler] at hsparing
      obtain rfl := Option.some.inj hstep
      refine h.of_handlerStep hhandler (by simp) hbehind
        (Recorded.congr (h.recorded.stop (i := i)) rfl rfl) (workerStop_processes h.zero)
        fun j op' hj => ?_
      cases hj
      exact ⟨rfl, placed_workerStop hsparing⟩
  | destroy =>
      obtain rfl := Option.some.inj hstep
      refine h.of_handlerStep hhandler (by simp) hbehind (h.recorded.clear
        (hplaced.not_occupied h.zero (Or.inr rfl)) hbehind.workers
        fun _ => workerDestroy_processes) (workerDestroy_processes h.zero) fun j op' hj => ?_
      cases hj
      exact ⟨rfl, placed_workerDestroy s i⟩
  | create =>
      obtain rfl := Option.some.inj hstep
      refine h.of_handlerStep hhandler (by simp) hbehind (h.recorded.clear
        (hplaced.not_occupied h.zero (Or.inl rfl)) hbehind.workers fun _ => id) h.zero
        fun j op' hj => ?_
      cases created with
      | true =>
          cases hj
          exact ⟨rfl, placed_workerCreate s i true⟩
      | false => cases hj
  | start =>
      obtain ⟨r, hr, rfl⟩ := Option.map_eq_some_iff.mp hstep
      obtain ⟨hrecorded, hzero, -⟩ := h.recorded.start h.zero hplaced hr
      exact h.of_handlerStep hhandler (by simp) hbehind (hrecorded.congr rfl rfl) hzero
        fun j op' hj => by cases hj

theorem workerStatus {i : Fin c.maxWorkers} (h : Supervised s)
    (hdestroyed : s.phase ≠ .destroyed) : Supervised { s with handler := some (i, .test) } :=
  h.setHandler fun j op hj => by
    cases hj
    exact ⟨hdestroyed, trivial, fun hop => absurd rfl hop⟩

theorem opening (h : Supervised s) (hidle : s.phase = .idle) {l : PoolAction c}
    (hworkers : t.workers = s.workers) (hprocesses : t.processes = s.processes)
    (hactive : t.activeWorkers = s.activeWorkers) (hhandler : t.handler = s.handler)
    (hopening : Opening s l t.phase) (hsparing : Sparing s l) : Supervised t := by
  have hexpected : ∀ j : Fin c.maxWorkers, 0 < (s.workers j).pid → (j : ℕ) < s.activeWorkers := by
    intro j hj
    have hexpects := h.expected (by simp [hidle]) j hj
    rwa [hidle] at hexpects
  have hhandled : ∀ j op, s.handler = some (j, op) → Placed (s.workers j) op ∧
      (op ≠ .test → (j : ℕ) < s.activeWorkers) := by
    intro j op hj
    obtain ⟨-, hplaced, hexpects⟩ := h.handled j op hj
    rw [hidle] at hexpects
    exact ⟨hplaced, hexpects⟩
  -- a phase in which the slots below `active_workers` are expected
  have hof : (t.phase = .destroyed → s.handler = none ∧ ∀ pid, s.processes pid = none) →
      (∀ call k op, t.phase = .within call k op → op = .test) →
      (∀ j : Fin c.maxWorkers, (j : ℕ) < s.activeWorkers → Expects t t.phase j) →
      Books t t.phase → Supervised t := by
    rintro hreleased htest hkept hbooks
    refine ⟨h.recorded.congr hworkers hprocesses, by rw [hprocesses]; exact h.zero,
      fun hp => by rw [hprocesses]; exact (hreleased hp).2, fun call k op hk hp => ?_,
      fun j op hj => ?_, fun call k op j op' hp hop => absurd (htest call k op hp) hop,
      fun _ j hj => ?_, hbooks⟩
    · rw [htest call k op hp]
      trivial
    · rw [hhandler] at hj
      rw [hworkers]
      refine ⟨fun hp => ?_, (hhandled j op hj).1, fun hop => hkept j ((hhandled j op hj).2 hop)⟩
      rw [(hreleased hp).1] at hj
      cases hj
    · rw [hworkers] at hj
      exact hkept j (hexpected j hj)
  generalize hphase : t.phase = phase at hopening hof
  cases hopening with
  | idle =>
      refine hof (by simp) (by simp) (fun j hj => ?_) trivial
      show (j : ℕ) < t.activeWorkers
      rwa [hactive]
  | start hcreated =>
      have hnone : s.activeWorkers = 0 := hsparing hcreated
      refine hof (by simp) (by simp) (fun j hj => ?_) ⟨hnone, hactive.trans hnone⟩
      rw [hnone] at hj
      exact absurd hj (Nat.not_lt_zero j)
  | grow _ _ => exact hof (by simp) (by simp) (fun j hj => hj) hactive
  | @shrink target hlt =>
      refine hof (by simp) (by simp) (fun j hj => ?_) ⟨?_, by simp, by simp, by simp⟩
      · simp only [Expects]
        omega
      · omega
  | stop destroying =>
      exact hof (by simp) (by simp) (fun j _ => Nat.zero_le j) ⟨by simp, by simp⟩
  | destroy hstate hnone =>
      exact hof (fun _ => ⟨hnone, hsparing.resolve_left hstate⟩) (by simp) (fun _ _ => trivial)
        trivial

theorem unattended (h : Supervised s) (hst : Unattended s t) : Supervised t where
  recorded := h.recorded.unattended hst
  zero := (hst.processes 0).mpr h.zero
  released := fun hphase pid => (hst.processes pid).mpr (h.released (hst.phase ▸ hphase) pid)
  placed := fun call i op hi hphase =>
    (h.placed call i op hi (hst.phase ▸ hphase)).unattended hst
  handled := by
    intro i op hhandler
    rw [hst.handler] at hhandler
    rw [hst.phase]
    obtain ⟨hdestroyed, hplaced, hexpects⟩ := h.handled i op hhandler
    exact ⟨hdestroyed, hplaced.unattended hst,
      fun hop => expects_congr hst.activeWorkers (hexpects hop)⟩
  apart := fun call k op i op' hphase hop hhandler =>
    h.apart call k op i op' (hst.phase ▸ hphase) hop (hst.handler ▸ hhandler)
  expected := by
    intro hphase j hj
    rw [hst.pid] at hj
    rw [hst.phase] at hphase ⊢
    exact expects_congr hst.activeWorkers (h.expected hphase j hj)
  books := by
    rw [hst.phase]
    exact books_congr hst.activeWorkers h.books

theorem step {l : PoolAction c} (h : Supervised s) (hsparing : Sparing s l)
    (hstep : s.step l = some t) : Supervised t := by
  cases poolStep_moves hstep with
  | @call call n op created forked _ hphase hcall =>
      cases op with
      | test =>
          refine h.testStep hphase ?_ hcall
          simpa only [Sparing, hphase] using hsparing
      | create => exact h.createStep hphase hcall
      | start => exact h.startStep hphase hcall
      | stop => exact h.stopStep hphase hsparing hcall
      | destroy => exact h.destroyStep hphase hcall
  | handler hhandler hstep => exact h.handlerStep hhandler hsparing hstep
  | opening hidle hbegin =>
      obtain ⟨hworkers, hprocesses, hactive, hhandler, hopening⟩ := beginStep_opening hidle hbegin
      exact h.opening hidle hworkers hprocesses hactive hhandler hopening hsparing
  | workerStatus hdestroyed hnone => exact h.workerStatus hdestroyed
  | unattended _ _ hst => exact h.unattended hst

end Supervised

end ModernPool

end ProcessThreadPool
