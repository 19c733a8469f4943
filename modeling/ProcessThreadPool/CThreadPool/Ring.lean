import ProcessThreadPool.CThreadPool.Moves
import ProcessThreadPool.Lib.CountedRing
import ProcessThreadPool.Lib.ThreadFamily
import Mathlib.Algebra.Order.Group.Multiset

/-!
# The task ring of the C thread pool

The ring's three redundant fields are functions of two histories: `queue_rear` is
the number of accepted tasks and `queue_front` the number of taken tasks, both
modulo the size, and `queue_count` is their difference. Only `threadpool_add` and
a worker taking a task move them. A second invariant follows each taken task to
the worker that runs it.
-/

namespace ProcessThreadPool

namespace CThreadPool

open RingWindow ThreadFamily

/-- The ring of `size` slots after the tasks `accepted` were stored and the
tasks `taken` were taken. -/
structure RingInv {τ : Type*} (size : ℕ) (p : Pool τ) (accepted : List τ)
    (taken : List (Option τ)) : Prop where
  queueSize : p.queueSize = size
  length : p.taskQueue.length = size
  front : p.queueFront = (taken.length % size : ℕ)
  rear : p.queueRear = (accepted.length % size : ℕ)
  count : p.queueCount + taken.length = accepted.length
  le : taken.length ≤ accepted.length
  room : accepted.length ≤ taken.length + size
  order : taken = (accepted.take taken.length).map some
  slots : RingHolds (slotAt p.taskQueue) size taken.length accepted

namespace RingInv

/-- The ring's fields are those of the two histories, and the taken tasks are the
oldest ones. -/
theorem iff_countedRing {τ : Type*} {size : ℕ} {p : Pool τ} {accepted : List τ}
    {taken : List (Option τ)} :
    RingInv size p accepted taken ↔ p.queueSize = size ∧
      CountedRing size p.taskQueue p.queueFront p.queueRear p.queueCount accepted
        taken.length ∧ taken = (accepted.take taken.length).map some :=
  ⟨fun h => ⟨h.queueSize,
      ⟨h.length, h.front, h.rear, h.count, h.le, h.room, h.slots⟩, h.order⟩,
    fun h => ⟨h.1, h.2.1.length, h.2.1.front, h.2.1.rear, h.2.1.count, h.2.1.le,
      h.2.1.room, h.2.2, h.2.1.holds⟩⟩

theorem start {τ : Type*} {size : ℕ} (n : ℕ) :
    RingInv (τ := τ) size (startThreads n (initPool size)) [] [] := by
  rw [startThreads_eq]
  exact iff_countedRing.mpr ⟨rfl, CountedRing.empty size, rfl⟩

theorem setThreadCount {τ : Type*} {size : ℕ} {p : Pool τ} {accepted : List τ}
    {taken : List (Option τ)} (h : RingInv size p accepted taken) (c : ℤ) :
    RingInv size { p with threadCount := c } accepted taken :=
  ⟨h.queueSize, h.length, h.front, h.rear, h.count, h.le, h.room, h.order, h.slots⟩

theorem setShutdown {τ : Type*} {size : ℕ} {p : Pool τ} {accepted : List τ}
    {taken : List (Option τ)} (h : RingInv size p accepted taken) (b : Bool) :
    RingInv size { p with shutdown := b } accepted taken :=
  ⟨h.queueSize, h.length, h.front, h.rear, h.count, h.le, h.room, h.order, h.slots⟩

theorem storeTask {τ : Type*} {size : ℕ} {p : Pool τ} {accepted : List τ}
    {taken : List (Option τ)} (h : RingInv size p accepted taken) (hsize : 1 ≤ size)
    (hroom : p.queueCount ≠ p.queueSize) (task : τ) :
    RingInv size (CThreadPool.storeTask p task) (accepted ++ [task]) taken := by
  obtain ⟨hqueueSize, hring, horder⟩ := iff_countedRing.mp h
  rw [hqueueSize] at hroom
  refine iff_countedRing.mpr ⟨hqueueSize, ?_, ?_⟩
  · rw [CThreadPool.storeTask, hqueueSize]
    exact hring.push hsize hroom task
  · rw [List.take_append_of_le_length hring.le]
    exact horder

theorem front_eq {τ : Type*} {size : ℕ} {p : Pool τ} {accepted : List τ}
    {taken : List (Option τ)} (h : RingInv size p accepted taken)
    (hlt : taken.length < accepted.length) :
    slotAt p.taskQueue p.queueFront.toNat = some accepted[taken.length] :=
  (iff_countedRing.mp h).2.1.slotAt_front hlt

theorem takeTask {τ : Type*} {size : ℕ} {p : Pool τ} {accepted : List τ}
    {taken : List (Option τ)} (h : RingInv size p accepted taken)
    (hne : p.queueCount ≠ 0) :
    RingInv size (CThreadPool.takeTask p).2 accepted
      (taken ++ [(CThreadPool.takeTask p).1]) := by
  obtain ⟨hqueueSize, hring, horder⟩ := iff_countedRing.mp h
  have hlt := hring.lt_of_ne hne
  refine iff_countedRing.mpr ⟨hqueueSize, ?_, ?_⟩
  · rw [CThreadPool.takeTask, hqueueSize, List.length_append, List.length_singleton]
    exact hring.pop hne
  · rw [List.length_append, List.length_singleton, List.take_succ_eq_append_getElem hlt,
      List.map_append, ← horder, CThreadPool.takeTask, h.front_eq hlt]
    rfl

/-- The tasks still in the ring are the accepted tasks not yet taken. -/
theorem contents_eq {τ : Type*} {size : ℕ} {p : Pool τ} {accepted : List τ}
    {taken : List (Option τ)} (h : RingInv size p accepted taken) :
    p.contents = (accepted.drop taken.length).map some := by
  obtain ⟨hqueueSize, hring, -⟩ := iff_countedRing.mp h
  rw [Pool.contents, hqueueSize]
  exact hring.contents

theorem taken_append_contents {τ : Type*} {size : ℕ} {p : Pool τ} {accepted : List τ}
    {taken : List (Option τ)} (h : RingInv size p accepted taken) :
    taken ++ p.contents = accepted.map some := by
  rw [h.contents_eq]
  nth_rewrite 1 [h.order]
  rw [← List.map_append, List.take_append_drop]

end RingInv

/-- A call of `threadpool_add` leaves the pool alone or stores its task in a
ring with room. -/
theorem threadpoolAdd_cases {τ : Type*} (p : Pool τ) (task : Option τ)
    (lockOk signalOk unlockOk : Bool) :
    (threadpoolAdd p task lockOk signalOk unlockOk).2 = p ∧ stored p task lockOk = [] ∨
      ∃ t, p.queueCount ≠ p.queueSize ∧ stored p task lockOk = [t] ∧
        (threadpoolAdd p task lockOk signalOk unlockOk).2 = storeTask p t := by
  cases task with
  | none => exact Or.inl ⟨rfl, by simp [stored]⟩
  | some t =>
      simp only [threadpoolAdd, stored]
      split_ifs with hlock hshutdown hfull hnot hnot hnot <;> simp_all

theorem Worker.held_of_testing {τ : Type*} {w : Worker τ} (h : w.testing = true) :
    w.held = 0 := by
  cases w <;> first | rfl | cases h

/-- Every accepted task is in the ring or was taken once, and every taken task
is being run by one worker or has been run once. -/
structure RunInv {n : ℕ} {ι τ : Type*} (size : ℕ) (s : State n ι τ) : Prop where
  ring : RingInv size s.pool s.accepted s.taken
  ran : (s.ran : Multiset (Option τ)) + total Worker.held s.workers = s.taken

namespace RunInv

theorem start {n size : ℕ} {ι τ : Type*} :
    RunInv (ι := ι) (τ := τ) size (State.start n size) where
  ring := RingInv.start n
  ran := by
    have hheld : total (Worker.held (τ := τ)) (fun _ : Fin n => Worker.top) = 0 :=
      total_eq_zero fun _ => rfl
    simp [State.start, hheld]

/-- A worker moves without taking or running a task. -/
theorem keep {n size : ℕ} {ι τ : Type*} {s : State n ι τ} (h : RunInv size s) {i : Fin n}
    {w : Worker τ} (hsame : w.held = (s.workers i).held) :
    (s.ran : Multiset (Option τ)) + total Worker.held (Function.update s.workers i w) =
      s.taken := by
  rw [total_update_of_eq _ _ hsame, h.ran]

theorem add {n size : ℕ} {ι τ : Type*} {s : State n ι τ} (h : RunInv size s)
    (hsize : 1 ≤ size) (client : ι) (task : Option τ) (lockOk signalOk unlockOk : Bool) :
    RunInv size (addStep s client task lockOk signalOk unlockOk) := by
  refine ⟨?_, h.ran⟩
  rcases threadpoolAdd_cases s.pool task lockOk signalOk unlockOk with
    ⟨hpool, hstored⟩ | ⟨x, hroom, hstored, hpool⟩
  · simpa [addStep, hpool, hstored] using h.ring
  · simpa only [addStep, hpool, hstored] using h.ring.storeTask hsize hroom x

theorem take {n size : ℕ} {ι τ : Type*} {s : State n ι τ} (h : RunInv size s) {i : Fin n}
    (hw : (s.workers i).testing = true) (hne : s.pool.queueCount ≠ 0) :
    RunInv size { s with
      pool := (takeTask s.pool).2
      workers := Function.update s.workers i (.running (takeTask s.pool).1)
      stale := s.use true
      taken := s.taken ++ [(takeTask s.pool).1] } := by
  refine ⟨h.ring.takeTask hne, ?_⟩
  have hsum := total_update_of_zero Worker.held s.workers
    (.running (takeTask s.pool).1) (Worker.held_of_testing hw)
  simp only
  rw [hsum, Worker.held, ← add_assoc, h.ran, ← Multiset.coe_add, Multiset.coe_singleton]

theorem run {n size : ℕ} {ι τ : Type*} {s : State n ι τ} (h : RunInv size s) {i : Fin n}
    {task : Option τ} (hw : s.workers i = .running task) :
    RunInv size { s with
      workers := Function.update s.workers i .top
      ran := s.ran ++ [task] } := by
  refine ⟨h.ring, ?_⟩
  have hsum := total_update_to_zero Worker.held s.workers i (a := .top) rfl
  rw [hw] at hsum
  simp only [Worker.held] at hsum
  simp only
  rw [← h.ran, ← hsum, ← Multiset.coe_add, Multiset.coe_singleton, add_assoc,
    add_comm (total _ _)]

theorem step {n size : ℕ} {ι τ : Type*} {s t : State n ι τ} {l : Action n ι τ}
    (hsize : 1 ≤ size) (h : RunInv size s) (hstep : s.step l = some t) :
    RunInv size t := by
  cases step_moves hstep with
  | add hlock => exact h.add hsize _ _ _ _ _
  | queueCount | notLocked => exact h
  | destroyFails | destroy => exact ⟨h.ring.setShutdown true, h.ran⟩
  | take hw hlock hwait hshutdown =>
      refine h.take hw fun hzero => ?_
      simp [Pool.mustWait, hzero, hshutdown] at hwait
  | run hw => exact h.run hw
  | decrement hw => exact ⟨h.ring.setThreadCount _, h.keep (by rw [hw]; rfl)⟩
  | unlock hw => exact ⟨h.ring, h.keep (by rw [hw]; rfl)⟩
  | wait hw | leave hw => exact ⟨h.ring, h.keep (Worker.held_of_testing hw).symm⟩
  -- The destroying thread changes none of the pool's fields and no worker.
  | _ => exact ⟨h.ring, h.ran⟩

end RunInv

theorem inductive_threadpool {n size : ℕ} {ι τ : Type*} (hsize : 1 ≤ size) :
    Transition.Inductive (threadpool (ι := ι) (τ := τ) n size) (RunInv size) where
  init := by
    rintro s rfl
    exact RunInv.start
  step := fun _ _ _ hinv hstep => hinv.step hsize hstep

/-- The tasks taken by the workers followed by those in the ring are the
accepted tasks in order, each taken task is held by one worker or has been run
once, and the ring's fields agree and stay inside the array. -/
theorem threadpool_fifo {n size : ℕ} {ι τ : Type*} (hsize : 1 ≤ size)
    {s : State n ι τ} (hs : Transition.Reachable (threadpool n size) s) :
    s.taken ++ s.pool.contents = s.accepted.map some ∧
    (s.ran : Multiset (Option τ)) + total Worker.held s.workers = s.taken ∧
    0 ≤ s.pool.queueCount ∧ s.pool.queueCount ≤ size ∧
    s.pool.queueRear = (s.pool.queueFront + s.pool.queueCount) % size ∧
    (0 ≤ s.pool.queueFront ∧ s.pool.queueFront < s.pool.taskQueue.length) ∧
    (0 ≤ s.pool.queueRear ∧ s.pool.queueRear < s.pool.taskQueue.length) := by
  have hinv : RunInv size s := (inductive_threadpool hsize).reachable hs
  have hring := hinv.ring
  have hcount := hring.count
  have hle := hring.le
  have hroom := hring.room
  have hfront := Nat.mod_lt s.taken.length hsize
  have hrear := Nat.mod_lt s.accepted.length hsize
  refine ⟨hring.taken_append_contents, hinv.ran, by omega, by omega, ?_, ?_, ?_⟩
  · have hnum : s.pool.queueCount = (s.accepted.length - s.taken.length : ℕ) := by omega
    rw [hring.rear, hring.front, hnum, ← Nat.cast_add, ← Int.natCast_mod, Nat.mod_add_mod,
      Nat.add_sub_cancel' hle]
  · rw [hring.front, hring.length]
    omega
  · rw [hring.rear, hring.length]
    omega

theorem threadpool_fifo_wrapped : ∃ s : State 1 Unit ℕ,
    Transition.exec State.step (State.start 1 2)
      [.add () (some 7) true true true, .add () (some 8) true true true, .worker 0,
        .add () (some 9) true true true, .worker 0, .worker 0] = some s ∧
      s.taken = [some 7, some 8] ∧ s.pool.queueRear = 1 ∧
      s.taken ++ s.pool.contents = s.accepted.map some := by
  refine ⟨_, rfl, rfl, rfl, ?_⟩
  exact (threadpool_fifo (show 1 ≤ 2 by decide)
    (Transition.reachable_ofFun_iff.mpr
      ⟨[.add () (some 7) true true true, .add () (some 8) true true true, .worker 0,
        .add () (some 9) true true true, .worker 0, .worker 0], rfl⟩)).1

end CThreadPool

end ProcessThreadPool
