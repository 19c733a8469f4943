import ProcessThreadPool.PipePool.Handler
import ProcessThreadPool.Lib.BoundedFifo
import ProcessThreadPool.Lib.Simulation

/-!
# The task ring as a bounded list

`enqueue_task`, `dequeue_task` and `process_pool_submit_task`, called in any order on the
queue that `init_task_queue` left, answer as a list of at most `MAX_TASK_QUEUE` tasks
does, filled at the back and emptied at the front. Every task comes out as it went in,
with the terminator that `process_pool_submit_task` wrote behind its data.
-/

namespace ProcessThreadPool

namespace PipePool

open RingWindow

/-- A call that works on the task queue of a pool. -/
inductive QueueCall where
  | enqueue (task : Task)
  | dequeue
  | submit (taskData : Option (List UInt8)) (dataLen : ℤ)

/-- What the call returns, and the task it writes through its pointer. -/
inductive QueueAnswer where
  | enqueued (accepted : Bool)
  | dequeued (task : Option Task)
  | submitted (taskId : ℤ)
  deriving DecidableEq

/-- Both positions are indices of the array. -/
def TaskQueue.InBounds (q : TaskQueue) : Prop :=
  (0 ≤ q.head ∧ q.head < maxTaskQueue) ∧ 0 ≤ q.tail ∧ q.tail < maxTaskQueue

instance (q : TaskQueue) : Decidable q.InBounds := inferInstanceAs (Decidable (_ ∧ _))

/-- A call on the pool. An index outside the array is a fault. -/
def queueCall {n : ℕ} (pool : ProcessPool n) (call : QueueCall) :
    Option (QueueAnswer × ProcessPool n) :=
  if pool.taskQueue.InBounds then
    match call with
    | .enqueue task =>
        let r := enqueueTask pool.taskQueue task
        some (.enqueued r.1, { pool with taskQueue := r.2 })
    | .dequeue =>
        let r := dequeueTask pool.taskQueue
        some (.dequeued r.1, { pool with taskQueue := r.2 })
    | .submit taskData dataLen =>
        let r := processPoolSubmitTask pool taskData dataLen
        some (.submitted r.1, r.2)
  else none

/-- The queued tasks, oldest first, and the next id. -/
structure TaskList where
  tasks : List Task
  nextTaskId : ℤ

/-- The same calls on a bounded list. -/
def TaskList.call (a : TaskList) : QueueCall → QueueAnswer × TaskList
  | .enqueue task =>
      let r := BoundedFifo.push maxTaskQueue a.tasks task
      (.enqueued r.1, { a with tasks := r.2 })
  | .dequeue =>
      let r := BoundedFifo.pop a.tasks
      (.dequeued r.1, { a with tasks := r.2 })
  | .submit none _ => (.submitted (-1), a)
  | .submit (some bytes) dataLen =>
      if 0 < dataLen ∧ dataLen < maxTaskData ∧ a.tasks.length < maxTaskQueue then
        (.submitted a.nextTaskId,
          ⟨a.tasks ++ [⟨a.nextTaskId, bytes.take dataLen.toNat ++ [0], dataLen⟩],
            increment a.nextTaskId⟩)
      else (.submitted (-1), a)

/-- The slots from the head on, `count` of them. -/
def TaskQueue.contents (q : TaskQueue) : List (Option Task) :=
  (List.range q.count.toNat).map fun i : ℕ =>
    slotAt q.tasks ((q.head + i) % maxTaskQueue).toNat

/-- The three fields agree with each other and with the array. -/
structure TaskQueue.WellFormed (q : TaskQueue) : Prop where
  inBounds : q.InBounds
  count_nonneg : 0 ≤ q.count
  count_le : q.count ≤ maxTaskQueue
  tail_eq : q.tail = (q.head + q.count) % maxTaskQueue

/-- An operation that returns `-1` leaves the queue as it was. -/
structure TaskQueue.KeptByRefusals (q : TaskQueue) : Prop where
  enqueue : ∀ task, (enqueueTask q task).1 = false → (enqueueTask q task).2 = q
  dequeue : (dequeueTask q).1 = none → (dequeueTask q).2 = q

/-- The task has this id, this length and these bytes, and a terminator behind them. -/
structure Task.Carries (task : Task) (taskId : ℤ) (bytes : List UInt8) (dataLen : ℤ) :
    Prop where
  id_eq : task.taskId = taskId
  length_eq : task.dataLen = dataLen
  bytes_eq : task.data.take dataLen.toNat = bytes.take dataLen.toNat
  terminator : task.data[dataLen.toNat]? = some 0

/-- What the ring and the list have in common. -/
structure TaskList.Matches {n : ℕ} (pool : ProcessPool n) (a : TaskList) : Prop where
  holds : pool.taskQueue.Holds a.tasks
  nextTaskId : pool.nextTaskId = a.nextTaskId

theorem submission_carries {n : ℕ} {pool : ProcessPool n} {bytes : List UInt8} {dataLen : ℤ}
    {task : Task} (h : submission pool (some bytes) dataLen = some task)
    (hbytes : dataLen ≤ bytes.length) : task.Carries pool.nextTaskId bytes dataLen := by
  simp only [submission] at h
  split_ifs at h
  obtain rfl := Option.some.inj h
  have hlength : (bytes.take dataLen.toNat).length = dataLen.toNat := by
    rw [List.length_take]
    omega
  refine ⟨rfl, rfl, ?_, ?_⟩
  · exact List.take_left' hlength
  · rw [List.getElem?_append_right hlength.le, hlength, Nat.sub_self]
    rfl

namespace TaskQueue.Holds

variable {q : TaskQueue} {l : List Task}

theorem contents_eq (h : q.Holds l) : q.contents = l.map some := by
  obtain ⟨hist, start, hring, rfl⟩ := h
  exact hring.contents

theorem wellFormed (h : q.Holds l) : q.WellFormed := by
  have hcount := h.count_eq
  have hle := h.count_le
  obtain ⟨hist, start, hring, rfl⟩ := h
  have hhead := Nat.mod_lt start (show 0 < maxTaskQueue by decide)
  have htail := Nat.mod_lt hist.length (show 0 < maxTaskQueue by decide)
  have hsum : hist.length = start + q.count.toNat := by
    have hnum := hring.count
    omega
  refine ⟨⟨⟨?_, ?_⟩, ?_, ?_⟩, by omega, hle, ?_⟩
  · rw [hring.front]
    exact Int.natCast_nonneg _
  · rw [hring.front]
    exact_mod_cast hhead
  · rw [hring.rear]
    exact Int.natCast_nonneg _
  · rw [hring.rear]
    exact_mod_cast htail
  · rw [hring.rear, hring.front, hsum]
    rw [show q.count = (q.count.toNat : ℤ) by omega, ← Nat.cast_add, ← Int.natCast_mod,
      Int.toNat_natCast, Nat.mod_add_mod]

theorem keptByRefusals (h : q.Holds l) : q.KeptByRefusals := by
  constructor
  · intro task hrefused
    rw [enqueueTask] at hrefused ⊢
    split_ifs at hrefused ⊢
    rfl
  · intro hrefused
    by_cases hempty : q.count = 0
    · rw [dequeueTask, if_pos hempty]
    · obtain ⟨task, l', -, htask, -⟩ := h.dequeue hempty
      rw [htask] at hrefused
      cases hrefused

theorem enqueue_push (h : q.Holds l) (task : Task) :
    (enqueueTask q task).1 = (BoundedFifo.push maxTaskQueue l task).1 ∧
      (enqueueTask q task).2.Holds (BoundedFifo.push maxTaskQueue l task).2 := by
  have hcount := h.count_eq
  by_cases hroom : l.length < maxTaskQueue
  · rw [BoundedFifo.push, if_pos hroom]
    exact h.enqueue (by omega) task
  · rw [BoundedFifo.push, if_neg hroom, enqueueTask, if_pos (by omega)]
    exact ⟨rfl, h⟩

theorem dequeue_pop (h : q.Holds l) :
    (dequeueTask q).1 = (BoundedFifo.pop l).1 ∧
      (dequeueTask q).2.Holds (BoundedFifo.pop l).2 := by
  have hcount := h.count_eq
  by_cases hempty : q.count = 0
  · obtain rfl := List.length_eq_zero_iff.mp (show l.length = 0 by omega)
    rw [dequeueTask, if_pos hempty]
    exact ⟨rfl, h⟩
  · obtain ⟨task, l', rfl, htask, hrest⟩ := h.dequeue hempty
    exact ⟨htask, hrest⟩

end TaskQueue.Holds

namespace TaskList.Matches

variable {n : ℕ} {pool : ProcessPool n} {a : TaskList}

/-- A submission is accepted when the arguments are valid and the list has room. -/
theorem submission_some (h : Matches pool a) (bytes : List UInt8) (dataLen : ℤ) :
    submission pool (some bytes) dataLen =
      if 0 < dataLen ∧ dataLen < maxTaskData ∧ a.tasks.length < maxTaskQueue then
        some ⟨a.nextTaskId, bytes.take dataLen.toNat ++ [0], dataLen⟩
      else none := by
  have hcount := h.holds.count_eq
  rw [← h.nextTaskId]
  simp only [submission]
  split_ifs <;> first | rfl | omega

theorem submit (h : Matches pool a) (taskData : Option (List UInt8)) (dataLen : ℤ) :
    (a.call (.submit taskData dataLen)).1 =
        .submitted (processPoolSubmitTask pool taskData dataLen).1 ∧
      Matches (processPoolSubmitTask pool taskData dataLen).2
        (a.call (.submit taskData dataLen)).2 := by
  rw [processPoolSubmitTask_eq]
  cases taskData with
  | none => exact ⟨rfl, h⟩
  | some bytes =>
      have hsub := h.submission_some bytes dataLen
      by_cases haccepted : 0 < dataLen ∧ dataLen < maxTaskData ∧ a.tasks.length < maxTaskQueue
      · rw [if_pos haccepted] at hsub
        have hqueue := (h.holds.enqueue (submission_count hsub)
          ⟨a.nextTaskId, bytes.take dataLen.toNat ++ [0], dataLen⟩).2
        rw [hsub, TaskList.call, if_pos haccepted]
        exact ⟨rfl, hqueue, by rw [← h.nextTaskId]⟩
      · rw [if_neg haccepted] at hsub
        rw [hsub, TaskList.call, if_neg haccepted]
        exact ⟨rfl, h⟩

end TaskList.Matches

/-- Every call on the ring answers as it does on the list. -/
theorem queueCall_simulates {n : ℕ} :
    Simulation.Simulates (TaskList.Matches (n := n)) queueCall TaskList.call := by
  intro pool a call h
  have hbounds := h.holds.wellFormed.inBounds
  cases call with
  | enqueue task =>
      obtain ⟨hanswer, hqueue⟩ := h.holds.enqueue_push task
      refine ⟨{ pool with taskQueue := (enqueueTask pool.taskQueue task).2 }, ?_,
        hqueue, h.nextTaskId⟩
      rw [queueCall, if_pos hbounds, TaskList.call, ← hanswer]
  | dequeue =>
      obtain ⟨hanswer, hqueue⟩ := h.holds.dequeue_pop
      refine ⟨{ pool with taskQueue := (dequeueTask pool.taskQueue).2 }, ?_,
        hqueue, h.nextTaskId⟩
      rw [queueCall, if_pos hbounds, TaskList.call, ← hanswer]
  | submit taskData dataLen =>
      obtain ⟨hanswer, hnext⟩ := h.submit taskData dataLen
      exact ⟨_, by rw [queueCall, if_pos hbounds, hanswer], hnext⟩

/-- Any sequence of calls from `init_task_queue` on never leaves the array, answers as a
bounded first-in first-out list does, and keeps the three fields of the queue together. -/
theorem taskQueue_refines_fifo {n : ℕ} (pool : ProcessPool n) (calls : List QueueCall) :
    ∃ pool' : ProcessPool n,
      Simulation.runCalls queueCall { pool with taskQueue := initTaskQueue } calls =
        some ((Simulation.runSpec TaskList.call ⟨[], pool.nextTaskId⟩ calls).1, pool') ∧
      pool'.taskQueue.contents =
        (Simulation.runSpec TaskList.call ⟨[], pool.nextTaskId⟩ calls).2.tasks.map some ∧
      pool'.taskQueue.WellFormed ∧ pool'.taskQueue.KeptByRefusals ∧
      ∀ (bytes : List UInt8) (dataLen : ℤ) (task : Task), dataLen ≤ bytes.length →
        submission pool' (some bytes) dataLen = some task →
          task.Carries pool'.nextTaskId bytes dataLen ∧
          (TaskList.call (Simulation.runSpec TaskList.call ⟨[], pool.nextTaskId⟩ calls).2
            (.submit (some bytes) dataLen)).2.tasks =
            (Simulation.runSpec TaskList.call ⟨[], pool.nextTaskId⟩ calls).2.tasks ++
              [task] := by
  have hstart : TaskList.Matches { pool with taskQueue := initTaskQueue }
      ⟨[], pool.nextTaskId⟩ := ⟨TaskQueue.Holds.init, rfl⟩
  obtain ⟨pool', hrun, hend⟩ := queueCall_simulates.runCalls calls hstart
  refine ⟨pool', hrun, hend.holds.contents_eq, hend.holds.wellFormed,
    hend.holds.keptByRefusals, fun bytes dataLen task hbytes hsub => ?_⟩
  refine ⟨submission_carries hsub hbytes, ?_⟩
  rw [hend.submission_some] at hsub
  split_ifs at hsub with haccepted
  obtain rfl := Option.some.inj hsub
  rw [TaskList.call, if_pos haccepted]

end PipePool

end ProcessThreadPool
