import ProcessThreadPool.PipePool.Pool
import ProcessThreadPool.Lib.CountedRing

/-!
# The task queue of the pipe-based process pool

The ring of `task_queue_t` holds a list of tasks, oldest first: `enqueue_task` appends
to it and `dequeue_task` takes its head.
-/

namespace ProcessThreadPool

namespace PipePool

open RingWindow

/-- The ring holds these tasks, from the head on. -/
def TaskQueue.Holds (q : TaskQueue) (l : List Task) : Prop :=
  ∃ hist start, CountedRing maxTaskQueue q.tasks q.head q.tail q.count hist start ∧
    l = hist.drop start

/-- The ids in the task queue, from the head on. -/
def TaskQueue.ids (q : TaskQueue) : List ℤ :=
  ((List.range q.count.toNat).filterMap fun i : ℕ =>
    slotAt q.tasks ((q.head + i) % maxTaskQueue).toNat).map Task.taskId

namespace TaskQueue.Holds

variable {q : TaskQueue} {l : List Task}

theorem init : initTaskQueue.Holds [] := ⟨[], 0, CountedRing.empty maxTaskQueue, rfl⟩

theorem count_eq (h : q.Holds l) : q.count = l.length := by
  obtain ⟨hist, start, hring, rfl⟩ := h
  have hcount := hring.count
  have hle := hring.le
  rw [List.length_drop]
  omega

theorem count_le (h : q.Holds l) : q.count ≤ maxTaskQueue := by
  obtain ⟨hist, start, hring, rfl⟩ := h
  have hcount := hring.count
  have hroom := hring.room
  omega

theorem ids_eq (h : q.Holds l) : q.ids = l.map Task.taskId := by
  obtain ⟨hist, start, hring, rfl⟩ := h
  have hcontents := congrArg (List.filterMap id) hring.contents
  rw [List.filterMap_map, List.filterMap_map] at hcontents
  rw [TaskQueue.ids]
  exact congrArg (List.map Task.taskId) (hcontents.trans List.filterMap_some)

theorem enqueue (h : q.Holds l) (hroom : q.count < maxTaskQueue) (task : Task) :
    (enqueueTask q task).1 = true ∧ (enqueueTask q task).2.Holds (l ++ [task]) := by
  obtain ⟨hist, start, hring, rfl⟩ := h
  rw [enqueueTask, if_neg (by omega)]
  refine ⟨rfl, hist ++ [task], start, hring.push (by decide) hroom.ne task, ?_⟩
  rw [List.drop_append_of_le_length hring.le]

theorem dequeue (h : q.Holds l) (hne : q.count ≠ 0) :
    ∃ task l', l = task :: l' ∧ (dequeueTask q).1 = some task ∧
      (dequeueTask q).2.Holds l' := by
  obtain ⟨hist, start, hring, rfl⟩ := h
  have hlt := hring.lt_of_ne hne
  rw [dequeueTask, if_neg hne]
  exact ⟨hist[start], hist.drop (start + 1), List.drop_eq_getElem_cons hlt,
    hring.slotAt_front hlt, hist, start + 1, hring.pop hne, rfl⟩

end TaskQueue.Holds

end PipePool

end ProcessThreadPool
