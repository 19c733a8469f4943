import ProcessThreadPool.PipePool.SubmissionOrder
import ProcessThreadPool.PipePool.Dispatch

/-!
# What the task ids identify

`process_pool_submit_task` returns the value of `next_task_id`, an `int` that every
accepted submission increments, and `-1` when it rejects one. A pool is drained and
refilled as long as it lives, so the counter reaches its maximum and wraps around to the
negative numbers.
-/

namespace ProcessThreadPool

namespace PipePool

/-- The program with the values that the accepted submissions returned. -/
structure Numbered (n : ℕ) where
  state : State n
  ids : List ℤ

/-- The call puts a task into the queue. -/
def Accepts {n : ℕ} (pool : ProcessPool n) (taskData : Option (List UInt8)) (dataLen : ℤ) :
    Prop :=
  pool.taskQueue.count < (processPoolSubmitTask pool taskData dataLen).2.taskQueue.count

instance {n : ℕ} (pool : ProcessPool n) (taskData : Option (List UInt8)) (dataLen : ℤ) :
    Decidable (Accepts pool taskData dataLen) := inferInstanceAs (Decidable (_ < _))

/-- What a step returns when it is an accepted submission. -/
def State.newId {n : ℕ} (s : State n) : Action n → Option ℤ
  | .submit taskData dataLen =>
      if Accepts s.pool taskData dataLen then
        some (processPoolSubmitTask s.pool taskData dataLen).1
      else none
  | _ => none

/-- One step of the program, recorded. -/
def Numbered.step {n : ℕ} (s : Numbered n) (l : Action n) : Option (Numbered n) :=
  (s.state.step l).map fun t => ⟨t, s.ids ++ (s.state.newId l).toList⟩

/-- All interleavings on a pool of `n` workers, with the returned ids recorded. -/
def numbering (n : ℕ) : Transition.System (Numbered n) (Action n) where
  init := fun s => s.state.Created ∧ s.ids = []
  step := fun s l t => s.step l = some t

/-- An accepted submission returns a positive id that no submission before it returned;
a rejected one returns `-1` and leaves the counter and the queue as they were. -/
def Identifies {n : ℕ} (s : Numbered n) : Action n → Prop
  | .submit taskData dataLen =>
      let r := processPoolSubmitTask s.state.pool taskData dataLen
      if Accepts s.state.pool taskData dataLen then 0 < r.1 ∧ r.1 ≠ -1 ∧ r.1 ∉ s.ids
      else r.1 = -1 ∧ r.2.nextTaskId = s.state.pool.nextTaskId ∧
        r.2.taskQueue = s.state.pool.taskQueue
  | _ => True

/-- A submission is accepted only before the number of accepted ones is the largest
`int`. -/
def CounterLasts {n : ℕ} (s : Numbered n) (l : Action n) : Prop :=
  (s.state.newId l).isSome = true → s.ids.length < 2 ^ 31 - 1

/-- The ids so far are `1`, `2`, ... and the counter holds the next one, or it has just
wrapped around. -/
structure Numbered.InOrder {n : ℕ} (s : Numbered n) : Prop where
  ids : s.ids = (List.range s.ids.length).map fun j : ℕ => (j : ℤ) + 1
  le : s.ids.length ≤ 2 ^ 31 - 1
  next : s.state.pool.nextTaskId = increment s.ids.length

/-! ## Steps -/

section Steps

variable {n : ℕ}

theorem submit_cases (pool : ProcessPool n) (taskData : Option (List UInt8))
    (dataLen : ℤ) :
    (Accepts pool taskData dataLen ∧
      (processPoolSubmitTask pool taskData dataLen).1 = pool.nextTaskId ∧
      (processPoolSubmitTask pool taskData dataLen).2.nextTaskId =
        increment pool.nextTaskId) ∨
    (¬ Accepts pool taskData dataLen ∧
      processPoolSubmitTask pool taskData dataLen = (-1, pool)) := by
  rw [Accepts, processPoolSubmitTask_eq]
  cases hsub : submission pool taskData dataLen with
  | none => exact Or.inr ⟨lt_irrefl _, rfl⟩
  | some task =>
      have hroom := submission_count hsub
      refine Or.inl ⟨?_, submission_taskId hsub, rfl⟩
      simp only [enqueueTask, if_neg (not_le.mpr hroom)]
      exact lt_add_one _

theorem dispatchRound_nextTaskId (killOk : Fin n → Bool) (writeOk : Bool)
    (pool : ProcessPool n) (k : Kernel) :
    (dispatchRound killOk writeOk pool k).2.1.nextTaskId = pool.nextTaskId := by
  simp only [dispatchRound]
  split
  · rfl
  · split
    · rfl
    · split <;> rfl

/-- Only an accepted submission moves the counter. -/
theorem State.step_nextTaskId {s t : State n} {l : Action n} (hstep : s.step l = some t) :
    t.pool.nextTaskId =
      if (s.newId l).isSome then increment s.pool.nextTaskId else s.pool.nextTaskId := by
  cases l with
  | submit taskData dataLen =>
      obtain rfl := Option.some.inj hstep
      rw [State.newId]
      rcases submit_cases s.pool taskData dataLen with ⟨hacc, -, hnext⟩ | ⟨hacc, hr⟩
      · rw [if_pos hacc]
        exact hnext
      · rw [if_neg hacc, hr]
        rfl
  | dispatch killOk writeOk =>
      simp only [State.step] at hstep
      split_ifs at hstep
      obtain rfl := Option.some.inj hstep
      exact dispatchRound_nextTaskId killOk writeOk s.pool s.kernel
  | receive i readOk =>
      simp only [State.step] at hstep
      split_ifs at hstep
      obtain rfl := Option.some.inj hstep
      rfl
  | restart i outcome =>
      simp only [State.step] at hstep
      split_ifs at hstep
      obtain rfl := Option.some.inj hstep
      rfl
  | setRunning running =>
      obtain rfl := Option.some.inj hstep
      rfl
  | tick now =>
      obtain rfl := Option.some.inj hstep
      rfl
  | reap channel =>
      obtain ⟨r, -, rfl⟩ := Option.map_eq_some_iff.mp hstep
      rfl
  | childRead channel =>
      obtain ⟨k, -, rfl⟩ := Option.map_eq_some_iff.mp hstep
      rfl
  | childWrite channel =>
      obtain ⟨k, -, rfl⟩ := Option.map_eq_some_iff.mp hstep
      rfl
  | childExit channel =>
      obtain ⟨k, -, rfl⟩ := Option.map_eq_some_iff.mp hstep
      rfl

theorem State.newId_eq {s : State n} {l : Action n} (hnew : (s.newId l).isSome = true) :
    s.newId l = some s.pool.nextTaskId := by
  cases l with
  | submit taskData dataLen =>
      simp only [State.newId] at hnew ⊢
      rcases submit_cases s.pool taskData dataLen with ⟨hacc, hid, -⟩ | ⟨hacc, -⟩
      · rw [if_pos hacc, hid]
      · rw [if_neg hacc] at hnew
        cases hnew
  | _ => cases hnew

/-- What a submission returns is right when it is rejected, or when the counter is positive
and not yet given out. -/
theorem identifies_iff {s : Numbered n} {l : Action n} :
    Identifies s l ↔ ((s.state.newId l).isSome = true →
      0 < s.state.pool.nextTaskId ∧ s.state.pool.nextTaskId ∉ s.ids) := by
  cases l with
  | submit taskData dataLen =>
      simp only [Identifies, State.newId]
      rcases submit_cases s.state.pool taskData dataLen with ⟨hacc, hid, -⟩ | ⟨hacc, hr⟩
      · rw [if_pos hacc, if_pos hacc, hid]
        refine ⟨fun h _ => ⟨h.1, h.2.2⟩, fun h => ?_⟩
        obtain ⟨hpos, hnew⟩ := h rfl
        exact ⟨hpos, by omega, hnew⟩
      · rw [if_neg hacc, if_neg hacc, hr]
        exact ⟨fun _ h => absurd h Bool.false_ne_true, fun _ => ⟨rfl, rfl, rfl⟩⟩
  | _ => exact ⟨fun _ h => absurd h Bool.false_ne_true, fun _ => trivial⟩

end Steps

namespace Numbered.InOrder

variable {n : ℕ} {s t : Numbered n} {l : Action n}

theorem mem_ids (h : s.InOrder) {id : ℤ} (hid : id ∈ s.ids) : 0 < id ∧ id ≤ s.ids.length := by
  rw [h.ids] at hid
  obtain ⟨j, hj, rfl⟩ := List.mem_map.mp hid
  have hlt := List.mem_range.mp hj
  omega

theorem next_of_lt (h : s.InOrder) (hlt : s.ids.length < 2 ^ 31 - 1) :
    s.state.pool.nextTaskId = s.ids.length + 1 := by
  rw [h.next, increment, Int.bmod_def]
  omega

/-- A step identifies its task exactly when the counter lasts. -/
theorem identifies_iff (h : s.InOrder) : Identifies s l ↔ CounterLasts s l := by
  rw [PipePool.identifies_iff, CounterLasts]
  refine imp_congr_right fun _ => ?_
  rcases h.le.lt_or_eq with hlt | heq
  · rw [h.next_of_lt hlt]
    refine iff_of_true ⟨by omega, fun hid => ?_⟩ hlt
    have hle := (h.mem_ids hid).2
    omega
  · have hwrap : s.state.pool.nextTaskId = -2 ^ 31 := by
      rw [h.next, heq, ← increment_wraps]
      rfl
    rw [hwrap]
    exact iff_of_false (fun hpos => absurd hpos.1 (by decide)) (by omega)

theorem step (h : s.InOrder) (hlasts : CounterLasts s l) (hstep : s.step l = some t) :
    t.InOrder := by
  obtain ⟨u, hu, rfl⟩ := Option.map_eq_some_iff.mp hstep
  have hnext := State.step_nextTaskId hu
  by_cases hnew : (s.state.newId l).isSome = true
  · have hlt := hlasts hnew
    have hcounter := h.next_of_lt hlt
    rw [if_pos hnew, hcounter] at hnext
    rw [State.newId_eq hnew, hcounter, Option.toList_some]
    refine ⟨?_, ?_, ?_⟩
    · rw [List.length_append, List.length_singleton, List.range_succ, List.map_append, ← h.ids]
      rfl
    · rw [List.length_append, List.length_singleton]
      exact hlt
    · rw [List.length_append, List.length_singleton, hnext]
      rfl
  · rw [if_neg hnew] at hnext
    rw [Bool.not_eq_true, Option.isSome_eq_false_iff, Option.isNone_iff_eq_none] at hnew
    rw [hnew, Option.toList_none, List.append_nil]
    exact ⟨h.ids, h.le, hnext.trans h.next⟩

theorem created (h : s.state.Created) (hids : s.ids = []) : s.InOrder := by
  obtain ⟨opened, handler, mallocOk, signalsOk, outcomes, pool, kernel, hcreate, heq⟩ := h
  obtain ⟨ws, -, rfl⟩ := processPoolCreate_cases hcreate
  refine ⟨?_, ?_, ?_⟩
  · rw [hids]
    rfl
  · rw [hids]
    exact Nat.zero_le _
  · rw [hids, heq]
    rfl

end Numbered.InOrder

/-! ## Whole runs -/

theorem Numbered.length_step {n : ℕ} {s t : Numbered n} {l : Action n}
    (hstep : s.step l = some t) :
    t.ids.length = s.ids.length + if (s.state.newId l).isSome then 1 else 0 := by
  obtain ⟨u, -, rfl⟩ := Option.map_eq_some_iff.mp hstep
  rw [List.length_append]
  cases s.state.newId l <;> rfl

theorem Numbered.length_le_of_run {n : ℕ} {s t : Numbered n} {ls : List (Action n)}
    (hrun : Transition.Run (numbering n) s ls t) : s.ids.length ≤ t.ids.length := by
  induction hrun with
  | nil => exact le_rfl
  | cons hstep _ ih =>
      rw [Numbered.length_step hstep] at ih
      omega

/-- The counter lasts at every step of a run exactly when the run does not accept too
many submissions. -/
theorem run_counterLasts_iff {n : ℕ} {s t : Numbered n} {ls : List (Action n)}
    (hs : s.ids.length ≤ 2 ^ 31 - 1) :
    Transition.Run ((numbering n).restrict CounterLasts) s ls t ↔
      Transition.Run (numbering n) s ls t ∧ t.ids.length ≤ 2 ^ 31 - 1 := by
  constructor
  · intro hrun
    induction hrun with
    | nil s => exact ⟨.nil s, hs⟩
    | @cons s u t l ls hstep _ ih =>
        have hlength := Numbered.length_step hstep.2
        have hu : u.ids.length ≤ 2 ^ 31 - 1 := by
          rw [hlength]
          split_ifs with hnew
          · exact hstep.1 hnew
          · exact hs
        exact ⟨.cons hstep.2 (ih hu).1, (ih hu).2⟩
  · rintro ⟨hrun, ht⟩
    induction hrun with
    | nil s => exact .nil s
    | @cons s u t l ls hstep hrest ih =>
        have hlength := Numbered.length_step hstep
        have hle := Numbered.length_le_of_run hrest
        refine .cons ⟨fun hnew => ?_, hstep⟩ (ih (hle.trans ht) ht)
        rw [if_pos hnew] at hlength
        omega

/-- The runs that identify every task are those whose counter lasts. -/
theorem run_identifies_iff_counterLasts {n : ℕ} {s₀ : Numbered n}
    (h₀ : (numbering n).init s₀) {ls : List (Action n)} {t : Numbered n} :
    Transition.Run ((numbering n).filter fun s l _ => Identifies s l) s₀ ls t ↔
      Transition.Run ((numbering n).restrict CounterLasts) s₀ ls t :=
  Transition.run_filter_iff_restrict (fun _ _ _ h hlasts hstep => h.step hlasts hstep)
    (fun _ _ _ h _ => h.identifies_iff) (Numbered.InOrder.created h₀.1 h₀.2)

/-- A run gives every accepted submission an id of its own, and keeps the counter and the
queue at every rejected one, exactly when it accepts at most `2147483647` submissions. -/
theorem identifies_iff_accepted_le {n : ℕ} {s₀ : Numbered n} (h₀ : (numbering n).init s₀)
    (ls : List (Action n)) (t : Numbered n) :
    Transition.Run ((numbering n).filter fun s l _ => Identifies s l) s₀ ls t ↔
      Transition.Run (numbering n) s₀ ls t ∧ t.ids.length ≤ 2147483647 := by
  rw [run_identifies_iff_counterLasts h₀, run_counterLasts_iff]
  · rfl
  · rw [h₀.2]
    exact Nat.zero_le _

theorem identifies_iff_accepted_le_two : ∃ s₀ t : Numbered 1, (numbering 1).init s₀ ∧
    Transition.Run ((numbering 1).filter fun s l _ => Identifies s l) s₀
      [.submit (some [97]) 1, .submit none 1, .submit (some [98]) 1] t ∧ t.ids = [1, 2] := by
  have hcreated : State.Created _ := ⟨[true, true, true], none, true, true,
    fun _ : Fin 1 => ⟨.created, .created, some 7⟩, _, _, rfl, rfl⟩
  exact ⟨⟨_, []⟩, _, ⟨hcreated, rfl⟩, (identifies_iff_accepted_le ⟨hcreated, rfl⟩ _ _).mpr
    ⟨.cons rfl (.cons rfl (.cons rfl (.nil _))), by decide⟩, rfl⟩

/-! ## A pool that lives long enough -/

/-- A running pool of one worker whose process waits for a task: what is queued, what the
pipe to the process holds, and the status in the record. The pipe back is empty. -/
structure State.Quiet (s : State 1) (channel : Channel) (queued sent : List Task)
    (status : WorkerStatus) : Prop where
  queue : s.pool.taskQueue.Holds queued
  running : s.pool.running = true
  status : (s.pool.workers 0).status = status
  pid : 0 < (s.pool.workers 0).pid
  toPipe : s.kernel.fds.lookup (s.pool.workers 0).pipeToWorker.writeEnd =
    some (.pipeEnd channel .toWorker .writeEnd)
  fromPipe : s.kernel.fds.lookup (s.pool.workers 0).pipeFromWorker.readEnd =
    some (.pipeEnd channel .fromWorker .readEnd)
  child : ∃ pid handler, s.kernel.children channel = some ⟨pid, handler, .waiting⟩
  toWorker : s.kernel.toWorker channel = sent
  fromWorker : s.kernel.fromWorker channel = []

namespace State.Quiet

variable {s : State 1} {channel : Channel} {task : Task}

theorem watched {queued sent : List Task} (h : s.Quiet channel queued sent .busy) :
    (s.pool.workers 0).watched = true := by
  have hopen : (s.pool.workers 0).pipeFromWorker.readEnd ≠ -1 := by
    intro heq
    have hpipe := h.fromPipe
    rw [heq] at hpipe
    cases hpipe
  rw [WorkerProcess.watched, Bool.and_eq_true, h.status]
  exact ⟨rfl, decide_eq_true hopen⟩

theorem submit (h : s.Quiet channel [] [] .idle) : ∃ t task,
    s.step (.submit (some [97]) 1) = some t ∧
      (s.newId (.submit (some [97]) 1)).isSome = true ∧ t.Quiet channel [task] [] .idle := by
  have hcount : s.pool.taskQueue.count = 0 := h.queue.count_eq
  have hsub : submission s.pool (some [97]) 1 = some ⟨s.pool.nextTaskId, [97, 0], 1⟩ := by
    simp only [submission, hcount]
    rfl
  have hqueue := (h.queue.enqueue (submission_count hsub) ⟨s.pool.nextTaskId, [97, 0], 1⟩).2
  have hsubmit := processPoolSubmitTask_eq s.pool (some [97]) 1
  rw [hsub] at hsubmit
  refine ⟨_, ⟨s.pool.nextTaskId, [97, 0], 1⟩, rfl, ?_, ?_⟩
  · rcases submit_cases s.pool (some [97]) 1 with ⟨hacc, -⟩ | ⟨-, hr⟩
    · rw [State.newId, if_pos hacc]
      rfl
    · rw [hsubmit] at hr
      have hsame : (enqueueTask s.pool.taskQueue _).2 = s.pool.taskQueue :=
        congrArg (fun r => r.2.taskQueue) hr
      have hlength := hqueue.count_eq
      rw [hsame, hcount] at hlength
      cases hlength
  · rw [State.submitted, hsubmit]
    exact ⟨hqueue, h.running, h.status, h.pid, h.toPipe, h.fromPipe, h.child, h.toWorker,
      h.fromWorker⟩

/-- The queued task is sent to the idle worker. -/
theorem dispatch (h : s.Quiet channel [task] [] .idle) : ∃ t,
    s.step (.dispatch (fun _ => true) true) = some t ∧ t.Quiet channel [] [task] .busy := by
  have hready : readyWorkers (fun _ => true) s.pool.workers = [0] := by
    rw [readyWorkers, List.filter_eq_self.mpr]
    · rfl
    · intro i _
      rw [Subsingleton.elim i 0]
      exact decide_eq_true ⟨h.status, h.pid, rfl⟩
  obtain ⟨q, hq, hround⟩ := dispatchRound_of_cons (k := s.kernel) hready h.queue h.toPipe
  have hcount : 0 < s.pool.taskQueue.count := by
    rw [h.queue.count_eq]
    exact one_pos
  refine ⟨_, if_pos hcount, ?_⟩
  rw [hround]
  refine ⟨hq, h.running, rfl, h.pid, h.toPipe, h.fromPipe, h.child, ?_, h.fromWorker⟩
  simp only [State.put, Function.update_self, h.toWorker]
  rfl

/-- The worker process reads the task and writes its result. -/
theorem process (h : s.Quiet channel [] [task] .busy) : ∃ k result,
    Transition.Run (processPool 1) s [.childRead channel, .childWrite channel]
      { s with kernel := k } ∧
    k.fds = s.kernel.fds ∧ (∃ pid handler, k.children channel = some ⟨pid, handler, .waiting⟩) ∧
    k.toWorker channel = [] ∧ k.fromWorker channel = [result] := by
  obtain ⟨pid, handler, hchild⟩ := h.child
  let k₁ : Kernel := { s.kernel with
    toWorker := Function.update s.kernel.toWorker channel []
    children := Function.update s.kernel.children channel
      (some ⟨pid, handler, .writing (handleTask handler task)⟩) }
  let k₂ : Kernel := { k₁ with
    fromWorker := Function.update k₁.fromWorker channel
      (k₁.fromWorker channel ++ [handleTask handler task])
    children := Function.update k₁.children channel (some ⟨pid, handler, .waiting⟩) }
  have hread : s.step (.childRead channel) = some { s with kernel := k₁ } := by
    simp only [State.step, Kernel.childRead, hchild, h.toWorker]
    rfl
  have hwrite : State.step { s with kernel := k₁ } (.childWrite channel) =
      some { s with kernel := k₂ } := by
    simp only [State.step, Kernel.childWrite, k₁, Function.update_self]
    rfl
  refine ⟨k₂, handleTask handler task, .cons hread (.cons hwrite (.nil _)), rfl,
    ⟨pid, handler, Function.update_self ..⟩, Function.update_self .., ?_⟩
  simp only [k₂, k₁, Function.update_self, h.fromWorker]
  rfl

/-- The worker process answers the task, and the result is returned. -/
theorem answer (h : s.Quiet channel [] [task] .busy) : ∃ ls t,
    Transition.Run (processPool 1) s ls t ∧ t.Quiet channel [] [] .idle := by
  obtain ⟨k, result, hrun, hfds, hchild, htoWorker, hfromWorker⟩ := h.process
  have hpipe : k.fds.lookup (s.pool.workers 0).pipeFromWorker.readEnd =
      some (.pipeEnd channel .fromWorker .readEnd) := by
    rw [hfds]
    exact h.fromPipe
  have hreceive : receiveRound 0 true s.pool k =
      (some result, { s.pool with
        workers := Function.update s.pool.workers 0 { s.pool.workers 0 with
          status := .idle
          currentTaskId := -1
          lastActive := k.now } },
        { k with fromWorker := Function.update k.fromWorker channel [] }) := by
    simp only [receiveRound, receiveResultFromWorker, Kernel.readResult, hpipe, hfromWorker]
    rfl
  have hstep : State.step { s with kernel := k } (.receive 0 true) =
      some (State.received { s with kernel := k } (receiveRound 0 true s.pool k)) := by
    rw [State.step, h.running, h.watched]
    rfl
  have htoPipe : k.fds.lookup (s.pool.workers 0).pipeToWorker.writeEnd =
      some (.pipeEnd channel .toWorker .writeEnd) := by
    rw [hfds]
    exact h.toPipe
  refine ⟨_, _, hrun.snoc hstep, ?_⟩
  rw [hreceive]
  exact ⟨h.queue, h.running, rfl, h.pid, htoPipe, hpipe, hchild, htoWorker,
    Function.update_self ..⟩

end State.Quiet

theorem exists_run_numbering {n : ℕ} {s t : State n} {ls : List (Action n)}
    (hrun : Transition.Run (processPool n) s ls t) (ids : List ℤ) :
    ∃ ids', Transition.Run (numbering n) ⟨s, ids⟩ ls ⟨t, ids'⟩ := by
  induction hrun generalizing ids with
  | nil s => exact ⟨ids, .nil _⟩
  | @cons s u t l ls hstep _ ih =>
      obtain ⟨ids', hrest⟩ := ih (ids ++ (s.newId l).toList)
      refine ⟨ids', .cons ?_ hrest⟩
      exact congrArg (Option.map fun t => (⟨t, ids ++ (s.newId l).toList⟩ : Numbered n)) hstep

/-- One more submission is accepted and served. -/
theorem State.Quiet.round {s : Numbered 1} {channel : Channel}
    (h : s.state.Quiet channel [] [] .idle) : ∃ ls t,
    Transition.Run (numbering 1) s ls t ∧ t.state.Quiet channel [] [] .idle ∧
      s.ids.length + 1 ≤ t.ids.length := by
  obtain ⟨t, task, hsubmit, hnew, ht⟩ := h.submit
  obtain ⟨u, hdispatch, hu⟩ := ht.dispatch
  obtain ⟨ls, v, hrun, hv⟩ := hu.answer
  obtain ⟨ids, hrest⟩ := exists_run_numbering (.cons hdispatch hrun)
    (s.ids ++ (s.state.newId (.submit (some [97]) 1)).toList)
  have hfirst : s.step (.submit (some [97]) 1) =
      some ⟨t, s.ids ++ (s.state.newId (.submit (some [97]) 1)).toList⟩ := by
    rw [Numbered.step, hsubmit]
    rfl
  refine ⟨_, _, .cons hfirst hrest, hv, ?_⟩
  have hlength := Numbered.length_step hfirst
  rw [if_pos hnew] at hlength
  exact hlength.ge.trans (Numbered.length_le_of_run hrest)

theorem State.Quiet.rounds {s : Numbered 1} {channel : Channel}
    (h : s.state.Quiet channel [] [] .idle) (k : ℕ) : ∃ ls t,
    Transition.Run (numbering 1) s ls t ∧ t.state.Quiet channel [] [] .idle ∧
      s.ids.length + k ≤ t.ids.length := by
  induction k with
  | zero => exact ⟨[], s, .nil s, h, le_rfl⟩
  | succ k ih =>
      obtain ⟨ls, t, hrun, ht, hlength⟩ := ih
      obtain ⟨ms, u, hrest, hu, hmore⟩ := ht.round
      exact ⟨ls ++ ms, u, hrun.append hrest, hu, by omega⟩

/-- After `2147483647` submissions the next one returns a negative id. -/
theorem ids_run_out : ¬ ∀ (n : ℕ) (s₀ t : Numbered n) (ls : List (Action n)),
    (numbering n).init s₀ → Transition.Run (numbering n) s₀ ls t →
      Transition.Run ((numbering n).filter fun s l _ => Identifies s l) s₀ ls t := by
  intro hclaim
  obtain ⟨s, hcreated, hquiet⟩ : ∃ s : State 1, s.Created ∧
      State.Quiet { s with pool := { s.pool with running := true } } ⟨0, 0⟩ [] [] .idle :=
    ⟨_, ⟨[true, true, true], none, true, true, fun _ => ⟨.created, .created, some 7⟩, _, _,
      rfl, rfl⟩, TaskQueue.Holds.init, rfl, rfl, by decide, rfl, rfl, ⟨7, none, rfl⟩, rfl, rfl⟩
  have hinit : (numbering 1).init ⟨s, []⟩ := ⟨hcreated, rfl⟩
  obtain ⟨ls, t, hrun, -, hlength⟩ :=
    State.Quiet.rounds (s := ⟨{ s with pool := { s.pool with running := true } }, []⟩) hquiet
      (2 ^ 31)
  have hfilter := hclaim 1 ⟨s, []⟩ t (.setRunning true :: ls) hinit (.cons rfl hrun)
  have hmost := ((run_counterLasts_iff (Nat.zero_le _)).mp
    ((run_identifies_iff_counterLasts hinit).mp hfilter)).2
  omega

end PipePool

end ProcessThreadPool
