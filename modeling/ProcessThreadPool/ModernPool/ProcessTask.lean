import ProcessThreadPool.ModernPool.Task

/-!
# What a reader sees of a processed task

`worker_process_task` runs the handler, hands its outcome to `task_set_result` or
`task_set_error`, and stores the final state by the handler's result alone. When the
`malloc` of `task_set_result` fails, that function returns `POOL_ERROR_OUT_OF_MEMORY` with
the previous `error_code` left in place, and nobody looks at what it returned.
-/

namespace ProcessThreadPool

namespace ModernPool

/-- `task_handler_t`: the result and the output, from the input and the user context. A
`NULL` pointer is `none`. -/
abbrev TaskHandler (κ : Type*) := Option (List UInt8) → κ → ℤ × Option (List UInt8)

/-- `default_task_handler`: the input comes back. -/
def defaultTaskHandler {κ : Type*} (alloc : Bool) : TaskHandler κ := fun input _ =>
  match input with
  | none | some [] => (-1, none)
  | some data => if alloc then (0, some data) else (-1, none)

/-- `task_internal_t` with what the handler is called with. -/
structure HandledTask (κ : Type*) extends Task where
  handler : Option (TaskHandler κ)
  inputData : Option (List UInt8)

/-- `pool_config_t`, as far as `worker_process_task` looks at it. -/
structure HandlerConfig (κ : Type*) where
  defaultHandler : Option (TaskHandler κ)
  userContext : κ

/-- `worker_internal_t`, as far as `worker_process_task` looks at it. -/
structure WorkerInternal where
  workerId : UInt32
  tasksProcessed : UInt64
  lastHeartbeat : UInt64
  deriving DecidableEq, Repr

/-- The outcomes of `malloc`: in the default handler, and in the setter that
`worker_process_task` calls. -/
structure Allocations where
  handler : Bool
  setter : Bool
  deriving DecidableEq, Repr

/-- The readings of the clock during `worker_process_task`. -/
structure Readings where
  start : UInt64
  stop : UInt64
  heartbeat : UInt64
  deriving DecidableEq, Repr

section

variable {κ : Type*}

/-- The handler of the task, else that of the configuration, else the default one. -/
def selectHandler (config : HandlerConfig κ) (task : HandledTask κ) (alloc : Bool) :
    TaskHandler κ :=
  match task.handler with
  | some handler => handler
  | none => config.defaultHandler.getD (defaultTaskHandler alloc)

/-- What the handler returns for the task. -/
def outcome (config : HandlerConfig κ) (task : HandledTask κ) (alloc : Bool) :
    ℤ × Option (List UInt8) :=
  selectHandler config task alloc task.inputData config.userContext

/-- `worker_process_task`. -/
def workerProcessTask (worker : WorkerInternal) (task : HandledTask κ)
    (config : HandlerConfig κ) (alloc : Allocations) (clock : Readings) :
    ℤ × WorkerInternal × HandledTask κ :=
  let running : Task := { task.toTask with
    state := .running
    workerId := worker.workerId
    startTime := clock.start }
  let (result, output) := outcome config task alloc.handler
  let ended : Task := { running with endTime := clock.stop }
  let finished : Task :=
    if result = 0 then { (taskSetResult ended output alloc.setter).2 with state := .completed }
    else
      { taskSetError ended result "Task execution failed" alloc.setter with state := .failed }
  (result,
    { worker with
      tasksProcessed := worker.tasksProcessed + 1
      lastHeartbeat := clock.heartbeat },
    { task with toTask := finished })

/-- `task_get_result`, with the outcomes of `malloc` for the output and for the message. -/
def taskGetResult (t : Task) (allocOutput allocMessage : Bool) : Except PoolError TaskResult :=
  if taskIsCompleted t = false then .error .invalidParam
  else
    let message := if allocMessage then t.result.errorMessage else none
    match t.result.outputData with
    | none | some [] => .ok ⟨t.result.errorCode, message, none⟩
    | some data =>
        if allocOutput then .ok ⟨t.result.errorCode, message, some data⟩
        else .error .outOfMemory

/-- The bytes behind a pointer that may be `NULL`. -/
def bytes (data : Option (List UInt8)) : List UInt8 := data.getD []

/-- What a reader sees of the task fits the outcome of its handler. -/
def Reports (handled : ℤ × Option (List UInt8)) (t : Task) : Prop :=
  (t.state = .completed ∧ ∀ allocOutput allocMessage r,
    taskGetResult t allocOutput allocMessage = .ok r →
      r.errorCode = 0 ∧ bytes r.outputData = bytes handled.2) ∨
  (t.state ≠ .completed ∧ ∀ allocOutput allocMessage r,
    taskGetResult t allocOutput allocMessage = .ok r → r.errorCode ≠ 0)

/-- A successful read copies the error code and the bytes. -/
theorem taskGetResult_ok {t : Task} {allocOutput allocMessage : Bool} {r : TaskResult}
    (h : taskGetResult t allocOutput allocMessage = .ok r) :
    r.errorCode = t.result.errorCode ∧ bytes r.outputData = bytes t.result.outputData := by
  rw [taskGetResult] at h
  by_cases hcompleted : taskIsCompleted t = false
  · rw [if_pos hcompleted] at h
    cases h
  · rw [if_neg hcompleted] at h
    match hdata : t.result.outputData with
    | none | some [] =>
        simp only [hdata, Except.ok.injEq] at h
        subst h
        exact ⟨rfl, rfl⟩
    | some (b :: rest) =>
        cases allocOutput with
        | false => simp [hdata] at h
        | true =>
            simp only [hdata, if_true, Except.ok.injEq] at h
            subst h
            exact ⟨rfl, rfl⟩

/-- When every `malloc` succeeds, a finished task can be read. -/
theorem taskGetResult_isOk {t : Task} (h : taskIsCompleted t = true) :
    ∃ r, taskGetResult t true true = .ok r := by
  simp only [taskGetResult, h, Bool.true_eq_false, if_false]
  split
  · exact ⟨_, rfl⟩
  · exact ⟨_, rfl⟩
  · exact ⟨_, rfl⟩

/-- What a reader sees is what the task has stored. -/
theorem reports_iff {handled : ℤ × Option (List UInt8)} {t : Task}
    (hcompleted : taskIsCompleted t = true) :
    Reports handled t ↔
      (t.state = .completed ∧ t.result.errorCode = 0 ∧
        bytes t.result.outputData = bytes handled.2) ∨
      (t.state ≠ .completed ∧ t.result.errorCode ≠ 0) := by
  obtain ⟨r, hr⟩ := taskGetResult_isOk hcompleted
  have hread := taskGetResult_ok hr
  refine or_congr (and_congr_right fun _ => ?_) (and_congr_right fun _ => ?_)
  · constructor
    · intro h
      rw [← hread.1, ← hread.2]
      exact h _ _ r hr
    · intro h allocOutput allocMessage r' hr'
      rw [(taskGetResult_ok hr').1, (taskGetResult_ok hr').2]
      exact h
  · constructor
    · intro h
      rw [← hread.1]
      exact h _ _ r hr
    · intro h allocOutput allocMessage r' hr'
      rw [(taskGetResult_ok hr').1]
      exact h

/-- `task_set_result` stores the bytes unless there are some and `malloc` fails. -/
theorem taskSetResult_bytes (t : Task) (output : Option (List UInt8)) (alloc : Bool) :
    ((taskSetResult t output alloc).2.result.errorCode = 0 ∧
      bytes (taskSetResult t output alloc).2.result.outputData = bytes output) ↔
    bytes output = [] ∨ alloc = true := by
  match output with
  | none => simp [taskSetResult, bytes]
  | some [] => simp [taskSetResult, bytes]
  | some (b :: rest) => cases alloc <;> simp [taskSetResult, bytes]

/-- A task that a worker has processed reports the outcome of its handler exactly when the
handler failed, has no bytes to report, or the `malloc` for them succeeded. -/
theorem workerProcessTask_reports_iff (worker : WorkerInternal) (task : HandledTask κ)
    (config : HandlerConfig κ) (alloc : Allocations) (clock : Readings) :
    Reports (outcome config task alloc.handler)
        (workerProcessTask worker task config alloc clock).2.2.toTask ↔
      (outcome config task alloc.handler).1 ≠ 0 ∨
        bytes (outcome config task alloc.handler).2 = [] ∨ alloc.setter = true := by
  rcases houtcome : outcome config task alloc.handler with ⟨result, output⟩
  by_cases hresult : result = 0
  · subst hresult
    simp only [workerProcessTask, houtcome, if_true]
    rw [reports_iff (by simp [taskIsCompleted])]
    simp only [ne_eq, not_true_eq_false, false_and, or_false, true_and, false_or]
    exact taskSetResult_bytes _ _ _
  · simp only [workerProcessTask, houtcome, if_neg hresult]
    rw [reports_iff (by simp [taskIsCompleted])]
    exact iff_of_true (Or.inr ⟨by simp, hresult⟩) (Or.inl hresult)

/-- The handler of a new task returns one byte, and there is no memory to keep it. -/
theorem output_lost : ¬ ∀ (worker : WorkerInternal) (task : HandledTask Unit)
    (config : HandlerConfig Unit) (alloc : Allocations) (clock : Readings),
    task.state = .pending →
      Reports (outcome config task alloc.handler)
        (workerProcessTask worker task config alloc clock).2.2.toTask := by
  intro hclaim
  have hreports := hclaim ⟨0, 0, 0⟩ ⟨taskCreate, some fun _ _ => (0, some [1]), none⟩
    ⟨none, ()⟩ ⟨true, false⟩ ⟨1, 2, 3⟩ rfl
  rcases hreports with ⟨-, hread⟩ | ⟨hstate, -⟩
  · exact absurd (hread true true _ rfl).2 (by decide)
  · exact hstate rfl

/-! ## The steps of the worker among those of others -/

variable {ι : Type*} [DecidableEq ι]

/-- A worker that nobody disturbs takes the task through its four steps to what
`worker_process_task` makes of it. -/
theorem exec_workerProcessTask (s : Life ι) (hworker : s.worker = .idle)
    (hmutex : s.mutex = none) (worker : WorkerInternal) (task : HandledTask κ)
    (htask : task.toTask = s.task) (config : HandlerConfig κ) (alloc : Allocations)
    (clock : Readings) :
    Transition.exec Life.step s
      [.storeRunning worker.workerId clock.start,
        .runHandler (outcome config task alloc.handler).1 (outcome config task alloc.handler).2
          clock.stop,
        .recordResult alloc.setter, .storeFinal] =
      some { s with
        task := (workerProcessTask worker task config alloc clock).2.2.toTask
        worker := .done } := by
  rcases houtcome : outcome config task alloc.handler with ⟨result, output⟩
  by_cases hresult : result = 0 <;>
    simp [Transition.exec, Life.step, workerProcessTask, houtcome, hworker, hmutex, hresult,
      htask, finalState]

end

end ModernPool

end ProcessThreadPool
