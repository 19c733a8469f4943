import ProcessThreadPool.Lib.Transition
import Mathlib.Data.Int.Notation
import Mathlib.Logic.Function.Basic

/-!
# Tasks of the modern process pool

`task_internal_t` and the code that moves its `state`: `task_cancel`,
`worker_process_task` and the branch of `handle_task_submit_event` for a task that
could not be assigned. Only `task_cancel` looks at the state before it stores a
new one, and only it and the two setters hold `task->mutex`; the stores of the
worker and of the event loop are taken as they stand in the code. A section under
the mutex is one step unless somebody else stores between its accesses.
-/

namespace ProcessThreadPool

namespace ModernPool

/-- `task_state_t`. -/
inductive TaskState where
  | pending
  | running
  | completed
  | failed
  | timeout
  | cancelled
  deriving DecidableEq, Repr

/-- The error codes that the task functions return. -/
inductive PoolError where
  | success
  | invalidParam
  | outOfMemory
  | systemCall
  | timeout
  deriving DecidableEq, Repr

/-- `task_result_t`; `output_size` is the length of the output. -/
structure TaskResult where
  errorCode : ℤ
  errorMessage : Option String
  outputData : Option (List UInt8)
  deriving DecidableEq, Repr

/-- `task_internal_t`, as far as its life after `task_create` goes. -/
structure Task where
  state : TaskState
  workerId : UInt32
  startTime : UInt64
  endTime : UInt64
  result : TaskResult
  deriving DecidableEq, Repr

/-- The task that `task_create` returns. -/
def taskCreate : Task where
  state := .pending
  workerId := 0xFFFFFFFF
  startTime := 0
  endTime := 0
  result := ⟨0, none, none⟩

/-- `task_is_completed`. -/
def taskIsCompleted (t : Task) : Bool :=
  t.state = .completed || t.state = .failed || t.state = .cancelled

/-- `task_set_result`. `output` is `none` for a `NULL` pointer, and `alloc` is the
outcome of `malloc`. -/
def taskSetResult (t : Task) (output : Option (List UInt8)) (alloc : Bool) :
    PoolError × Task :=
  let cleared := { t with result := { t.result with outputData := none } }
  match output with
  | none | some [] =>
      (.success, { cleared with result := { cleared.result with errorCode := 0 } })
  | some data =>
      if alloc = false then (.outOfMemory, cleared)
      else
        (.success, { cleared with
          result := { cleared.result with outputData := some data, errorCode := 0 } })

/-- `task_set_error`. -/
def taskSetError (t : Task) (errorCode : ℤ) (message : String) (alloc : Bool) : Task :=
  { t with
    result := { t.result with
      errorCode := errorCode
      errorMessage := if alloc then some message else none } }

/-- Where a call of `task_cancel` stands. It holds the mutex while `storing` or
`notifying`. -/
inductive Cancel where
  | idle
  | storing
  | notifying
  | returned (err : PoolError)
  deriving DecidableEq, Repr

/-- Where the execution of `worker_process_task` on the task stands. -/
inductive Worker where
  | idle
  | running
  | handled (result : ℤ) (output : Option (List UInt8))
  | recorded (result : ℤ)
  | done
  deriving DecidableEq, Repr

/-- Where `handle_task_submit_event` stands with a task that
`assign_task_to_worker` refused. -/
inductive Assign where
  | idle
  | refused (err : ℤ)
  | recorded
  | stored
  | done
  deriving DecidableEq, Repr

/-- One task and the parties that move it. `cancelled` is set once a call of
`task_cancel` has returned `POOL_SUCCESS`. -/
structure Life (ι : Type*) where
  task : Task
  mutex : Option ι
  cancels : ι → Cancel
  worker : Worker
  assign : Assign
  cancelled : Bool

/-- The task has just been created. -/
def Life.start {ι : Type*} : Life ι where
  task := taskCreate
  mutex := none
  cancels := fun _ => .idle
  worker := .idle
  assign := .idle
  cancelled := false

/-- What happens next, with the clock, the outcome of `malloc`, or what the handler
returns. -/
inductive Move (ι : Type*) where
  | cancel (c : ι) (now : UInt64)
  | storeRunning (workerId : UInt32) (now : UInt64)
  | runHandler (result : ℤ) (output : Option (List UInt8)) (now : UInt64)
  | recordResult (alloc : Bool)
  | storeFinal
  | refuse (err : ℤ)
  | recordFailure (alloc : Bool)
  | storeFailed
  | notifyFailure
  deriving DecidableEq, Repr

/-- The final state that `worker_process_task` stores for the handler's result. -/
def finalState (result : ℤ) : TaskState := if result = 0 then .completed else .failed

section Steps

variable {ι : Type*} [DecidableEq ι]

/-- The next step of a call of `task_cancel`: lock and look at the state, store,
notify and unlock. -/
def cancelStep (s : Life ι) (c : ι) (now : UInt64) : Option (Life ι) :=
  match s.cancels c with
  | .idle | .returned _ =>
      if s.mutex.isSome then none
      else if s.task.state = .pending ∨ s.task.state = .running then
        some { s with
          mutex := some c
          cancels := Function.update s.cancels c .storing }
      else some { s with cancels := Function.update s.cancels c (.returned .invalidParam) }
  | .storing =>
      some { s with
        task := { s.task with state := .cancelled, endTime := now }
        cancels := Function.update s.cancels c .notifying }
  | .notifying =>
      some { s with
        mutex := none
        cancels := Function.update s.cancels c (.returned .success)
        cancelled := true }

/-- One step. -/
def Life.step (s : Life ι) : Move ι → Option (Life ι)
  | .cancel c now => cancelStep s c now
  | .storeRunning workerId now =>
      if s.worker = .idle then
        some { s with
          task := { s.task with state := .running, workerId := workerId, startTime := now }
          worker := .running }
      else none
  | .runHandler result output now =>
      if s.worker = .running then
        some { s with
          task := { s.task with endTime := now }
          worker := .handled result output }
      else none
  | .recordResult alloc =>
      match s.worker with
      | .handled result output =>
          if s.mutex.isSome then none
          else if result = 0 then
            some { s with
              task := (taskSetResult s.task output alloc).2
              worker := .recorded result }
          else
            some { s with
              task := taskSetError s.task result "Task execution failed" alloc
              worker := .recorded result }
      | _ => none
  | .storeFinal =>
      match s.worker with
      | .recorded result =>
          some { s with
            task := { s.task with state := finalState result }
            worker := .done }
      | _ => none
  | .refuse err => if s.assign = .idle then some { s with assign := .refused err } else none
  | .recordFailure alloc =>
      match s.assign with
      | .refused err =>
          if s.mutex.isSome then none
          else
            some { s with
              task := taskSetError s.task err "Failed to assign to worker" alloc
              assign := .recorded }
      | _ => none
  | .storeFailed =>
      if s.assign = .recorded then
        some { s with
          task := { s.task with state := .failed }
          assign := .stored }
      else none
  | .notifyFailure =>
      if s.assign = .stored then
        if s.mutex.isSome then none else some { s with assign := .done }
      else none

/-- What the step stores to the `state` field, if it stores anything. -/
def stores (s : Life ι) : Move ι → Option TaskState
  | .cancel c _ => if s.cancels c = .storing then some .cancelled else none
  | .storeRunning _ _ => some .running
  | .storeFinal =>
      match s.worker with
      | .recorded result => some (finalState result)
      | _ => none
  | .storeFailed => some .failed
  | _ => none

end Steps

/-- All interleavings of the callers of `task_cancel`, one execution of
`worker_process_task` and one refused assignment. -/
def life {ι : Type*} [DecidableEq ι] : Transition.System (Life ι) (Move ι) :=
  Transition.System.ofFun Life.start Life.step

@[simp] theorem taskSetResult_state (t : Task) (output : Option (List UInt8)) (alloc : Bool) :
    (taskSetResult t output alloc).2.state = t.state := by
  cases output with
  | none => rfl
  | some data =>
      cases data with
      | nil => rfl
      | cons b rest =>
          simp only [taskSetResult]
          split_ifs <;> rfl

@[simp] theorem taskSetError_state (t : Task) (errorCode : ℤ) (message : String)
    (alloc : Bool) : (taskSetError t errorCode message alloc).state = t.state := rfl

section Moves

variable {ι : Type*} [DecidableEq ι]

/-- The steps one by one: what each needs and what it leaves. -/
inductive Life.Moves (s : Life ι) : Move ι → Life ι → Prop
  | lock {c : ι} {now : UInt64} (hstart : s.cancels c ≠ .storing ∧ s.cancels c ≠ .notifying)
      (hfree : s.mutex = none) (hopen : s.task.state = .pending ∨ s.task.state = .running) :
      Moves s (.cancel c now) { s with
        mutex := some c
        cancels := Function.update s.cancels c .storing }
  | reject {c : ι} {now : UInt64} (hstart : s.cancels c ≠ .storing ∧ s.cancels c ≠ .notifying)
      (hfree : s.mutex = none) (hopen : ¬ (s.task.state = .pending ∨ s.task.state = .running)) :
      Moves s (.cancel c now) { s with
        cancels := Function.update s.cancels c (.returned .invalidParam) }
  | storeCancelled {c : ι} {now : UInt64} (hc : s.cancels c = .storing) :
      Moves s (.cancel c now) { s with
        task := { s.task with state := .cancelled, endTime := now }
        cancels := Function.update s.cancels c .notifying }
  | notifyCancelled {c : ι} {now : UInt64} (hc : s.cancels c = .notifying) :
      Moves s (.cancel c now) { s with
        mutex := none
        cancels := Function.update s.cancels c (.returned .success)
        cancelled := true }
  | storeRunning {workerId : UInt32} {now : UInt64} (hworker : s.worker = .idle) :
      Moves s (.storeRunning workerId now) { s with
        task := { s.task with state := .running, workerId := workerId, startTime := now }
        worker := .running }
  | runHandler {result : ℤ} {output : Option (List UInt8)} {now : UInt64}
      (hworker : s.worker = .running) : Moves s (.runHandler result output now) { s with
        task := { s.task with endTime := now }
        worker := .handled result output }
  | recordResult {alloc : Bool} {result : ℤ} {output : Option (List UInt8)} {task : Task}
      (hworker : s.worker = .handled result output) (hfree : s.mutex = none)
      (hstate : task.state = s.task.state) : Moves s (.recordResult alloc) { s with
        task := task
        worker := .recorded result }
  | storeFinal {result : ℤ} (hworker : s.worker = .recorded result) :
      Moves s .storeFinal { s with
        task := { s.task with state := finalState result }
        worker := .done }
  | refuse {err : ℤ} (hassign : s.assign = .idle) :
      Moves s (.refuse err) { s with assign := .refused err }
  | recordFailure {alloc : Bool} {err : ℤ} {task : Task} (hassign : s.assign = .refused err)
      (hfree : s.mutex = none) (hstate : task.state = s.task.state) :
      Moves s (.recordFailure alloc) { s with
        task := task
        assign := .recorded }
  | storeFailed (hassign : s.assign = .recorded) : Moves s .storeFailed { s with
        task := { s.task with state := .failed }
        assign := .stored }
  | notifyFailure (hassign : s.assign = .stored) (hfree : s.mutex = none) :
      Moves s .notifyFailure { s with assign := .done }

theorem cancelStep_moves {s t : Life ι} {c : ι} {now : UInt64}
    (hstep : cancelStep s c now = some t) : s.Moves (.cancel c now) t := by
  cases hc : s.cancels c with
  | storing =>
      simp only [cancelStep, hc, Option.some.injEq] at hstep
      subst hstep
      exact .storeCancelled hc
  | notifying =>
      simp only [cancelStep, hc, Option.some.injEq] at hstep
      subst hstep
      exact .notifyCancelled hc
  | _ =>
      have hstart : s.cancels c ≠ .storing ∧ s.cancels c ≠ .notifying := by simp [hc]
      simp only [cancelStep, hc, Option.isSome_iff_ne_none] at hstep
      split_ifs at hstep with hmutex hopen <;> obtain rfl := Option.some.inj hstep
      · exact .lock hstart (not_not.mp hmutex) hopen
      · exact .reject hstart (not_not.mp hmutex) hopen

theorem step_moves {s t : Life ι} {l : Move ι} (hstep : s.step l = some t) :
    s.Moves l t := by
  cases l with
  | cancel c now => exact cancelStep_moves hstep
  | recordResult alloc =>
      cases hworker : s.worker <;>
        simp only [Life.step, hworker, Option.isSome_iff_ne_none, reduceCtorEq] at hstep
      split_ifs at hstep with hmutex <;> obtain rfl := Option.some.inj hstep
      · exact .recordResult hworker (not_not.mp hmutex) (taskSetResult_state _ _ _)
      · exact .recordResult hworker (not_not.mp hmutex) rfl
  | storeFinal =>
      cases hworker : s.worker <;> simp only [Life.step, hworker, reduceCtorEq] at hstep
      obtain rfl := Option.some.inj hstep
      exact .storeFinal hworker
  | recordFailure alloc =>
      cases hassign : s.assign <;>
        simp only [Life.step, hassign, Option.isSome_iff_ne_none, reduceCtorEq] at hstep
      split_ifs at hstep with hmutex
      obtain rfl := Option.some.inj hstep
      exact .recordFailure hassign (not_not.mp hmutex) rfl
  | notifyFailure =>
      simp only [Life.step, Option.isSome_iff_ne_none] at hstep
      split_ifs at hstep with hassign hmutex
      obtain rfl := Option.some.inj hstep
      exact .notifyFailure hassign (not_not.mp hmutex)
  | storeRunning workerId now =>
      simp only [Life.step] at hstep
      split_ifs at hstep with hworker
      obtain rfl := Option.some.inj hstep
      exact .storeRunning hworker
  | runHandler result output now =>
      simp only [Life.step] at hstep
      split_ifs at hstep with hworker
      obtain rfl := Option.some.inj hstep
      exact .runHandler hworker
  | refuse err =>
      simp only [Life.step] at hstep
      split_ifs at hstep with hassign
      obtain rfl := Option.some.inj hstep
      exact .refuse hassign
  | storeFailed =>
      simp only [Life.step] at hstep
      split_ifs at hstep with hassign
      obtain rfl := Option.some.inj hstep
      exact .storeFailed hassign

end Moves

end ModernPool

end ProcessThreadPool
