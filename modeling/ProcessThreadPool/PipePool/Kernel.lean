import ProcessThreadPool.Lib.DescriptorTable

/-!
# The pipe-based process pool: descriptors, pipes and worker processes

What the operating system keeps for the master: its descriptor table, the contents
of the pipes, and the forked processes, each of which runs `worker_main`. A message
is shorter than `PIPE_BUF`, so a pipe carries whole tasks or whole results. Every
call of `create_worker_process` opens its pipes for a channel of its own: the
worker's index and the number of calls made before.
-/

namespace ProcessThreadPool

namespace PipePool

open DescriptorTable

/-- `MAX_TASK_DATA`. -/
def maxTaskData : ℕ := 1024

/-- `task_t`. `data` is the part of the array that the submitter wrote. -/
structure Task where
  taskId : ℤ
  data : List UInt8
  dataLen : ℤ
  deriving DecidableEq, Repr

/-- `task_result_t`. `resultData` is the part of the array that the handler wrote;
the rest is zero. -/
structure TaskResult where
  taskId : ℤ
  resultCode : ℤ
  resultData : List UInt8
  resultLen : ℤ
  deriving DecidableEq, Repr

/-- What a call of a handler returns and writes through its pointers. -/
structure HandlerResult where
  resultCode : ℤ
  resultData : List UInt8
  resultLen : ℤ
  deriving DecidableEq, Repr

/-- `task_handler_t`. -/
abbrev TaskHandler := List UInt8 → ℤ → HandlerResult

/-- The bytes of `"PROCESSED: "`. -/
def processedText : List UInt8 := [80, 82, 79, 67, 69, 83, 83, 69, 68, 58, 32]

/-- `c - 'a' + 'A'` for a lower-case letter. -/
def toUpper (c : UInt8) : UInt8 := if 97 ≤ c ∧ c ≤ 122 then c - 97 + 65 else c

/-- `default_task_handler`. -/
def defaultTaskHandler : TaskHandler := fun taskData dataLen =>
  if dataLen ≤ 0 ∨ (maxTaskData : ℤ) ≤ dataLen then ⟨-1, [], 0⟩
  else
    let remaining := maxTaskData - processedText.length - 1
    let copyLen := min dataLen.toNat remaining
    ⟨0, processedText ++ (taskData.take copyLen).map toUpper ++ [0],
      (processedText.length + copyLen : ℕ)⟩

/-- The worker a pipe was opened for, and the call of `create_worker_process`. -/
structure Channel where
  worker : ℕ
  session : ℕ
  deriving DecidableEq, Repr

/-- The two pipes of a channel: `pipe_to_worker` and `pipe_from_worker`. -/
inductive Direction where
  | toWorker
  | fromWorker
  deriving DecidableEq, Repr

inductive Side where
  | readEnd
  | writeEnd
  deriving DecidableEq, Repr

/-- What an open number of the master refers to: a pipe end, or a file that the
pool did not open. -/
inductive Descriptor where
  | other
  | pipeEnd (channel : Channel) (direction : Direction) (side : Side)
  deriving DecidableEq, Repr

/-- Where a worker process stands in `worker_main`: waiting for a task, or done with
one and about to write its result. A process that has exited stays until it is
waited for. -/
inductive Phase where
  | waiting
  | writing (result : TaskResult)
  | exited
  | reaped
  deriving DecidableEq, Repr

/-- A forked process. A `NULL` handler is `none`. -/
structure Child where
  pid : ℤ
  handler : Option TaskHandler
  phase : Phase

/-- A `close` issued by the master while it handles a worker, and what the number
referred to. -/
structure CloseCall where
  worker : ℕ
  fd : ℤ
  found : Option Descriptor
  deriving DecidableEq, Repr

/-- The master's descriptors, the pipes and the worker processes, and the time that
`time(NULL)` tells. `sessions` counts the calls of `create_worker_process`, and `closes`
records the calls of `close`. -/
structure Kernel where
  now : ℤ
  fds : Table Descriptor
  sessions : ℕ
  toWorker : Channel → List Task
  fromWorker : Channel → List TaskResult
  children : Channel → Option Child
  closes : List CloseCall

/-- Before the pool is created, with the open numbers of the master given. -/
def Kernel.start (opened : List Bool) : Kernel where
  now := 0
  fds := ⟨opened.map fun b => if b then some .other else none⟩
  sessions := 0
  toWorker := fun _ => []
  fromWorker := fun _ => []
  children := fun _ => none
  closes := []

/-- `close`, issued for the given worker. -/
def Kernel.close (k : Kernel) (worker : ℕ) (fd : ℤ) : Kernel :=
  { k with fds := k.fds.close fd, closes := k.closes ++ [⟨worker, fd, k.fds.lookup fd⟩] }

/-- The child's side of a successful `fork`. -/
def Kernel.spawn (k : Kernel) (channel : Channel) (pid : ℤ)
    (handler : Option TaskHandler) : Kernel :=
  { k with children :=
      Function.update k.children channel (some ⟨pid, handler, .waiting⟩) }

/-- `kill` with `SIGKILL` and `waitpid`. -/
def Kernel.killAndWait (k : Kernel) (pid : ℤ) : Kernel :=
  { k with children := fun channel => (k.children channel).map fun child =>
      if child.pid = pid then { child with phase := .reaped } else child }

/-- The result that `worker_main` writes for a task. -/
def handleTask (handler : Option TaskHandler) (task : Task) : TaskResult :=
  let r := handler.getD defaultTaskHandler task.data task.dataLen
  ⟨task.taskId, r.resultCode, r.resultData, r.resultLen⟩

/-- The worker process of a channel reads a task and handles it. -/
def Kernel.childRead (k : Kernel) (channel : Channel) : Option Kernel :=
  match k.children channel, k.toWorker channel with
  | some ⟨pid, handler, .waiting⟩, task :: tasks =>
      some { k with
        toWorker := Function.update k.toWorker channel tasks
        children := Function.update k.children channel
          (some ⟨pid, handler, .writing (handleTask handler task)⟩) }
  | _, _ => none

/-- The worker process of a channel writes its result. -/
def Kernel.childWrite (k : Kernel) (channel : Channel) : Option Kernel :=
  match k.children channel with
  | some ⟨pid, handler, .writing result⟩ =>
      some { k with
        fromWorker :=
          Function.update k.fromWorker channel (k.fromWorker channel ++ [result])
        children := Function.update k.children channel (some ⟨pid, handler, .waiting⟩) }
  | _ => none

/-- The worker process of a channel leaves `worker_main` or dies, at any point. -/
def Kernel.childExit (k : Kernel) (channel : Channel) : Option Kernel :=
  match k.children channel with
  | some ⟨pid, handler, .waiting⟩ | some ⟨pid, handler, .writing _⟩ =>
      some { k with
        children := Function.update k.children channel (some ⟨pid, handler, .exited⟩) }
  | _ => none

/-- `waitpid(-1, &status, WNOHANG)` returns the process of a channel. -/
def Kernel.waitChild (k : Kernel) (channel : Channel) : Option (ℤ × Kernel) :=
  match k.children channel with
  | some ⟨pid, handler, .exited⟩ =>
      some (pid, { k with
        children := Function.update k.children channel (some ⟨pid, handler, .reaped⟩) })
  | _ => none

@[simp] theorem lookup_close (k : Kernel) (worker : ℕ) (fd : ℤ) :
    (k.close worker fd).fds.lookup = Function.update k.fds.lookup fd none :=
  k.fds.lookup_close fd

end PipePool

end ProcessThreadPool
