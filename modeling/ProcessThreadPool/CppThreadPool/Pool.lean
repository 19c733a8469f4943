import ProcessThreadPool.Lib.Transition
import Mathlib.Data.Fintype.Pi
import Mathlib.Logic.Function.Basic

/-!
# The C++ thread pool

`ThreadPool` of the object-oriented version: `n` workers in `worker_thread` and
any number of client threads calling `enqueue`, `shutdown`, `shutdown_now` and
`wait_for_completion`. Every access to the pool's fields is made under
`queue_mutex`, so a critical section is one step and the mutex is free in every
state. The two condition variables are kept apart from it: a thread blocked on
`condition` or `finished` knows whether it has been notified, `notify_one` and
`notify_all` are steps of their own, and a spurious wakeup notifies a thread on
its own account.

`completed_tasks` is a `size_t` of 64 bits and wraps; `active_threads`, which
stays between zero and the number of workers, is an integer. What passed through
the pool is recorded in order: `accepted` by `enqueue`, `taken` by the workers,
`executed` when a task returned or threw, `completed` when it was counted,
`discarded` by `shutdown_now`.
-/

namespace ProcessThreadPool

namespace CppThreadPool

/-- The fields of `ThreadPool` that `queue_mutex` protects. -/
structure Pool (τ : Type*) where
  stop : Bool
  tasks : List τ
  activeThreads : ℤ
  completedTasks : UInt64
  deriving DecidableEq, Repr

/-- Where a worker stands in `worker_thread`: before the lock, blocked on
`condition`, running a task, before the second critical section, returned. -/
inductive Worker (τ : Type*) where
  | top
  | waiting (notified : Bool)
  | running (task : τ)
  | finishing (task : τ)
  | exited
  deriving DecidableEq, Repr

/-- Where a client stands. It is between calls at `idle`, after an `enqueue` that
threw at `threw`, and after `wait_for_completion` at `waited`. -/
inductive Client (τ : Type*) where
  | idle
  | threw
  | waited (result : Bool)
  | enqueue (task : τ)
  | notifyOne
  | shutdown (now : Bool)
  | notifyAll
  | join (i : ℕ)
  | wait (timed : Bool)
  | blocked (timed notified : Bool)
  deriving DecidableEq, Repr

/-- The program: the pool, its threads and its histories. -/
structure State (n : ℕ) (ι τ : Type*) where
  pool : Pool τ
  workers : Fin n → Worker τ
  clients : ι → Client τ
  accepted : List τ
  taken : List τ
  executed : List τ
  completed : List τ
  discarded : List τ

/-- The constructor has started `n` workers. -/
def State.start {ι τ : Type*} (n : ℕ) : State n ι τ where
  pool := ⟨false, [], 0, 0⟩
  workers := fun _ => .top
  clients := fun _ => .idle
  accepted := []
  taken := []
  executed := []
  completed := []
  discarded := []

/-- What a client calls: `now` tells `shutdown_now` from `shutdown`, and `timed`
whether `wait_for_completion` has a positive timeout. -/
inductive Op (τ : Type*) where
  | enqueue (task : τ)
  | shutdown (now : Bool)
  | wait (timed : Bool)
  deriving DecidableEq, Repr

/-- What happens next. `wake` is the worker that `notify_one` picks; `throws` says
whether the task ends with an exception. -/
inductive Action (n : ℕ) (ι τ : Type*) where
  | call (c : ι) (op : Op τ)
  | client (c : ι) (wake : Option (Fin n))
  | timeout (c : ι)
  | worker (i : Fin n) (throws : Bool)
  | spuriousWorker (i : Fin n)
  | spuriousClient (c : ι)
  deriving DecidableEq, Repr

/-- The predicate of `wait_for_completion`. -/
def Pool.done {τ : Type*} (p : Pool τ) : Bool :=
  p.tasks.isEmpty && decide (p.activeThreads = 0)

/-- The worker is blocked on `condition` without a notification. -/
def Worker.asleep {τ : Type*} : Worker τ → Bool
  | .waiting false => true
  | _ => false

/-- The worker's thread has ended. -/
def Worker.hasExited {τ : Type*} : Worker τ → Bool
  | .exited => true
  | _ => false

/-- A notification of `condition` reaches the worker. -/
def Worker.notify {τ : Type*} : Worker τ → Worker τ
  | .waiting _ => .waiting true
  | w => w

/-- A notification of `finished` reaches the client. -/
def Client.notify {τ : Type*} : Client τ → Client τ
  | .blocked timed _ => .blocked timed true
  | c => c

/-- The client is between two calls. -/
def Client.free {τ : Type*} : Client τ → Bool
  | .idle | .threw | .waited _ => true
  | _ => false

/-- The client begins a call. -/
def Op.enter {τ : Type*} : Op τ → Client τ
  | .enqueue task => .enqueue task
  | .shutdown now => .shutdown now
  | .wait timed => .wait timed

section Steps

variable {n : ℕ} {ι τ : Type*} [DecidableEq ι]

def State.setClient (s : State n ι τ) (c : ι) (p : Client τ) : State n ι τ :=
  { s with clients := Function.update s.clients c p }

def State.setWorker (s : State n ι τ) (i : Fin n) (w : Worker τ) : State n ι τ :=
  { s with workers := Function.update s.workers i w }

/-- The critical section of `enqueue`; without it the call throws. -/
def enqueueSection (s : State n ι τ) (task : τ) : Option (State n ι τ) :=
  if s.pool.stop then none
  else
    some { s with
      pool := { s.pool with tasks := s.pool.tasks ++ [task] }
      accepted := s.accepted ++ [task] }

/-- The critical section of `shutdown` and `shutdown_now`; the call returns at
once when `stop` is already set. -/
def shutdownSection (s : State n ι τ) (now : Bool) : Option (State n ι τ) :=
  if s.pool.stop then none
  else if now then
    some { s with
      pool := { s.pool with stop := true, tasks := [] }
      discarded := s.discarded ++ s.pool.tasks }
  else some { s with pool := { s.pool with stop := true } }

/-- `condition.notify_one()`: `wake` is a sleeping worker, or there is none. -/
def notifyOne (s : State n ι τ) : Option (Fin n) → Option (State n ι τ)
  | some i =>
      if (s.workers i).asleep then some (s.setWorker i (.waiting true)) else none
  | none => if ∀ i, (s.workers i).asleep = false then some s else none

/-- The loop test of `wait_for_completion`: return `true`, or block. -/
def waitTest (s : State n ι τ) (c : ι) (timed : Bool) : State n ι τ :=
  s.setClient c (if s.pool.done then .waited true else .blocked timed false)

/-- The next step of client `c`. A thread that `shutdown` joins has to have
exited; a client blocked on `finished` has to be notified. -/
def clientStep (s : State n ι τ) (c : ι) (wake : Option (Fin n)) :
    Option (State n ι τ) :=
  match s.clients c with
  | .idle | .threw | .waited _ => none
  | .enqueue task =>
      match enqueueSection s task with
      | none => some (s.setClient c .threw)
      | some t => some (t.setClient c .notifyOne)
  | .notifyOne => (notifyOne s wake).map fun t => t.setClient c .idle
  | .shutdown now =>
      match shutdownSection s now with
      | none => some (s.setClient c .idle)
      | some t => some (t.setClient c .notifyAll)
  | .notifyAll =>
      some (State.setClient { s with workers := fun i => (s.workers i).notify } c (.join 0))
  | .join i =>
      if h : i < n then
        if (s.workers ⟨i, h⟩).hasExited then some (s.setClient c (.join (i + 1))) else none
      else some (s.setClient c .idle)
  | .wait timed => some (waitTest s c timed)
  | .blocked timed notified => if notified then some (waitTest s c timed) else none

/-- The first critical section of `worker_thread`. -/
def workerSection (s : State n ι τ) (i : Fin n) : State n ι τ :=
  if (s.pool.stop || !s.pool.tasks.isEmpty) = false then s.setWorker i (.waiting false)
  else if s.pool.stop && s.pool.tasks.isEmpty then s.setWorker i .exited
  else
    match s.pool.tasks with
    | [] => s.setWorker i .top
    | task :: rest =>
        State.setWorker { s with
          pool := { s.pool with
            tasks := rest
            activeThreads := s.pool.activeThreads + 1 }
          taken := s.taken ++ [task] } i (.running task)

/-- The second critical section of `worker_thread`. -/
def finishSection (s : State n ι τ) (i : Fin n) (task : τ) : State n ι τ :=
  let p : Pool τ := { s.pool with
    activeThreads := s.pool.activeThreads - 1
    completedTasks := s.pool.completedTasks + 1 }
  State.setWorker { s with
    pool := p
    clients := if p.done then fun c => (s.clients c).notify else s.clients
    completed := s.completed ++ [task] } i .top

/-- The next step of worker `i`. An exception of the task is caught and only
printed. -/
def workerStep (s : State n ι τ) (i : Fin n) : Option (State n ι τ) :=
  match s.workers i with
  | .top | .waiting true => some (workerSection s i)
  | .waiting false => none
  | .running task =>
      some (State.setWorker { s with executed := s.executed ++ [task] } i (.finishing task))
  | .finishing task => some (finishSection s i task)
  | .exited => none

/-- One step. A timed wait that expires returns what the predicate says then. -/
def State.step (s : State n ι τ) : Action n ι τ → Option (State n ι τ)
  | .call c op => if (s.clients c).free then some (s.setClient c op.enter) else none
  | .client c wake => clientStep s c wake
  | .timeout c =>
      match s.clients c with
      | .blocked true _ => some (s.setClient c (.waited s.pool.done))
      | _ => none
  | .worker i _ => workerStep s i
  | .spuriousWorker i =>
      if (s.workers i).asleep then some (s.setWorker i (.waiting true)) else none
  | .spuriousClient c => some (s.setClient c (s.clients c).notify)

end Steps

/-- All interleavings on a pool of `n` workers. -/
def threadPool {ι τ : Type*} [DecidableEq ι] (n : ℕ) :
    Transition.System (State n ι τ) (Action n ι τ) :=
  Transition.System.ofFun (State.start n) State.step

/-- The task a worker has taken and not counted as completed. -/
def Worker.held {τ : Type*} : Worker τ → Multiset τ
  | .running task | .finishing task => {task}
  | _ => 0

/-- The task a worker has executed and not counted as completed. -/
def Worker.done {τ : Type*} : Worker τ → Multiset τ
  | .finishing task => {task}
  | _ => 0

end CppThreadPool

end ProcessThreadPool
