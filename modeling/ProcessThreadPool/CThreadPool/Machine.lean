import ProcessThreadPool.CThreadPool.Pool
import ProcessThreadPool.Lib.Transition
import Mathlib.Data.Fintype.Pi

/-!
# The C thread pool: workers, clients and the destroying thread

Any number of client threads call `threadpool_add`, `threadpool_queue_count` and
`threadpool_destroy` while `n` workers run `threadpool_thread`. A critical
section is one step, enabled while the lock is free, unless another thread can
see into it: the join loop of `threadpool_destroy` and `threadpool_free` read
`thread_count` without the lock, so a leaving worker holds the lock over the
steps of its decrement and its unlock. A worker in `pthread_cond_wait` may wake
at any time, which covers every signal, broadcast and spurious wakeup.

`accepted` records the tasks that `threadpool_add` stored, `taken` those the
workers took and `ran` those they finished running, each in order.
-/

namespace ProcessThreadPool

namespace CThreadPool

/-- The thread that holds the lock between two steps. -/
inductive Holder (n : ℕ) (ι : Type*) where
  | worker (i : Fin n)
  | client (c : ι)
  deriving DecidableEq, Repr

/-- Where a worker stands in `threadpool_thread`. -/
inductive Worker (τ : Type*) where
  | top
  | waiting
  | running (task : Option τ)
  | leaving
  | unlocking
  | exited
  deriving DecidableEq, Repr

/-- The worker's thread has ended. -/
def Worker.hasExited {τ : Type*} : Worker τ → Bool
  | .exited => true
  | _ => false

/-- Where the thread that set `shutdown` stands in `threadpool_destroy`: before
the loop test for index `i`, joining `threads[i]`, or in `threadpool_free` before
its test or before it takes the lock. -/
inductive Destroyer where
  | idle
  | test (i : ℕ) (err : Error)
  | join (i : ℕ) (err : Error)
  | freeTest
  | freePool
  | returned (err : Error)
  deriving DecidableEq, Repr

/-- How much of the pool `threadpool_free` has given back. -/
inductive Storage where
  | live
  | arraysFreed
  | freed
  deriving DecidableEq, Repr

/-- The whole program: the pool and its threads. `stale` is set when a worker
uses storage that has been given back. -/
structure State (n : ℕ) (ι τ : Type*) where
  pool : Pool τ
  lock : Option (Holder n ι)
  workers : Fin n → Worker τ
  destroyer : Destroyer
  joined : Fin n → Bool
  storage : Storage
  stale : Bool
  accepted : List τ
  taken : List (Option τ)
  ran : List (Option τ)

/-- `threadpool_create` has just returned a pool with `n` threads. -/
def State.start {ι τ : Type*} (n : ℕ) (queueSize : ℤ) : State n ι τ where
  pool := startThreads n (initPool queueSize)
  lock := none
  workers := fun _ => .top
  destroyer := .idle
  joined := fun _ => false
  storage := .live
  stale := false
  accepted := []
  taken := []
  ran := []

/-- What happens next. The flags are the outcomes of the `pthread` calls that
the program checks. -/
inductive Action (n : ℕ) (ι τ : Type*) where
  | add (client : ι) (task : Option τ) (lockOk signalOk unlockOk : Bool)
  | queueCount (client : ι)
  | destroy (client : ι) (lockOk broadcastOk unlockOk : Bool)
  | destroyer (joinOk : Bool)
  | worker (i : Fin n)
  deriving DecidableEq, Repr

/-- The lock after a client's `pthread_mutex_unlock`. -/
def lockAfter {n : ℕ} {ι : Type*} (client : ι) (unlockOk : Bool) : Option (Holder n ι) :=
  if unlockOk then none else some (.client client)

/-- The new part of `accepted` after a call of `threadpool_add`. -/
def stored {τ : Type*} (p : Pool τ) (task : Option τ) (lockOk : Bool) : List τ :=
  if lockOk = false ∨ p.shutdown = true ∨ p.queueCount = p.queueSize then [] else task.toList

/-- A client's call of `threadpool_add`. -/
def addStep {n : ℕ} {ι τ : Type*} (s : State n ι τ) (client : ι) (task : Option τ)
    (lockOk signalOk unlockOk : Bool) : State n ι τ :=
  { s with
    pool := (threadpoolAdd s.pool task lockOk signalOk unlockOk).2
    lock := if task.isNone || !lockOk then s.lock else lockAfter client unlockOk
    accepted := s.accepted ++ stored s.pool task lockOk }

/-- The critical section of `threadpool_destroy`. A second call, or one whose
broadcast or unlock fails, returns without giving up the lock. -/
def destroyStep {n : ℕ} {ι τ : Type*} (s : State n ι τ) (client : ι)
    (lockOk broadcastOk unlockOk : Bool) : State n ι τ :=
  if lockOk = false then s
  else if s.pool.shutdown then { s with lock := some (.client client) }
  else if broadcastOk = false ∨ unlockOk = false then
    { s with
      pool := { s.pool with shutdown := true }
      lock := some (.client client)
      destroyer := .returned .lockFailure }
  else
    { s with
      pool := { s.pool with shutdown := true }
      destroyer := .test 0 .success }

/-- The next step of the thread that set `shutdown`. The result of
`threadpool_free` is ignored. -/
def destroyerStep {n : ℕ} {ι τ : Type*} (s : State n ι τ) (joinOk : Bool) :
    Option (State n ι τ) :=
  match s.destroyer with
  | .idle => none
  | .test i err =>
      if (i : ℤ) < s.pool.threadCount then some { s with destroyer := .join i err }
      else if err = .success then some { s with destroyer := .freeTest }
      else some { s with destroyer := .returned err }
  | .join i err =>
      if h : i < n then
        if joinOk = false then some { s with destroyer := .test (i + 1) .threadFailure }
        else if (s.workers ⟨i, h⟩).hasExited then
          some { s with
            joined := Function.update s.joined ⟨i, h⟩ true
            destroyer := .test (i + 1) err }
        else none
      else none
  | .freeTest =>
      if s.pool.threadCount > 0 then some { s with destroyer := .returned .success }
      else some { s with storage := .arraysFreed, destroyer := .freePool }
  | .freePool =>
      if s.lock.isSome then none
      else some { s with storage := .freed, destroyer := .returned .success }
  | .returned _ => none

/-- A worker uses the pool record, or also its arrays. -/
def State.use {n : ℕ} {ι τ : Type*} (s : State n ι τ) (arrays : Bool) : Bool :=
  s.stale || decide (s.storage = .freed) || (arrays && decide (s.storage ≠ .live))

/-- The next step of worker `i`. -/
def workerStep {n : ℕ} {ι τ : Type*} (s : State n ι τ) (i : Fin n) :
    Option (State n ι τ) :=
  match s.workers i with
  | .top | .waiting =>
      if s.lock.isSome then none
      else if s.pool.mustWait then
        some { s with
          workers := Function.update s.workers i .waiting
          stale := s.use false }
      else if s.pool.shutdown then
        some { s with
          lock := some (.worker i)
          workers := Function.update s.workers i .leaving
          stale := s.use false }
      else
        some { s with
          pool := (takeTask s.pool).2
          workers := Function.update s.workers i (.running (takeTask s.pool).1)
          stale := s.use true
          taken := s.taken ++ [(takeTask s.pool).1] }
  | .running task =>
      some { s with
        workers := Function.update s.workers i .top
        ran := s.ran ++ [task] }
  | .leaving =>
      some { s with
        pool := { s.pool with threadCount := s.pool.threadCount - 1 }
        workers := Function.update s.workers i .unlocking
        stale := s.use false }
  | .unlocking =>
      some { s with
        lock := none
        workers := Function.update s.workers i .exited
        stale := s.use false }
  | .exited => none

/-- One step. Clients do not call functions on a pool that has been freed. -/
def State.step {n : ℕ} {ι τ : Type*} (s : State n ι τ) :
    Action n ι τ → Option (State n ι τ)
  | .add client task lockOk signalOk unlockOk =>
      if s.lock.isSome ∨ s.storage = .freed then none
      else some (addStep s client task lockOk signalOk unlockOk)
  | .queueCount _ => if s.lock.isSome ∨ s.storage = .freed then none else some s
  | .destroy client lockOk broadcastOk unlockOk =>
      if s.lock.isSome ∨ s.storage = .freed then none
      else some (destroyStep s client lockOk broadcastOk unlockOk)
  | .destroyer joinOk => destroyerStep s joinOk
  | .worker i => workerStep s i

/-- All interleavings on a pool of `n` workers and `queueSize` slots. -/
def threadpool {ι τ : Type*} (n : ℕ) (queueSize : ℤ) :
    Transition.System (State n ι τ) (Action n ι τ) :=
  Transition.System.ofFun (State.start n queueSize) State.step

/-- Every pool that `threadpool_create` returns is the initial one of some system with
at least one worker and one slot. -/
theorem start_of_threadpoolCreate {ι τ : Type*}
    {allocPool allocThreads allocQueue initLock : Bool} {threadCount queueSize : ℤ}
    {p : Pool τ}
    (h : threadpoolCreate allocPool allocThreads allocQueue initLock threadCount queueSize =
      some p) :
    ∃ n size : ℕ, 1 ≤ n ∧ 1 ≤ size ∧ threadCount = n ∧ queueSize = size ∧
      p = (State.start (ι := ι) n queueSize).pool := by
  simp only [threadpoolCreate] at h
  split_ifs at h with hrange
  obtain rfl := Option.some.inj h
  refine ⟨threadCount.toNat, queueSize.toNat, ?_, ?_, ?_, ?_, rfl⟩
  all_goals omega

/-- The task a worker is running. -/
def Worker.held {τ : Type*} : Worker τ → Multiset (Option τ)
  | .running task => {task}
  | _ => 0

/-- A worker that has not decremented `thread_count` counts for one. -/
def Worker.counted {τ : Type*} : Worker τ → ℕ
  | .unlocking | .exited => 0
  | _ => 1

/-- A worker between its last lock and its last unlock. -/
def Worker.holdsLock {τ : Type*} : Worker τ → Bool
  | .leaving | .unlocking => true
  | _ => false

end CThreadPool

end ProcessThreadPool
