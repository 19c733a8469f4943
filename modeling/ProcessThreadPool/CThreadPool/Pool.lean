import ProcessThreadPool.Lib.RingWindow

/-!
# The C thread pool: the record and its critical sections

`threadpool_t` and what its functions do to it while they hold the lock. The
`int` fields are integers and `%` truncates as in C. A task is a function with
its argument, `τ`; an entry of `task_queue` that was never stored is `none`, and
so is a `NULL` function. Where the lock stands between these sections, and who
waits for it, is the subject of `Machine.lean`.
-/

namespace ProcessThreadPool

namespace CThreadPool

open RingWindow

/-- `threadpool_error_t`. -/
inductive Error where
  | success
  | invalid
  | lockFailure
  | queueFull
  | shutdown
  | threadFailure
  deriving DecidableEq, Repr

/-- `threadpool_t`, without its lock, its condition and its array of threads. -/
structure Pool (τ : Type*) where
  taskQueue : List (Option τ)
  threadCount : ℤ
  queueSize : ℤ
  queueFront : ℤ
  queueRear : ℤ
  queueCount : ℤ
  shutdown : Bool
  deriving DecidableEq, Repr

/-- The pool before its first thread is created. -/
def initPool {τ : Type*} (queueSize : ℤ) : Pool τ where
  taskQueue := List.replicate queueSize.toNat none
  threadCount := 0
  queueSize := queueSize
  queueFront := 0
  queueRear := 0
  queueCount := 0
  shutdown := false

/-- The loop of `threadpool_create` that starts `n` more threads. -/
def startThreads {τ : Type*} : ℕ → Pool τ → Pool τ
  | 0, p => p
  | n + 1, p => startThreads n { p with threadCount := p.threadCount + 1 }

/-- `threadpool_create`, when `pthread_create` succeeds. The flags are the
outcomes of the three allocations and of the initialisation of lock and
condition. -/
def threadpoolCreate {τ : Type*} (allocPool allocThreads allocQueue initLock : Bool)
    (threadCount queueSize : ℤ) : Option (Pool τ) :=
  if threadCount ≤ 0 ∨ threadCount > 1000 ∨ queueSize ≤ 0 ∨ queueSize > 65536 then none
  else if allocPool = false then none
  else if allocThreads = false then none
  else if allocQueue = false then none
  else if initLock = false then none
  else some (startThreads threadCount.toNat (initPool queueSize))

/-- Store a task at the rear of the ring. -/
def storeTask {τ : Type*} (p : Pool τ) (task : τ) : Pool τ :=
  { p with
    taskQueue := p.taskQueue.set p.queueRear.toNat (some task)
    queueRear := (p.queueRear + 1).tmod p.queueSize
    queueCount := p.queueCount + 1 }

/-- `threadpool_add`. A `NULL` function is refused before the lock is taken. -/
def threadpoolAdd {τ : Type*} (p : Pool τ) (task : Option τ)
    (lockOk signalOk unlockOk : Bool) : Error × Pool τ :=
  match task with
  | none => (.invalid, p)
  | some task =>
      if lockOk = false then (.lockFailure, p)
      else if p.shutdown then (if unlockOk then .shutdown else .lockFailure, p)
      else if p.queueCount = p.queueSize then
        (if unlockOk then .queueFull else .lockFailure, p)
      else (if signalOk && unlockOk then .success else .lockFailure, storeTask p task)

/-- The condition under which a worker stays in `pthread_cond_wait`. -/
def Pool.mustWait {τ : Type*} (p : Pool τ) : Bool :=
  decide (p.queueCount = 0) && !p.shutdown

/-- What a worker takes from the front of the ring. -/
def takeTask {τ : Type*} (p : Pool τ) : Option τ × Pool τ :=
  (slotAt p.taskQueue p.queueFront.toNat,
    { p with
      queueFront := (p.queueFront + 1).tmod p.queueSize
      queueCount := p.queueCount - 1 })

/-- The tasks of the ring, from the front on. -/
def Pool.contents {τ : Type*} (p : Pool τ) : List (Option τ) :=
  (List.range p.queueCount.toNat).map fun i : ℕ =>
    slotAt p.taskQueue ((p.queueFront + i) % p.queueSize).toNat

theorem startThreads_eq {τ : Type*} (n : ℕ) (p : Pool τ) :
    startThreads n p = { p with threadCount := p.threadCount + n } := by
  induction n generalizing p with
  | zero => simp [startThreads]
  | succ n ih =>
      rw [startThreads, ih]
      simp only [Nat.cast_succ, Pool.mk.injEq, true_and, and_true]
      omega

end CThreadPool

end ProcessThreadPool
