import ProcessThreadPool.Lib.Simulation

/-!
# The lock-free ring queue

`lockfree_queue_t` and its operations. Head and tail are free-running 32-bit
counters, so `+` and `-` wrap modulo `2 ^ 32` as `uint32_t` does, and an array
index is a counter masked with `capacity - 1`. A task pointer is `Option τ`
with `none` for `NULL`. An access past the end of an array makes the function
return `none`, so a proof that a call returns is a proof that its indices are
in bounds. The queue pointer itself is taken to be valid.
-/

namespace ProcessThreadPool

namespace LockfreeQueue

/-- `lockfree_queue_t`. -/
structure Queue (τ : Type*) where
  head : UInt32
  tail : UInt32
  capacity : UInt32
  mask : UInt32
  tasks : List (Option τ)
  deriving DecidableEq, Repr

/-- `queue_create`. `is_power_of_2` and `next_power_of_2` are declared and never
defined by the repository; the two flags are the outcomes of `aligned_alloc`. -/
def queueCreate {τ : Type*} (isPowerOf2 : UInt32 → Bool)
    (nextPowerOf2 : UInt32 → UInt32) (allocQueue allocTasks : Bool)
    (capacity : UInt32) : Option (Queue τ) :=
  let capacity :=
    if capacity = 0 ∨ isPowerOf2 capacity = false then nextPowerOf2 capacity
    else capacity
  if capacity > (1 : UInt32) <<< 20 then none
  else if allocQueue = false then none
  else if allocTasks = false then none
  else some
    { head := 0
      tail := 0
      capacity := capacity
      mask := capacity - 1
      tasks := List.replicate capacity.toNat none }

/-- Load `queue->tasks[i]`. -/
def Queue.readSlot {τ : Type*} (q : Queue τ) (i : UInt32) : Option (Option τ) :=
  q.tasks[i.toNat]?

/-- Store to `queue->tasks[i]`. -/
def Queue.writeSlot {τ : Type*} (q : Queue τ) (i : UInt32) (task : Option τ) :
    Option (Queue τ) :=
  if i.toNat < q.tasks.length then
    some { q with tasks := q.tasks.set i.toNat task }
  else none

/-- `queue_enqueue`. -/
def queueEnqueue {τ : Type*} (q : Queue τ) (task : Option τ) :
    Option (Bool × Queue τ) :=
  if task.isNone then some (false, q)
  else if (q.tail + 1) &&& q.mask = q.head &&& q.mask then some (false, q)
  else
    (q.writeSlot (q.tail &&& q.mask) task).map fun q' =>
      (true, { q' with tail := q.tail + 1 })

/-- `queue_dequeue`. -/
def queueDequeue {τ : Type*} (q : Queue τ) : Option (Option τ × Queue τ) :=
  if q.head &&& q.mask = q.tail &&& q.mask then some (none, q)
  else
    (q.readSlot (q.head &&& q.mask)).bind fun task =>
      (q.writeSlot (q.head &&& q.mask) none).map fun q' =>
        (task, { q' with head := q.head + 1 })

/-- `queue_is_empty`. -/
def queueIsEmpty {τ : Type*} (q : Queue τ) : Bool :=
  q.head &&& q.mask = q.tail &&& q.mask

/-- `queue_is_full`. -/
def queueIsFull {τ : Type*} (q : Queue τ) : Bool :=
  (q.tail + 1) &&& q.mask = q.head &&& q.mask

/-- `queue_size`. -/
def queueSize {τ : Type*} (q : Queue τ) : UInt32 := (q.tail - q.head) &&& q.mask

/-- The copying loop of `queue_enqueue_batch` from index `i`, with `n` rounds
left. -/
def enqueueLoop {τ : Type*} (tasks : List (Option τ)) :
    ℕ → UInt32 → Queue τ → Option (Queue τ)
  | 0, _, q => some q
  | n + 1, i, q =>
      (tasks[i.toNat]?).bind fun task =>
        (q.writeSlot ((q.tail + i) &&& q.mask) task).bind fun q' =>
          enqueueLoop tasks n (i + 1) q'

/-- `available` in `queue_enqueue_batch`. -/
def enqueueAvailable {τ : Type*} (q : Queue τ) : UInt32 :=
  q.capacity - ((q.tail - q.head) &&& q.mask) - 1

/-- `queue_enqueue_batch`: the return value and what is stored to `*enqueued`.
`tasks` is the caller's array, `none` for a `NULL` array pointer. -/
def queueEnqueueBatch {τ : Type*} (q : Queue τ) (tasks : Option (List (Option τ)))
    (count : UInt32) : Option ((Bool × UInt32) × Queue τ) :=
  match tasks with
  | none => some ((false, 0), q)
  | some tasks =>
      if count = 0 then some ((false, 0), q)
      else
        let available := enqueueAvailable q
        let toEnqueue := if count < available then count else available
        if toEnqueue = 0 then some ((false, 0), q)
        else
          (enqueueLoop tasks toEnqueue.toNat 0 q).map fun q' =>
            ((true, toEnqueue), { q' with tail := q.tail + toEnqueue })

/-- The copying loop of `queue_dequeue_batch` from index `i`, with `n` rounds
left; it returns what it stores to the caller's array. -/
def dequeueLoop {τ : Type*} :
    ℕ → UInt32 → Queue τ → Option (List (Option τ) × Queue τ)
  | 0, _, q => some ([], q)
  | n + 1, i, q =>
      (q.readSlot ((q.head + i) &&& q.mask)).bind fun task =>
        (q.writeSlot ((q.head + i) &&& q.mask) none).bind fun q' =>
          (dequeueLoop n (i + 1) q').map fun r => (task :: r.1, r.2)

/-- `queue_dequeue_batch`: the tasks stored to the caller's array, whose number
is the return value. `hasArray` says that the array pointer is not `NULL`. -/
def queueDequeueBatch {τ : Type*} (q : Queue τ) (hasArray : Bool)
    (maxCount : UInt32) : Option (List (Option τ) × Queue τ) :=
  if hasArray = false ∨ maxCount = 0 then some ([], q)
  else
    let available := (q.tail - q.head) &&& q.mask
    let toDequeue := if maxCount < available then maxCount else available
    if toDequeue = 0 then some ([], q)
    else
      (dequeueLoop toDequeue.toNat 0 q).map fun r =>
        (r.1, { r.2 with head := q.head + toDequeue })

/-- A call with non-`NULL` task pointers. The array handed to
`queue_enqueue_batch` holds at least `count` of them. -/
inductive Call (τ : Type*) where
  | enqueue (task : τ)
  | dequeue
  | enqueueBatch (tasks : List τ) (count : UInt32) (long : count.toNat ≤ tasks.length)
  | dequeueBatch (maxCount : UInt32)
  | isEmpty
  | isFull
  | size

/-- What a call returns. -/
inductive Answer (τ : Type*) where
  | flag (b : Bool)
  | task (t : Option τ)
  | moved (b : Bool) (n : ℕ)
  | tasks (ts : List (Option τ))
  | number (n : ℕ)
  deriving DecidableEq, Repr

/-- One call on the queue. -/
def call {τ : Type*} (q : Queue τ) : Call τ → Option (Answer τ × Queue τ)
  | .enqueue task => (queueEnqueue q (some task)).map fun r => (.flag r.1, r.2)
  | .dequeue => (queueDequeue q).map fun r => (.task r.1, r.2)
  | .enqueueBatch tasks count _ =>
      (queueEnqueueBatch q (some (tasks.map some)) count).map fun r =>
        (.moved r.1.1 r.1.2.toNat, r.2)
  | .dequeueBatch maxCount =>
      (queueDequeueBatch q true maxCount).map fun r => (.tasks r.1, r.2)
  | .isEmpty => some (.flag (queueIsEmpty q), q)
  | .isFull => some (.flag (queueIsFull q), q)
  | .size => some (.number (queueSize q).toNat, q)

end LockfreeQueue

end ProcessThreadPool
