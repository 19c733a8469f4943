import ProcessThreadPool.Lib.ByteMemory
import ProcessThreadPool.Lib.Transition
import Mathlib.Data.Int.Notation

/-!
# The shared-memory message queue

`shared_memory_t` and its queue functions, byte by byte. The data area behind the
header is a byte memory addressed from its first byte; a slot starts at the
position times `MAX_TASK_DATA_SIZE`, computed in 32 bits, and holds the size of
the message in four bytes and then the message. Every function runs under the
queue mutex, so a call is one step; a call that waits on a condition variable is
not enabled until its wait is over. Pointers are taken to be valid.
-/

namespace ProcessThreadPool

namespace ModernPool

open ByteMemory

/-- `MAX_TASK_DATA_SIZE`. -/
def maxTaskDataSize : ℕ := 64 * 1024

/-- The part of `shared_memory_t` that the queue functions use, with the data area
behind it. -/
structure Shm where
  producerPos : UInt32
  consumerPos : UInt32
  queueSize : UInt32
  totalSubmitted : UInt64
  data : ℕ → UInt8

/-- The header that `shm_create` and `worker_create` initialise. -/
def Shm.start (queueSize : UInt32) (data : ℕ → UInt8) : Shm where
  producerPos := 0
  consumerPos := 0
  queueSize := queueSize
  totalSubmitted := 0
  data := data

/-- `shm_queue_next_pos`. -/
def shmQueueNextPos (pos size : UInt32) : UInt32 := (pos + 1) % size

/-- `shm_queue_is_full`. -/
def shmQueueIsFull (q : Shm) : Bool := shmQueueNextPos q.producerPos q.queueSize = q.consumerPos

/-- `shm_queue_is_empty`. -/
def shmQueueIsEmpty (q : Shm) : Bool := q.producerPos = q.consumerPos

/-- `producer_pos * MAX_TASK_DATA_SIZE`, a product of 32-bit numbers. -/
def slotOffset (pos : UInt32) : ℕ := (pos * UInt32.ofNat maxTaskDataSize).toNat

theorem slotOffset_eq {pos : UInt32} (h : pos.toNat < 2 ^ 16) :
    slotOffset pos = pos.toNat * maxTaskDataSize := by
  have hsize : (UInt32.ofNat maxTaskDataSize).toNat = maxTaskDataSize := rfl
  rw [slotOffset, UInt32.toNat_mul, hsize, Nat.mod_eq_of_lt]
  rw [maxTaskDataSize]
  omega

/-- Whether the size is one that the enqueue functions accept. -/
def validSize (data : List UInt8) : Bool :=
  data.length ≠ 0 && decide (data.length ≤ maxTaskDataSize)

/-- Write the size and the content of a message and move on. -/
def putMessage (q : Shm) (data : List UInt8) : Shm :=
  let slot := slotOffset q.producerPos
  let sized := writeBytes q.data slot (wordBytes (UInt32.ofNat data.length))
  { q with
    data := writeBytes sized (slot + 4) data
    producerPos := shmQueueNextPos q.producerPos q.queueSize
    totalSubmitted := q.totalSubmitted + 1 }

/-- `shm_queue_enqueue`; on a full queue the call waits. -/
def shmQueueEnqueue (q : Shm) (data : List UInt8) : Option (ℤ × Shm) :=
  if validSize data = false then some (-1, q)
  else if shmQueueIsFull q then none
  else some (0, putMessage q data)

/-- `shm_queue_try_enqueue`; `locked` is the outcome of `pthread_mutex_trylock`. -/
def shmQueueTryEnqueue (q : Shm) (data : List UInt8) (locked : Bool) : ℤ × Shm :=
  if validSize data = false then (-1, q)
  else if locked = false then (-1, q)
  else if shmQueueIsFull q then (-1, q)
  else (0, putMessage q data)

/-- What a dequeue returns: its result, what it copied to the caller's buffer, and
the value of `*data_size` afterwards. -/
structure Dequeued where
  result : ℤ
  data : Option (List UInt8)
  dataSize : ℕ
  deriving DecidableEq, Repr

/-- Read the message at the consumer's slot into a buffer of `bufSize` bytes. -/
def getMessage (q : Shm) (bufSize : ℕ) : Dequeued × Shm :=
  let slot := slotOffset q.consumerPos
  let storedSize := (readWord q.data slot).toNat
  if storedSize > bufSize then (⟨-1, none, storedSize⟩, q)
  else
    (⟨0, some (readBytes q.data (slot + 4) storedSize), storedSize⟩,
      { q with consumerPos := shmQueueNextPos q.consumerPos q.queueSize })

/-- `shm_queue_dequeue`; on an empty queue the call waits, or fails when its
timeout expires. -/
def shmQueueDequeue (q : Shm) (bufSize : ℕ) (timeoutMs : UInt32) : Option (Dequeued × Shm) :=
  if shmQueueIsEmpty q then
    if timeoutMs = 0 then none else some (⟨-1, none, bufSize⟩, q)
  else some (getMessage q bufSize)

/-- `shm_queue_try_dequeue`. -/
def shmQueueTryDequeue (q : Shm) (bufSize : ℕ) (locked : Bool) : Dequeued × Shm :=
  if locked = false then (⟨-1, none, bufSize⟩, q)
  else if shmQueueIsEmpty q then (⟨-1, none, bufSize⟩, q)
  else getMessage q bufSize

/-- The queue with the messages sent and received so far, in order. -/
structure Channel where
  shm : Shm
  sent : List (List UInt8)
  received : List (List UInt8)

/-- A call on the queue. -/
inductive ShmCall where
  | enqueue (data : List UInt8)
  | tryEnqueue (data : List UInt8) (locked : Bool)
  | dequeue (bufSize : ℕ) (timeoutMs : UInt32)
  | tryDequeue (bufSize : ℕ) (locked : Bool)
  deriving DecidableEq, Repr

/-- The channel after an enqueue that returned `r`. -/
def Channel.enqueued (s : Channel) (data : List UInt8) (r : ℤ × Shm) : Channel where
  shm := r.2
  sent := if r.1 = 0 then s.sent ++ [data] else s.sent
  received := s.received

/-- The channel after a dequeue that returned `r`. -/
def Channel.dequeued (s : Channel) (r : Dequeued × Shm) : Channel where
  shm := r.2
  sent := s.sent
  received := s.received ++ r.1.data.toList

/-- One call. -/
def Channel.step (s : Channel) : ShmCall → Option Channel
  | .enqueue data => (shmQueueEnqueue s.shm data).map (s.enqueued data)
  | .tryEnqueue data locked => some (s.enqueued data (shmQueueTryEnqueue s.shm data locked))
  | .dequeue bufSize timeoutMs => (shmQueueDequeue s.shm bufSize timeoutMs).map s.dequeued
  | .tryDequeue bufSize locked => some (s.dequeued (shmQueueTryDequeue s.shm bufSize locked))

/-- All sequences of calls on a fresh queue of `queueSize` slots over a data area
with any content. -/
def channel (queueSize : UInt32) (data : ℕ → UInt8) : Transition.System Channel ShmCall :=
  Transition.System.ofFun ⟨Shm.start queueSize data, [], []⟩ Channel.step

end ModernPool

end ProcessThreadPool
