import ProcessThreadPool.Lib.RingWindow
import ProcessThreadPool.Lib.Transition
import ProcessThreadPool.LockfreeQueue.Queue

/-!
# One producer and one consumer on the ring queue

The calls of `Queue.lean` taken apart into their atomic, sequentially
consistent accesses: head load, tail load, slot read, slot write, slot clear and
head or tail store. The producer thread runs `queue_enqueue` and
`queue_enqueue_batch`, the consumer thread `queue_dequeue` and
`queue_dequeue_batch`, and the two interleave at every access. Each side keeps
the counters it loaded in its own local state, so its copy of the other side's
counter may be stale. `accepted` and `returned` record what the producer
published and what the consumer's calls returned, in order.
-/

namespace ProcessThreadPool

namespace LockfreeQueue

open RingWindow

/-- Where the producer stands. A single enqueue that found room goes on as a
batch of one task. -/
inductive Producer (τ : Type*) where
  | idle
  | enqueueHead (task : τ)
  | enqueueTail (task : τ) (head : UInt32)
  | batchHead (tasks : List τ) (count : UInt32)
  | batchTail (tasks : List τ) (count head : UInt32)
  | write (tasks : List τ) (tail toEnqueue i : UInt32)
  deriving DecidableEq, Repr

/-- Where the consumer stands. `held` is what the call in progress has read and
cleared so far; `clear` has read one more pointer and not cleared its slot yet. -/
inductive Consumer (τ : Type*) where
  | idle
  | dequeueHead
  | dequeueTail (head : UInt32)
  | batchHead (maxCount : UInt32)
  | batchTail (maxCount head : UInt32)
  | read (head toDequeue i : UInt32) (held : List (Option τ))
  | clear (head toDequeue i : UInt32) (held : List (Option τ)) (task : Option τ)
  deriving DecidableEq, Repr

/-- The shared queue, the two threads, and the two histories. -/
structure Spsc (τ : Type*) where
  queue : Queue τ
  producer : Producer τ
  consumer : Consumer τ
  accepted : List τ
  returned : List (Option τ)
  deriving DecidableEq, Repr

/-- Both threads idle on a queue nothing has passed through. -/
def Spsc.start {τ : Type*} (q : Queue τ) : Spsc τ where
  queue := q
  producer := .idle
  consumer := .idle
  accepted := []
  returned := []

/-- The next atomic access of the producer's call. -/
def producerStep {τ : Type*} (s : Spsc τ) : Option (Spsc τ) :=
  match s.producer with
  | .idle => none
  | .enqueueHead task =>
      some { s with producer := .enqueueTail task s.queue.head }
  | .enqueueTail task head =>
      let tail := s.queue.tail
      if (tail + 1) &&& s.queue.mask = head &&& s.queue.mask then
        some { s with producer := .idle }
      else some { s with producer := .write [task] tail 1 0 }
  | .batchHead tasks count =>
      some { s with producer := .batchTail tasks count s.queue.head }
  | .batchTail tasks count head =>
      let tail := s.queue.tail
      let available := s.queue.capacity - ((tail - head) &&& s.queue.mask) - 1
      let toEnqueue := if count < available then count else available
      if toEnqueue = 0 then some { s with producer := .idle }
      else some { s with producer := .write tasks tail toEnqueue 0 }
  | .write tasks tail toEnqueue i =>
      if i < toEnqueue then
        some { s with
          queue := { s.queue with
            tasks := s.queue.tasks.set ((tail + i) &&& s.queue.mask).toNat
              tasks[i.toNat]? }
          producer := .write tasks tail toEnqueue (i + 1) }
      else
        some { s with
          queue := { s.queue with tail := tail + toEnqueue }
          producer := .idle
          accepted := s.accepted ++ tasks.take toEnqueue.toNat }

/-- The next atomic access of the consumer's call. -/
def consumerStep {τ : Type*} (s : Spsc τ) : Option (Spsc τ) :=
  match s.consumer with
  | .idle => none
  | .dequeueHead =>
      some { s with consumer := .dequeueTail s.queue.head }
  | .dequeueTail head =>
      if head &&& s.queue.mask = s.queue.tail &&& s.queue.mask then
        some { s with consumer := .idle }
      else some { s with consumer := .read head 1 0 [] }
  | .batchHead maxCount =>
      some { s with consumer := .batchTail maxCount s.queue.head }
  | .batchTail maxCount head =>
      let available := (s.queue.tail - head) &&& s.queue.mask
      let toDequeue := if maxCount < available then maxCount else available
      if toDequeue = 0 then some { s with consumer := .idle }
      else some { s with consumer := .read head toDequeue 0 [] }
  | .read head toDequeue i held =>
      if i < toDequeue then
        some { s with
          consumer := .clear head toDequeue i held
            (slotAt s.queue.tasks ((head + i) &&& s.queue.mask).toNat) }
      else
        some { s with
          queue := { s.queue with head := head + toDequeue }
          consumer := .idle
          returned := s.returned ++ held }
  | .clear head toDequeue i held task =>
      some { s with
        queue := { s.queue with
          tasks := s.queue.tasks.set ((head + i) &&& s.queue.mask).toNat none }
        consumer := .read head toDequeue (i + 1) (held ++ [task]) }

/-- What happens next: a thread enters a call, or makes its next access. -/
inductive Access (τ : Type*) where
  | enqueue (task : τ)
  | enqueueBatch (tasks : List τ) (count : UInt32)
  | producer
  | dequeue
  | dequeueBatch (maxCount : UInt32)
  | consumer
  deriving DecidableEq, Repr

/-- One step of the two threads. A batch call with a count of zero returns at
once; the caller's array holds at least `count` tasks. -/
def Spsc.step {τ : Type*} (s : Spsc τ) : Access τ → Option (Spsc τ)
  | .enqueue task =>
      match s.producer with
      | .idle => some { s with producer := .enqueueHead task }
      | _ => none
  | .enqueueBatch tasks count =>
      match s.producer with
      | .idle =>
          if tasks.length < count.toNat then none
          else if count = 0 then some s
          else some { s with producer := .batchHead tasks count }
      | _ => none
  | .producer => producerStep s
  | .dequeue =>
      match s.consumer with
      | .idle => some { s with consumer := .dequeueHead }
      | _ => none
  | .dequeueBatch maxCount =>
      match s.consumer with
      | .idle =>
          if maxCount = 0 then some s
          else some { s with consumer := .batchHead maxCount }
      | _ => none
  | .consumer => consumerStep s

/-- The interleavings of the two threads on the queue `q`. -/
def spsc {τ : Type*} (q : Queue τ) : Transition.System (Spsc τ) (Access τ) :=
  Transition.System.ofFun (Spsc.start q) Spsc.step

/-- The slot that the producer's next access stores to. -/
def writesSlot {τ : Type*} (s : Spsc τ) : Option ℕ :=
  match s.producer with
  | .write _ tail toEnqueue i =>
      if i < toEnqueue then some ((tail + i) &&& s.queue.mask).toNat else none
  | _ => none

/-- The slot that the consumer's next access reads. -/
def readsSlot {τ : Type*} (s : Spsc τ) : Option ℕ :=
  match s.consumer with
  | .read head toDequeue i _ =>
      if i < toDequeue then some ((head + i) &&& s.queue.mask).toNat else none
  | _ => none

/-- The pointers that the consumer's call in progress has read. -/
def Consumer.holding {τ : Type*} : Consumer τ → List (Option τ)
  | .read _ _ _ held => held
  | .clear _ _ _ held task => held ++ [task]
  | _ => []

/-- The number of slots that the consumer's call in progress has cleared. -/
def Consumer.cleared {τ : Type*} : Consumer τ → ℕ
  | .read _ _ _ held => held.length
  | .clear _ _ _ held _ => held.length
  | _ => 0

/-- The tasks that the producer's call in progress has written and not
published. -/
def Producer.written {τ : Type*} : Producer τ → List τ
  | .write tasks _ _ i => tasks.take i.toNat
  | _ => []

end LockfreeQueue

end ProcessThreadPool
