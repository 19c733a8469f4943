import ProcessThreadPool.Lib.Transition
import ProcessThreadPool.Lib.WaitSet

/-!
# The bounded task queue

`TaskQueue` with its producers in `push`, its consumers in `pop` and one caller of
`wakeup`. A thread holds `m_mtx` from the moment it has acquired it to the moment it
returns or blocks. `m_flag` is stored without the mutex, so the test of `pop`, the moment
it blocks and the second look at the flag are steps of their own.
-/

namespace ProcessThreadPool

namespace TaskQueuePool

/-- `TaskQueue` without its mutex and condition variables. -/
structure TaskQueue (τ : Type*) where
  capacity : ℕ
  que : List τ
  flag : Bool
  deriving DecidableEq, Repr

/-- `TaskQueue::empty`. -/
def TaskQueue.empty {τ : Type*} (q : TaskQueue τ) : Bool := decide (q.que.length = 0)

/-- `TaskQueue::full`. -/
def TaskQueue.full {τ : Type*} (q : TaskQueue τ) : Bool := decide (q.que.length = q.capacity)

/-- Where a producer stands. In `testing` it holds the mutex and is about to test
`full`. -/
inductive Producer (τ : Type*) where
  | outside
  | entering (task : τ)
  | testing (task : τ)
  | asleep (task : τ)
  | woken (task : τ)
  deriving DecidableEq, Repr

/-- Where a consumer stands. It holds the mutex in `testing`, in `blocking`, where it has
seen an empty queue and the flag set, and in `deciding`, where it has left the loop. -/
inductive Consumer (τ : Type*) where
  | outside
  | entering
  | testing
  | blocking
  | asleep
  | woken
  | deciding
  | returned (task : Option τ)
  deriving DecidableEq, Repr

/-- Where the call of `wakeup` stands. -/
inductive Waker where
  | idle
  | stored
  | done
  deriving DecidableEq, Repr

/-- Producers wait on `m_notFull`. -/
def producerWaiter (τ : Type*) : Waiter (Producer τ) where
  asleep
    | .asleep _ => true
    | _ => false
  awake
    | .entering _ | .testing _ | .woken _ => true
    | _ => false
  notify
    | .asleep task => .woken task
    | p => p
  awake_of_notify := by rintro (_ | _ | _ | _ | _) h <;> first | rfl | cases h
  not_asleep_notify := by rintro (_ | _ | _ | _ | _) <;> rfl
  not_awake_of_asleep := by rintro (_ | _ | _ | _ | _) h <;> first | rfl | cases h
  notify_of_awake := by rintro (_ | _ | _ | _ | _) h <;> first | rfl | cases h

/-- Consumers wait on `m_notEmpty`. -/
def consumerWaiter (τ : Type*) : Waiter (Consumer τ) where
  asleep
    | .asleep => true
    | _ => false
  awake
    | .entering | .testing | .blocking | .woken | .deciding => true
    | _ => false
  notify
    | .asleep => .woken
    | c => c
  awake_of_notify := by rintro (_ | _ | _ | _ | _ | _ | _ | _) h <;> first | rfl | cases h
  not_asleep_notify := by rintro (_ | _ | _ | _ | _ | _ | _ | _) <;> rfl
  not_awake_of_asleep := by rintro (_ | _ | _ | _ | _ | _ | _ | _) h <;> first | rfl | cases h
  notify_of_awake := by rintro (_ | _ | _ | _ | _ | _ | _ | _) h <;> first | rfl | cases h

/-- The queue with `m` producers, `n` consumers and the caller of `wakeup`; `mutex` is the
holder of `m_mtx`. `pushed` and `popped` are the tasks that have gone in and out. -/
structure State (m n : ℕ) (τ : Type*) where
  queue : TaskQueue τ
  mutex : Option (Fin m ⊕ Fin n)
  producers : Fin m → Producer τ
  consumers : Fin n → Consumer τ
  waker : Waker
  pushed : List τ
  popped : List τ

/-- The queue has been constructed. -/
def State.start {m n : ℕ} {τ : Type*} (capacity : ℕ) : State m n τ where
  queue := ⟨capacity, [], true⟩
  mutex := none
  producers := fun _ => .outside
  consumers := fun _ => .outside
  waker := .idle
  pushed := []
  popped := []

/-- What happens next: a call of `push` or `pop`, the next step of one, a spurious
wakeup, or the next step of `wakeup`. `wake` is the thread that `notify_one` picks. -/
inductive Action (m n : ℕ) (τ : Type*) where
  | push (p : Fin m) (task : τ)
  | producer (p : Fin m) (wake : Option (Fin n))
  | pop (c : Fin n)
  | consumer (c : Fin n) (wake : Option (Fin m))
  | spuriousProducer (p : Fin m)
  | spuriousConsumer (c : Fin n)
  | wakeup
  deriving DecidableEq, Repr

section Steps

variable {m n : ℕ} {τ : Type*}

def State.setProducer (s : State m n τ) (p : Fin m) (a : Producer τ) : State m n τ :=
  { s with producers := Function.update s.producers p a }

def State.setConsumer (s : State m n τ) (c : Fin n) (a : Consumer τ) : State m n τ :=
  { s with consumers := Function.update s.consumers c a }

/-- The next step of `push`: acquire the mutex, then wait on `m_notFull` or store the
task and notify one consumer. -/
def producerStep (s : State m n τ) (p : Fin m) (wake : Option (Fin n)) :
    Option (State m n τ) :=
  match s.producers p with
  | .outside | .asleep _ => none
  | .entering task | .woken task =>
      if s.mutex.isSome then none
      else some (State.setProducer { s with mutex := some (.inl p) } p (.testing task))
  | .testing task =>
      if s.queue.full then some (State.setProducer { s with mutex := none } p (.asleep task))
      else
        ((consumerWaiter τ).notifyOne s.consumers wake).map fun consumers =>
          State.setProducer { s with
            queue := { s.queue with que := s.queue.que ++ [task] }
            mutex := none
            consumers := consumers
            pushed := s.pushed ++ [task] } p .outside

/-- The next step of `pop`: acquire the mutex, test the loop condition, wait on
`m_notEmpty`, or take the front task and notify one producer. Taking from an empty queue
is undefined. -/
def consumerStep (s : State m n τ) (c : Fin n) (wake : Option (Fin m)) :
    Option (State m n τ) :=
  match s.consumers c with
  | .outside | .asleep | .returned _ => none
  | .entering | .woken =>
      if s.mutex.isSome then none
      else some (State.setConsumer { s with mutex := some (.inr c) } c .testing)
  | .testing =>
      if s.queue.empty && s.queue.flag then some (s.setConsumer c .blocking)
      else some (s.setConsumer c .deciding)
  | .blocking => some (State.setConsumer { s with mutex := none } c .asleep)
  | .deciding =>
      if s.queue.flag then
        match s.queue.que with
        | [] => none
        | task :: rest =>
            ((producerWaiter τ).notifyOne s.producers wake).map fun producers =>
              State.setConsumer { s with
                queue := { s.queue with que := rest }
                mutex := none
                producers := producers
                popped := s.popped ++ [task] } c (.returned (some task))
      else some (State.setConsumer { s with mutex := none } c (.returned none))

/-- The next step of `wakeup`: store the flag, notify all consumers. -/
def wakeupStep (s : State m n τ) : Option (State m n τ) :=
  match s.waker with
  | .idle => some { s with queue := { s.queue with flag := false }, waker := .stored }
  | .stored =>
      some { s with consumers := (consumerWaiter τ).notifyAll s.consumers, waker := .done }
  | .done => none

/-- One step. -/
def State.step (s : State m n τ) : Action m n τ → Option (State m n τ)
  | .push p task =>
      match s.producers p with
      | .outside => some (s.setProducer p (.entering task))
      | _ => none
  | .producer p wake => producerStep s p wake
  | .pop c =>
      match s.consumers c with
      | .outside | .returned _ => some (s.setConsumer c .entering)
      | _ => none
  | .consumer c wake => consumerStep s c wake
  | .spuriousProducer p =>
      some (s.setProducer p ((producerWaiter τ).notify (s.producers p)))
  | .spuriousConsumer c =>
      some (s.setConsumer c ((consumerWaiter τ).notify (s.consumers c)))
  | .wakeup => wakeupStep s

end Steps

/-- All interleavings on a queue of the given capacity. -/
def taskQueue {τ : Type*} (m n capacity : ℕ) : Transition.System (State m n τ) (Action m n τ) :=
  Transition.System.ofFun (State.start capacity) State.step

/-- The producer holds the mutex. -/
def Producer.holds {τ : Type*} : Producer τ → Bool
  | .testing _ => true
  | _ => false

/-- The consumer holds the mutex. -/
def Consumer.holds {τ : Type*} : Consumer τ → Bool
  | .testing | .blocking | .deciding => true
  | _ => false

end TaskQueuePool

end ProcessThreadPool
