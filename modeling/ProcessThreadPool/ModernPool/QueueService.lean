import ProcessThreadPool.Lib.Projection
import ProcessThreadPool.Lib.WaitSet
import ProcessThreadPool.ModernPool.Delivery

/-!
# The shared-memory queue in service

Producers and consumers that block on the queue: `shm_queue_enqueue` waits on `not_full`
and `shm_queue_dequeue` on `not_empty`, for ever or until a timeout. A section between two
waits runs under the mutex and is one step. A signal wakes one blocked thread, a thread may
also wake up without one, and a timed wait may end although a signal has just woken it.

A woken consumer that leaves without a message has used up the signal of that message.
-/

namespace ProcessThreadPool

namespace ModernPool

namespace QueueService

open RingWindow ThreadFamily

/-- A payload of a size that the enqueue functions accept. -/
def Payload : Type := {data : List UInt8 // validSize data = true}

/-- Where a thread stands in `shm_queue_enqueue`. -/
inductive Producer where
  | outside
  | blocked (payload : Payload)
  | woken (payload : Payload)

/-- Where a thread stands in `shm_queue_dequeue`. -/
inductive Consumer where
  | outside
  | blocked (bufSize : ℕ) (timeoutMs : UInt32)
  | woken (bufSize : ℕ) (timeoutMs : UInt32)
  deriving DecidableEq, Repr

/-- Whether the thread is in its wait on `not_full`. -/
def Producer.asleep : Producer → Bool
  | .blocked _ => true
  | _ => false

/-- Whether the thread has left its wait and not tested again. -/
def Producer.awake : Producer → Bool
  | .woken _ => true
  | _ => false

/-- The thread is woken up. -/
def Producer.notify : Producer → Producer
  | .blocked payload => .woken payload
  | p => p

/-- The payload that the thread is to store. -/
def Producer.payload : Producer → Option Payload
  | .outside => none
  | .blocked payload | .woken payload => some payload

/-- Whether the thread is in its wait on `not_empty`. -/
def Consumer.asleep : Consumer → Bool
  | .blocked _ _ => true
  | _ => false

/-- Whether the thread has left its wait and not tested again. -/
def Consumer.awake : Consumer → Bool
  | .woken _ _ => true
  | _ => false

/-- The thread is woken up. -/
def Consumer.notify : Consumer → Consumer
  | .blocked bufSize timeoutMs => .woken bufSize timeoutMs
  | c => c

/-- `not_full`. -/
def notFull : Waiter Producer where
  asleep := Producer.asleep
  awake := Producer.awake
  notify := Producer.notify
  awake_of_notify := by rintro (_ | _ | _) h <;> simp_all [Producer.asleep, Producer.notify,
    Producer.awake]
  not_asleep_notify := by rintro (_ | _ | _) <;> rfl
  not_awake_of_asleep := by rintro (_ | _ | _) h <;> simp_all [Producer.asleep, Producer.awake]
  notify_of_awake := by rintro (_ | _ | _) h <;> simp_all [Producer.awake, Producer.notify]

/-- `not_empty`. -/
def notEmpty : Waiter Consumer where
  asleep := Consumer.asleep
  awake := Consumer.awake
  notify := Consumer.notify
  awake_of_notify := by rintro (_ | _ | _) h <;> simp_all [Consumer.asleep, Consumer.notify,
    Consumer.awake]
  not_asleep_notify := by rintro (_ | _ | _) <;> rfl
  not_awake_of_asleep := by rintro (_ | _ | _) h <;> simp_all [Consumer.asleep, Consumer.awake]
  notify_of_awake := by rintro (_ | _ | _) h <;> simp_all [Consumer.awake, Consumer.notify]

/-- The queue with its messages, and the threads that call the blocking functions. -/
structure State (ι κ : Type*) where
  channel : Channel
  producers : ι → Producer
  consumers : κ → Consumer

/-- What happens next. `wake` is the thread that a signal wakes up, if one is given. The
functions that try may be called by anybody. -/
inductive Event (ι κ : Type*) where
  | enqueue (p : ι) (data : List UInt8) (wake : Option κ)
  | retryEnqueue (p : ι) (wake : Option κ)
  | tryEnqueue (data : List UInt8) (locked : Bool) (wake : Option κ)
  | dequeue (c : κ) (bufSize : ℕ) (timeoutMs : UInt32) (wake : Option ι)
  | retryDequeue (c : κ) (wake : Option ι)
  | tryDequeue (bufSize : ℕ) (locked : Bool) (wake : Option ι)
  | expire (c : κ)
  | spuriousProducer (p : ι)
  | spuriousConsumer (c : κ)

section

variable {ι κ : Type*} [DecidableEq ι] [DecidableEq κ] [Fintype ι] [Fintype κ]

/-- One producer moves. -/
def State.setProducer (s : State ι κ) (p : ι) (a : Producer) : State ι κ :=
  { s with producers := Function.update s.producers p a }

/-- One consumer moves. -/
def State.setConsumer (s : State ι κ) (c : κ) (a : Consumer) : State ι κ :=
  { s with consumers := Function.update s.consumers c a }

/-- A message is stored and `not_empty` is signalled. -/
def State.put (s : State ι κ) (payload : Payload) (wake : Option κ) : Option (State ι κ) :=
  (notEmpty.notifyOne s.consumers wake).map fun consumers =>
    { s with
      channel := s.channel.enqueued payload.val (0, putMessage s.channel.shm payload.val)
      consumers := consumers }

/-- A message is taken, if the buffer is large enough, and then `not_full` is signalled. -/
def State.take (s : State ι κ) (bufSize : ℕ) (wake : Option ι) : Option (State ι κ) :=
  let r := getMessage s.channel.shm bufSize
  if r.1.result = 0 then
    (notFull.notifyOne s.producers wake).map fun producers =>
      { s with
        channel := s.channel.dequeued r
        producers := producers }
  else some { s with channel := s.channel.dequeued r }

/-- `shm_queue_enqueue` from its test on. -/
def State.enqueueSection (s : State ι κ) (p : ι) (payload : Payload) (wake : Option κ) :
    Option (State ι κ) :=
  if shmQueueIsFull s.channel.shm then some (s.setProducer p (.blocked payload))
  else (s.setProducer p .outside).put payload wake

/-- `shm_queue_dequeue` from its test on. -/
def State.dequeueSection (s : State ι κ) (c : κ) (bufSize : ℕ) (timeoutMs : UInt32)
    (wake : Option ι) : Option (State ι κ) :=
  if shmQueueIsEmpty s.channel.shm then some (s.setConsumer c (.blocked bufSize timeoutMs))
  else (s.setConsumer c .outside).take bufSize wake

/-- One step. -/
def State.step (s : State ι κ) : Event ι κ → Option (State ι κ)
  | .enqueue p data wake =>
      match s.producers p with
      | .outside =>
          if hdata : validSize data = true then s.enqueueSection p ⟨data, hdata⟩ wake
          else some s
      | _ => none
  | .retryEnqueue p wake =>
      match s.producers p with
      | .woken payload => s.enqueueSection p payload wake
      | _ => none
  | .tryEnqueue data locked wake =>
      if hdata : validSize data = true then
        if locked && !shmQueueIsFull s.channel.shm then s.put ⟨data, hdata⟩ wake else some s
      else some s
  | .dequeue c bufSize timeoutMs wake =>
      match s.consumers c with
      | .outside => s.dequeueSection c bufSize timeoutMs wake
      | _ => none
  | .retryDequeue c wake =>
      match s.consumers c with
      | .woken bufSize timeoutMs => s.dequeueSection c bufSize timeoutMs wake
      | _ => none
  | .tryDequeue bufSize locked wake =>
      if locked && !shmQueueIsEmpty s.channel.shm then s.take bufSize wake else some s
  | .expire c =>
      match s.consumers c with
      | .blocked _ timeoutMs | .woken _ timeoutMs =>
          if timeoutMs ≠ 0 then some (s.setConsumer c .outside) else none
      | .outside => none
  | .spuriousProducer p => some (s.setProducer p (s.producers p).notify)
  | .spuriousConsumer c => some (s.setConsumer c (s.consumers c).notify)

end

/-- A fresh queue, with no thread inside. -/
def start (ι κ : Type*) (queueSize : UInt32) (data : ℕ → UInt8) : State ι κ where
  channel := ⟨Shm.start queueSize data, [], []⟩
  producers := fun _ => .outside
  consumers := fun _ => .outside

/-- All interleavings of the producers and consumers. -/
def service (ι κ : Type*) [DecidableEq ι] [DecidableEq κ] [Fintype ι] [Fintype κ]
    (queueSize : UInt32) (data : ℕ → UInt8) : Transition.System (State ι κ) (Event ι κ) :=
  Transition.System.ofFun (start ι κ queueSize data) State.step

/-- A consumer that has been woken up does not leave a message behind: its buffer is large
enough for it, and its wait has not ended by its timeout. -/
def Attentive {ι κ : Type*} (s : State ι κ) : Event ι κ → Prop
  | .retryDequeue c _ => ∀ bufSize timeoutMs, s.consumers c = .woken bufSize timeoutMs →
      shmQueueIsEmpty s.channel.shm = true ∨ (getMessage s.channel.shm bufSize).1.result = 0
  | .expire c => (s.consumers c).awake = true → shmQueueIsEmpty s.channel.shm = true
  | _ => True

/-- The payload of a call. -/
def Event.data {ι κ : Type*} : Event ι κ → Option (List UInt8)
  | .enqueue _ data _ | .tryEnqueue data _ _ => some data
  | _ => none

/-- A payload fits its slot together with the size field. -/
def Fits {ι κ : Type*} (_ : State ι κ) (l : Event ι κ) : Prop :=
  ∀ data, l.data = some data → data.length ≤ slotRoom

/-- The payload of a producer inside fits its slot. -/
def Producer.Fits (a : Producer) : Prop :=
  ∀ payload, a.payload = some payload → payload.val.length ≤ slotRoom

/-- The number of messages that are in the queue. -/
def pending (s : Channel) : ℕ := s.sent.length - s.received.length

/-- The number of messages that it still takes. -/
def room (s : Channel) : ℕ := s.shm.queueSize.toNat - 1 - pending s

section

variable {ι κ : Type*} [DecidableEq ι] [DecidableEq κ] [Fintype ι] [Fintype κ]
  {s t s' : State ι κ} {l : Event ι κ}

/-! ## What a step does -/

/-- The producer that called is outside, or it is none of the threads. -/
def State.ProducerOut (s s' : State ι κ) : Prop :=
  s' = s ∨ ∃ p, (s.producers p).asleep = false ∧ s' = s.setProducer p .outside

/-- The consumer that called is outside, or it is none of the threads. -/
def State.ConsumerOut (s s' : State ι κ) : Prop :=
  s' = s ∨ ∃ c, (s.consumers c).asleep = false ∧ s' = s.setConsumer c .outside

/-- The payload is that of the call, or that of a producer inside. -/
def State.Brings (s : State ι κ) (l : Event ι κ) (payload : Payload) : Prop :=
  l.data = some payload.val ∨ ∃ p, (s.producers p).payload = some payload

/-- What a step does to the queue and the threads. -/
inductive State.Moves (s : State ι κ) : Event ι κ → State ι κ → Prop
  | unchanged (l : Event ι κ) : s.Moves l s
  | blockProducer (l : Event ι κ) (p : ι) (payload : Payload)
      (hp : (s.producers p).asleep = false) (hbrings : s.Brings l payload)
      (hfull : shmQueueIsFull s.channel.shm = true) :
      s.Moves l (s.setProducer p (.blocked payload))
  | put (l : Event ι κ) (s' : State ι κ) (payload : Payload) (wake : Option κ)
      (consumers : κ → Consumer) (hs' : s.ProducerOut s') (hbrings : s.Brings l payload)
      (hfull : ¬ shmQueueIsFull s.channel.shm = true)
      (hwake : notEmpty.notifyOne s.consumers wake = some consumers) :
      s.Moves l ⟨s.channel.enqueued payload.val (0, putMessage s.channel.shm payload.val),
        s'.producers, consumers⟩
  | blockConsumer (l : Event ι κ) (c : κ) (bufSize : ℕ) (timeoutMs : UInt32)
      (hc : (s.consumers c).asleep = false) (hempty : shmQueueIsEmpty s.channel.shm = true) :
      s.Moves l (s.setConsumer c (.blocked bufSize timeoutMs))
  | take (l : Event ι κ) (s' : State ι κ) (bufSize : ℕ) (wake : Option ι)
      (producers : ι → Producer) (hs' : s.ConsumerOut s')
      (hempty : ¬ shmQueueIsEmpty s.channel.shm = true)
      (htaken : (getMessage s.channel.shm bufSize).1.result = 0)
      (hwake : notFull.notifyOne s.producers wake = some producers) :
      s.Moves l ⟨s.channel.dequeued (getMessage s.channel.shm bufSize), producers, s'.consumers⟩
  | leave (l : Event ι κ) (c : κ) (hl : (s.consumers c).awake = true →
        l = .expire c ∨ ∃ wake bufSize timeoutMs, l = .retryDequeue c wake ∧
          s.consumers c = .woken bufSize timeoutMs ∧ ¬ shmQueueIsEmpty s.channel.shm = true ∧
          (getMessage s.channel.shm bufSize).1.result ≠ 0) :
      s.Moves l (s.setConsumer c .outside)
  | wakeProducer (l : Event ι κ) (p : ι) : s.Moves l (s.setProducer p (s.producers p).notify)
  | wakeConsumer (l : Event ι κ) (c : κ) : s.Moves l (s.setConsumer c (s.consumers c).notify)

omit [DecidableEq ι] [DecidableEq κ] [Fintype ι] [Fintype κ] in
/-- A dequeue whose buffer is too small leaves the queue as it was. -/
theorem dequeued_refused {bufSize : ℕ}
    (h : (getMessage s.channel.shm bufSize).1.result ≠ 0) :
    s.channel.dequeued (getMessage s.channel.shm bufSize) = s.channel := by
  rw [getMessage] at h ⊢
  split_ifs at h ⊢ with hsmall
  · rw [Channel.dequeued, Option.toList_none, List.append_nil]
  · exact absurd rfl h

theorem enqueueSection_moves {p : ι} {payload : Payload} {wake : Option κ}
    (hp : (s.producers p).asleep = false) (hbrings : s.Brings l payload)
    (hstep : s.enqueueSection p payload wake = some t) : s.Moves l t := by
  rw [State.enqueueSection] at hstep
  split_ifs at hstep with hfull
  · obtain rfl := Option.some.inj hstep
    exact .blockProducer l p payload hp hbrings hfull
  · obtain ⟨consumers, hwake, rfl⟩ := Option.map_eq_some_iff.mp hstep
    exact .put l _ payload wake consumers (Or.inr ⟨p, hp, rfl⟩) hbrings hfull hwake

theorem dequeueSection_moves {c : κ} {bufSize : ℕ} {timeoutMs : UInt32} {wake : Option ι}
    (hc : (s.consumers c).asleep = false)
    (hl : (s.consumers c).awake = true → ∃ wake, l = .retryDequeue c wake ∧
      s.consumers c = .woken bufSize timeoutMs)
    (hstep : s.dequeueSection c bufSize timeoutMs wake = some t) : s.Moves l t := by
  rw [State.dequeueSection] at hstep
  split_ifs at hstep with hempty
  · obtain rfl := Option.some.inj hstep
    exact .blockConsumer l c bufSize timeoutMs hc hempty
  · simp only [State.take] at hstep
    split_ifs at hstep with htaken
    · obtain ⟨producers, hwake, rfl⟩ := Option.map_eq_some_iff.mp hstep
      exact .take l _ bufSize wake producers (Or.inr ⟨c, hc, rfl⟩) hempty htaken hwake
    · obtain rfl := Option.some.inj hstep
      have hkept : s.channel.dequeued (getMessage s.channel.shm bufSize) = s.channel :=
        dequeued_refused htaken
      have hleave : s.Moves l (s.setConsumer c .outside) := by
        refine .leave l c fun hawake => Or.inr ?_
        obtain ⟨wake, hlabel, hwoken⟩ := hl hawake
        exact ⟨wake, bufSize, timeoutMs, hlabel, hwoken, hempty, htaken⟩
      rw [State.setConsumer, hkept]
      exact hleave

/-- Every step is one of these moves. -/
theorem step_moves (hstep : s.step l = some t) : s.Moves l t := by
  cases l with
  | enqueue p data wake =>
      simp only [State.step] at hstep
      split at hstep
      · next hp =>
          split_ifs at hstep with hdata
          · exact enqueueSection_moves (by rw [hp]; rfl) (Or.inl rfl) hstep
          · obtain rfl := Option.some.inj hstep
            exact .unchanged _
      · cases hstep
  | retryEnqueue p wake =>
      simp only [State.step] at hstep
      split at hstep
      · next payload hp =>
          exact enqueueSection_moves (by rw [hp]; rfl) (Or.inr ⟨p, by rw [hp]; rfl⟩) hstep
      · cases hstep
  | tryEnqueue data locked wake =>
      simp only [State.step] at hstep
      split_ifs at hstep with hdata hfree
      · simp only [Bool.and_eq_true, Bool.not_eq_true'] at hfree
        obtain ⟨consumers, hwake, rfl⟩ := Option.map_eq_some_iff.mp hstep
        exact .put _ s ⟨data, hdata⟩ wake consumers (Or.inl rfl) (Or.inl rfl)
          (Bool.not_eq_true _ ▸ hfree.2) hwake
      · obtain rfl := Option.some.inj hstep
        exact .unchanged _
      · obtain rfl := Option.some.inj hstep
        exact .unchanged _
  | dequeue c bufSize timeoutMs wake =>
      simp only [State.step] at hstep
      split at hstep
      · next hc =>
          refine dequeueSection_moves (by rw [hc]; rfl) (fun hawake => ?_) hstep
          rw [hc] at hawake
          cases hawake
      · cases hstep
  | retryDequeue c wake =>
      simp only [State.step] at hstep
      split at hstep
      · next bufSize timeoutMs hc =>
          exact dequeueSection_moves (by rw [hc]; rfl) (fun _ => ⟨wake, rfl, hc⟩) hstep
      · cases hstep
  | tryDequeue bufSize locked wake =>
      simp only [State.step] at hstep
      split_ifs at hstep with hthere
      · simp only [Bool.and_eq_true, Bool.not_eq_true'] at hthere
        simp only [State.take] at hstep
        split_ifs at hstep with htaken
        · obtain ⟨producers, hwake, rfl⟩ := Option.map_eq_some_iff.mp hstep
          exact .take _ s bufSize wake producers (Or.inl rfl)
            (Bool.not_eq_true _ ▸ hthere.2) htaken hwake
        · obtain rfl := Option.some.inj hstep
          rw [dequeued_refused htaken]
          exact .unchanged _
      · obtain rfl := Option.some.inj hstep
        exact .unchanged _
  | expire c =>
      have hleave : s.Moves (.expire c) (s.setConsumer c .outside) :=
        .leave _ c fun _ => Or.inl rfl
      simp only [State.step] at hstep
      split at hstep
      · split_ifs at hstep
        obtain rfl := Option.some.inj hstep
        exact hleave
      · split_ifs at hstep
        obtain rfl := Option.some.inj hstep
        exact hleave
      · cases hstep
  | spuriousProducer p =>
      obtain rfl := Option.some.inj hstep
      exact .wakeProducer _ p
  | spuriousConsumer c =>
      obtain rfl := Option.some.inj hstep
      exact .wakeConsumer _ c

/-! ## The messages -/

/-- A step of the threads is a call on the queue, or the queue is as before. -/
theorem service_projects (queueSize : UInt32) (data : ℕ → UInt8) :
    Transition.Projects (service ι κ queueSize data) (channel queueSize data)
      State.channel where
  init := by
    rintro _ rfl
    rfl
  step := by
    intro s l t hstep
    cases step_moves hstep with
    | put s' payload wake consumers hs' hbrings hfull hwake =>
        refine Or.inr ⟨.enqueue payload.val, ?_⟩
        show Channel.step _ _ = _
        rw [Channel.step, shmQueueEnqueue, if_neg (by rw [payload.property]; decide),
          if_neg hfull]
        rfl
    | take s' bufSize wake producers hs' hempty htaken hwake =>
        refine Or.inr ⟨.dequeue bufSize 0, ?_⟩
        show Channel.step _ _ = _
        rw [Channel.step, shmQueueDequeue, if_neg hempty]
        rfl
    | _ => exact Or.inl rfl

theorem channelInv_reachable {queueSize : UInt32} (hn : 2 ≤ queueSize.toNat)
    (hfit : queueSize.toNat ≤ 2 ^ 16) (data : ℕ → UInt8) :
    Transition.Inductive (service ι κ queueSize data)
      fun s => ChannelInv queueSize.toNat s.channel where
  init := by
    rintro _ rfl
    exact ChannelInv.start (by omega) data
  step := by
    intro s l t h hstep
    rcases (service_projects queueSize data).step s l t hstep with hsame | ⟨c, hc⟩
    · rw [hsame]
      exact h
    · exact h.step hn hfit hc

section Counts

variable {n : ℕ} {q : Channel}

theorem room_of_full (h : ChannelInv n q) (hn : 2 ≤ n) (hfull : shmQueueIsFull q.shm = true) :
    room q = 0 := by
  rw [h.isFull_iff hn] at hfull
  rw [room, pending, h.queueSize]
  omega

theorem pending_of_empty (h : ChannelInv n q) (hempty : shmQueueIsEmpty q.shm = true) :
    pending q = 0 := by
  rw [h.isEmpty_iff] at hempty
  rw [pending]
  omega

theorem pending_add_room (h : ChannelInv n q) : pending q + room q = n - 1 := by
  have hroom := h.room
  rw [room, pending, h.queueSize]
  omega

theorem pending_put (h : ChannelInv n q) (payload : Payload) :
    pending (q.enqueued payload.val (0, putMessage q.shm payload.val)) = pending q + 1 := by
  have hle := h.le
  simp only [pending, Channel.enqueued, if_true, List.length_append, List.length_singleton]
  omega

/-- A dequeue that succeeds has moved on by one message. -/
theorem length_received_take {q : Channel} {bufSize : ℕ}
    (htaken : (getMessage q.shm bufSize).1.result = 0) :
    (q.dequeued (getMessage q.shm bufSize)).received.length = q.received.length + 1 := by
  rw [getMessage] at htaken
  split_ifs at htaken with hsmall
  · cases htaken
  · rw [Channel.dequeued, getMessage, if_neg hsmall, Option.toList_some, List.length_append,
      List.length_singleton]

theorem pending_take {bufSize : ℕ} (h : ChannelInv n q)
    (hempty : ¬ shmQueueIsEmpty q.shm = true) (htaken : (getMessage q.shm bufSize).1.result = 0) :
    pending (q.dequeued (getMessage q.shm bufSize)) + 1 = pending q := by
  have hle := h.le
  have hlength := length_received_take htaken
  have hsent : (q.dequeued (getMessage q.shm bufSize)).sent = q.sent := rfl
  rw [h.isEmpty_iff] at hempty
  rw [pending, pending, hlength, hsent]
  omega

theorem room_put (h : ChannelInv n q) (hn : 2 ≤ n) (hfull : ¬ shmQueueIsFull q.shm = true)
    (payload : Payload) :
    room (q.enqueued payload.val (0, putMessage q.shm payload.val)) + 1 = room q := by
  have hroom := h.room
  rw [h.isFull_iff hn] at hfull
  have hpending := pending_put h payload
  have hsize : (q.enqueued payload.val (0, putMessage q.shm payload.val)).shm.queueSize.toNat =
      n := h.queueSize
  rw [room, room, hpending, hsize, h.queueSize, pending]
  omega

theorem room_take {bufSize : ℕ} (h : ChannelInv n q)
    (hempty : ¬ shmQueueIsEmpty q.shm = true) (htaken : (getMessage q.shm bufSize).1.result = 0) :
    room (q.dequeued (getMessage q.shm bufSize)) = room q + 1 := by
  have hroom := h.room
  have hpending := pending_take h hempty htaken
  have hsize : (q.dequeued (getMessage q.shm bufSize)).shm.queueSize.toNat = n := by
    rw [Channel.dequeued, getMessage]
    split_ifs
    · exact h.queueSize
    · exact h.queueSize
  have hold := pending_add_room h
  rw [room, h.queueSize] at hold
  rw [room, room, hsize, h.queueSize]
  have hlt : pending q < n := by
    rw [pending]
    omega
  omega

end Counts

/-! ## The threads -/

omit [DecidableEq κ] [Fintype κ] in
theorem State.ProducerOut.served {m : ℕ} (h : s.ProducerOut s')
    (hserved : notFull.Served s.producers (m + 1)) : notFull.Served s'.producers m := by
  rcases h with rfl | ⟨p, -, rfl⟩
  · exact hserved.mono (Nat.le_succ m)
  · exact hserved.leave p rfl

omit [DecidableEq ι] [Fintype ι] in
theorem State.ConsumerOut.served {m : ℕ} (h : s.ConsumerOut s')
    (hserved : notEmpty.Served s.consumers (m + 1)) : notEmpty.Served s'.consumers m := by
  rcases h with rfl | ⟨c, -, rfl⟩
  · exact hserved.mono (Nat.le_succ m)
  · exact hserved.leave c rfl

/-- A full queue is waited for with room only while somebody has been woken up for it. -/
theorem producers_step {n : ℕ} (hinv : ChannelInv n s.channel) (hn : 2 ≤ n)
    (h : notFull.Served s.producers (room s.channel)) (hstep : s.step l = some t) :
    notFull.Served t.producers (room t.channel) := by
  cases step_moves hstep with
  | unchanged => exact h
  | blockProducer p payload hp hbrings hfull =>
      rw [show room (s.setProducer p (.blocked payload)).channel = 0 from
        room_of_full hinv hn hfull]
      exact Waiter.Served.of_zero
  | put s' payload wake consumers hs' hbrings hfull hwake =>
      rw [← room_put hinv hn hfull payload] at h
      exact hs'.served h
  | take s' bufSize wake producers hs' hempty htaken hwake =>
      rw [room_take hinv hempty htaken]
      exact h.notifyOne hwake
  | wakeProducer p => exact h.notify p
  | _ => exact h

/-- An empty queue is waited for with messages only while somebody has been woken up for
them, if nobody who was leaves them behind. -/
theorem consumers_step {n : ℕ} (hinv : ChannelInv n s.channel)
    (h : notEmpty.Served s.consumers (pending s.channel)) (hl : Attentive s l)
    (hstep : s.step l = some t) : notEmpty.Served t.consumers (pending t.channel) := by
  cases step_moves hstep with
  | put s' payload wake consumers hs' hbrings hfull hwake =>
      rw [pending_put hinv]
      exact h.notifyOne hwake
  | blockConsumer c bufSize timeoutMs hc hempty =>
      rw [show pending (s.setConsumer c (.blocked bufSize timeoutMs)).channel = 0 from
        pending_of_empty hinv hempty]
      exact Waiter.Served.of_zero
  | take s' bufSize wake producers hs' hempty htaken hwake =>
      rw [← pending_take hinv hempty htaken] at h
      exact hs'.served h
  | leave c hleave =>
      by_cases hawake : (s.consumers c).awake = true
      · have hempty : shmQueueIsEmpty s.channel.shm = true := by
          rcases hleave hawake with rfl | ⟨wake, bufSize, timeoutMs, rfl, hc, hthere, hrefused⟩
          · exact hl hawake
          · exact (hl bufSize timeoutMs hc).resolve_right hrefused
        rw [show pending (s.setConsumer c .outside).channel = 0 from
          pending_of_empty hinv hempty]
        exact Waiter.Served.of_zero
      · exact h.move rfl fun hold => absurd hold hawake
  | wakeConsumer c => exact h.notify c
  | _ => exact h

/-- As long as no consumer that was woken up leaves a message behind, threads are blocked on a
queue only while as many others have been woken up as there are messages to take, or slots to
fill, and there is always somebody left to go on. -/
theorem blocked_served {queueSize : UInt32} (hn : 2 ≤ queueSize.toNat)
    (hfit : queueSize.toNat ≤ 2 ^ 16) (data : ℕ → UInt8)
    (hs : Transition.Reachable ((service ι κ queueSize data).restrict Attentive) s) :
    ((∃ c, (s.consumers c).asleep = true) →
        pending s.channel ≤ total (fun c => c.awake.toNat) s.consumers) ∧
      ((∃ p, (s.producers p).asleep = true) →
        room s.channel ≤ total (fun p => p.awake.toNat) s.producers) ∧
      ((∃ c, (s.consumers c).asleep = true) → (∃ p, (s.producers p).asleep = true) →
        (∃ c, (s.consumers c).awake = true) ∨ ∃ p, (s.producers p).awake = true) := by
  have hinv : ChannelInv queueSize.toNat s.channel ∧
      notFull.Served s.producers (room s.channel) ∧
        notEmpty.Served s.consumers (pending s.channel) := by
    refine (Transition.Inductive.restrict (I := fun s => ChannelInv queueSize.toNat s.channel ∧
      notFull.Served s.producers (room s.channel) ∧
        notEmpty.Served s.consumers (pending s.channel)) ?_ ?_).reachable hs
    · rintro _ rfl
      refine ⟨ChannelInv.start (by omega) data, ?_, ?_⟩
      · exact Waiter.Served.of_none_asleep fun _ => rfl
      · exact Waiter.Served.of_none_asleep fun _ => rfl
    · rintro s l t ⟨hchannel, hproducers, hconsumers⟩ hl hstep
      exact ⟨(channelInv_reachable hn hfit data).step s l t hchannel hstep,
        producers_step hchannel hn hproducers hstep, consumers_step hchannel hconsumers hl hstep⟩
  obtain ⟨hchannel, hproducers, hconsumers⟩ := hinv
  refine ⟨hconsumers, hproducers, fun hc hp => ?_⟩
  have hslots := pending_add_room hchannel
  rcases Nat.eq_zero_or_pos (pending s.channel) with hnone | hsome
  · exact Or.inr (hproducers.exists_awake (by omega) hp)
  · exact Or.inl (hconsumers.exists_awake hsome hc)

end

/-- Two consumers are blocked when a message comes: one of them has been woken up. -/
theorem blocked_served_two : ∃ s : State (Fin 1) (Fin 2),
    Transition.Reachable ((service (Fin 1) (Fin 2) 4 fun _ => 0).restrict Attentive) s ∧
      (s.consumers 1).asleep = true ∧ pending s.channel = 1 ∧
      1 ≤ total (fun c => c.awake.toNat) s.consumers := by
  have hreach : ∃ s : State (Fin 1) (Fin 2),
      Transition.Reachable ((service (Fin 1) (Fin 2) 4 fun _ => 0).restrict Attentive) s ∧
        (s.consumers 1).asleep = true ∧ pending s.channel = 1 :=
    ⟨_, ⟨_, [.dequeue 0 16 0 none, .dequeue 1 16 0 none, .enqueue 0 [7] (some 0)], rfl,
      .cons ⟨trivial, rfl⟩ (.cons ⟨trivial, rfl⟩ (.cons ⟨trivial, rfl⟩ (.nil _)))⟩, rfl, rfl⟩
  obtain ⟨s, hs, hasleep, hone⟩ := hreach
  refine ⟨s, hs, hasleep, hone, ?_⟩
  exact hone.ge.trans ((blocked_served (by decide) (by decide) _ hs).1 ⟨1, hasleep⟩)

/-- The message stays when the woken consumer has a buffer of no bytes: the other one is not
woken up for it. -/
example : ∃ s : State (Fin 1) (Fin 2),
    Transition.Reachable (service (Fin 1) (Fin 2) 4 fun _ => 0) s ∧
      (s.consumers 1).asleep = true ∧ pending s.channel = 1 ∧
      ∀ c, (s.consumers c).awake = false :=
  ⟨_, ⟨_, [.dequeue 0 0 0 none, .dequeue 1 16 0 none, .enqueue 0 [7] (some 0),
    .retryDequeue 0 none], rfl,
    .cons rfl (.cons rfl (.cons rfl (.cons rfl (.nil _))))⟩, rfl, rfl, by decide⟩

section

variable {ι κ : Type*} [DecidableEq ι] [DecidableEq κ] [Fintype ι] [Fintype κ]
  {s t s' : State ι κ} {l : Event ι κ}

theorem Producer.Fits.notify {a : Producer} (h : a.Fits) : a.notify.Fits := by
  cases a with
  | _ => exact h

omit [DecidableEq ι] [DecidableEq κ] [Fintype ι] [Fintype κ] in
theorem State.Brings.fits {payload : Payload} (h : s.Brings l payload) (hl : Fits s l)
    (hfits : ∀ p, (s.producers p).Fits) : payload.val.length ≤ slotRoom := by
  rcases h with hcall | ⟨p, hp⟩
  · exact hl _ hcall
  · exact hfits p payload hp

/-- The payloads of the producers inside fit when those of the calls do. -/
theorem payloads_step (hfits : ∀ p, (s.producers p).Fits) (hl : Fits s l)
    (hstep : s.step l = some t) : ∀ p, (t.producers p).Fits := by
  cases step_moves hstep with
  | blockProducer p payload hp hbrings hfull =>
      refine forall_update (P := fun (_ : ι) (a : Producer) => a.Fits) hfits fun payload' heq => ?_
      obtain rfl := Option.some.inj heq
      exact hbrings.fits hl hfits
  | put s' payload wake consumers hs' hbrings hfull hwake =>
      rcases hs' with rfl | ⟨p, -, rfl⟩
      · exact hfits
      · exact forall_update (P := fun (_ : ι) (a : Producer) => a.Fits) hfits
          fun _ heq => by cases heq
  | take s' bufSize wake producers hs' hempty htaken hwake =>
      intro p
      show (producers p).Fits
      rcases Waiter.notifyOne_apply hwake p with hsame | hwoken
      · rw [hsame]
        exact hfits p
      · rw [hwoken]
        exact (hfits p).notify
  | wakeProducer p =>
      exact forall_update (P := fun (_ : ι) (a : Producer) => a.Fits) hfits (hfits p).notify
  | _ => exact hfits

/-- The messages in the queue fit when the payloads of the calls do. -/
theorem sent_step (hfits : ∀ p, (s.producers p).Fits)
    (hsent : ∀ m ∈ s.channel.sent, m.length ≤ slotRoom) (hl : Fits s l)
    (hstep : s.step l = some t) : ∀ m ∈ t.channel.sent, m.length ≤ slotRoom := by
  cases step_moves hstep with
  | put s' payload wake consumers hs' hbrings hfull hwake =>
      intro m hm
      rcases List.mem_append.mp hm with hold | hnew
      · exact hsent m hold
      · exact List.mem_singleton.mp hnew ▸ hbrings.fits hl hfits
  | _ => exact hsent

/-- When the payloads fit their slots, every interleaving of producers and consumers delivers
the messages in the order in which they were stored, each once, and a producer is blocked
only while as many others have been woken up as there are slots to fill. -/
theorem delivered_in_order {queueSize : UInt32} (hn : 2 ≤ queueSize.toNat)
    (hfit : queueSize.toNat ≤ 2 ^ 16) (data : ℕ → UInt8)
    (hs : Transition.Reachable ((service ι κ queueSize data).restrict Fits) s) :
    s.channel.received <+: s.channel.sent ∧
      s.channel.sent.length < s.channel.received.length + queueSize.toNat ∧
      ((∃ p, (s.producers p).asleep = true) →
        room s.channel ≤ total (fun p => p.awake.toNat) s.producers) := by
  have hinv := (Transition.Inductive.restrict (T := service ι κ queueSize data) (C := Fits)
    (I := fun s => ChannelInv queueSize.toNat s.channel ∧
      s.channel.received <+: s.channel.sent ∧ (∀ m ∈ s.channel.sent, m.length ≤ slotRoom) ∧
        (∀ p, (s.producers p).Fits) ∧ notFull.Served s.producers (room s.channel))
    ?_ ?_).reachable hs
  · exact ⟨hinv.2.1, hinv.1.room, hinv.2.2.2.2⟩
  · rintro _ rfl
    refine ⟨ChannelInv.start (by omega) data, List.nil_prefix, List.forall_mem_nil _, ?_, ?_⟩
    · exact fun _ _ heq => by cases heq
    · exact Waiter.Served.of_none_asleep fun _ => rfl
  · rintro s l t ⟨hchannel, hprefix, hsent, hfits, hserved⟩ hl hstep
    have hsent' := sent_step hfits hsent hl hstep
    refine ⟨(channelInv_reachable hn hfit data).step s l t hchannel hstep, ?_, hsent',
      payloads_step hfits hl hstep, producers_step hchannel hn hserved hstep⟩
    rcases (service_projects queueSize data).step s l t hstep with hsame | ⟨c, hc⟩
    · rw [hsame]
      exact hprefix
    · exact (hchannel.delivers_iff hn hfit hprefix hc).mpr
        (ChannelInv.undisturbed_of_fits hsent c)

end

/-- A producer that has filled a queue of two slots is blocked with the next message. -/
theorem delivered_in_order_two : ∃ s : State (Fin 1) (Fin 1),
    Transition.Reachable ((service (Fin 1) (Fin 1) 2 fun _ => 0).restrict Fits) s ∧
      (s.producers 0).asleep = true ∧ s.channel.sent = [[7]] ∧
      s.channel.received <+: [[7]] := by
  have hreach : ∃ s : State (Fin 1) (Fin 1),
      Transition.Reachable ((service (Fin 1) (Fin 1) 2 fun _ => 0).restrict Fits) s ∧
        (s.producers 0).asleep = true ∧ s.channel.sent = [[7]] :=
    ⟨_, ⟨_, [.enqueue 0 [7] none, .enqueue 0 [8, 9] none], rfl,
      .cons ⟨by rintro _ ⟨⟩; decide, rfl⟩ (.cons ⟨by rintro _ ⟨⟩; decide, rfl⟩ (.nil _))⟩,
      rfl, rfl⟩
  obtain ⟨s, hs, hasleep, hsent⟩ := hreach
  refine ⟨s, hs, hasleep, hsent, ?_⟩
  rw [← hsent]
  exact (delivered_in_order (by decide) (by decide) _ hs).1

end QueueService

end ModernPool

end ProcessThreadPool
