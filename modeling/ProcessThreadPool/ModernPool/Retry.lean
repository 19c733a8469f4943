import ProcessThreadPool.ModernPool.Delivery
import ProcessThreadPool.ModernPool.Mapping

/-!
# Failed dequeues

A dequeue fails when the buffer is too small for the oldest message, when nothing is there,
when the lock is not obtained, or when a timed wait ends without a notification. It has
changed nothing then but `*data_size`, and only when the buffer was too small. The
calls considered store payloads that fit their slot together with the size field, and touch
only the memory that `worker_create` has mapped.
-/

namespace ProcessThreadPool

namespace ModernPool

open ByteMemory LockfreeQueue

/-- `shm_queue_dequeue` when `pthread_cond_timedwait` returns an error. A message may have
come in the meantime. -/
def shmQueueDequeueTimedOut (q : Shm) (bufSize : ℕ) : Dequeued × Shm :=
  (⟨-1, none, bufSize⟩, q)

/-- The caller's buffer after a dequeue. -/
def Dequeued.store (d : Dequeued) (buffer : List UInt8) : List UInt8 :=
  match d.data with
  | none => buffer
  | some bytes => bytes ++ buffer.drop bytes.length

/-- A call, or the end of a timed wait that fails. -/
inductive ShmEvent where
  | call (c : ShmCall)
  | timedOut (bufSize : ℕ)
  deriving DecidableEq, Repr

/-- `*data_size` before a dequeue. -/
def ShmEvent.bufSize : ShmEvent → ℕ
  | .call (.dequeue bufSize _) | .call (.tryDequeue bufSize _) | .timedOut bufSize => bufSize
  | _ => 0

/-- What a dequeue returns. -/
def Channel.dequeueResult (s : Channel) : ShmEvent → Option (Dequeued × Shm)
  | .call (.dequeue bufSize timeoutMs) => shmQueueDequeue s.shm bufSize timeoutMs
  | .call (.tryDequeue bufSize locked) => some (shmQueueTryDequeue s.shm bufSize locked)
  | .timedOut bufSize => some (shmQueueDequeueTimedOut s.shm bufSize)
  | _ => none

/-- One event. -/
def Channel.eventStep (s : Channel) : ShmEvent → Option Channel
  | .call c => s.step c
  | .timedOut bufSize => some (s.dequeued (shmQueueDequeueTimedOut s.shm bufSize))

/-- The end of the message that an enqueue stores. -/
def putEnd (q : Shm) (data : List UInt8) : ℕ := slotOffset q.producerPos + 4 + data.length

/-- The end of what a dequeue into a buffer of `bufSize` bytes reads. -/
def getEnd (q : Shm) (bufSize : ℕ) : ℕ :=
  let storedSize := (readWord q.data (slotOffset q.consumerPos)).toNat
  slotOffset q.consumerPos + 4 + if storedSize > bufSize then 0 else storedSize

/-- The end of the bytes behind the header that an event touches, zero if it touches
none. -/
def Channel.touchEnd (s : Channel) : ShmEvent → ℕ
  | .call (.enqueue data) =>
      if validSize data && !shmQueueIsFull s.shm then putEnd s.shm data else 0
  | .call (.tryEnqueue data locked) =>
      if validSize data && locked && !shmQueueIsFull s.shm then putEnd s.shm data else 0
  | .call (.dequeue bufSize _) =>
      if shmQueueIsEmpty s.shm then 0 else getEnd s.shm bufSize
  | .call (.tryDequeue bufSize locked) =>
      if locked && !shmQueueIsEmpty s.shm then getEnd s.shm bufSize else 0
  | .timedOut _ => 0

/-- A payload that an enqueue accepts fits its slot together with the size field. -/
def ShmEvent.Fits : ShmEvent → Prop
  | .call (.enqueue data) | .call (.tryEnqueue data _) =>
      validSize data = true → data.length ≤ slotRoom
  | _ => True

/-- The event has a payload that fits, and stays inside the mapping. -/
def WithinSlots (s : Channel) (l : ShmEvent) : Prop :=
  l.Fits ∧ s.touchEnd l ≤ slotOffset s.shm.queueSize

/-- No dequeue takes a message. -/
def TakesNothing (s : Channel) (l : ShmEvent) : Prop :=
  ∀ r, s.dequeueResult l = some r → r.1.result ≠ 0

/-- All sequences of events with payloads that fit on a fresh queue. -/
def mailbox (queueSize : UInt32) (data : ℕ → UInt8) : Transition.System Channel ShmEvent :=
  (Transition.System.ofFun ⟨Shm.start queueSize data, [], []⟩ Channel.eventStep).restrict
    WithinSlots

section

variable {s t : Channel} {l : ShmEvent} {r : Dequeued × Shm}

/-- A dequeue that fails has copied nothing and left the queue as it was. -/
theorem dequeueResult_failed (hr : s.dequeueResult l = some r) (hfail : r.1.result ≠ 0) :
    r.1.data = none ∧ r.2 = s.shm := by
  have hget : ∀ bufSize, (getMessage s.shm bufSize).1.result ≠ 0 →
      (getMessage s.shm bufSize).1.data = none ∧ (getMessage s.shm bufSize).2 = s.shm := by
    intro bufSize hne
    rw [getMessage] at hne ⊢
    split_ifs at hne ⊢
    · exact ⟨rfl, rfl⟩
    · exact absurd rfl hne
  rcases l with (data | ⟨data, locked⟩ | ⟨bufSize, timeoutMs⟩ | ⟨bufSize, locked⟩) | bufSize
  · cases hr
  · cases hr
  · simp only [Channel.dequeueResult, shmQueueDequeue] at hr
    split_ifs at hr <;> obtain rfl := Option.some.inj hr
    · exact ⟨rfl, rfl⟩
    · exact hget bufSize hfail
  · simp only [Channel.dequeueResult, shmQueueTryDequeue, Option.some.injEq] at hr
    subst hr
    split_ifs at hfail ⊢
    · exact ⟨rfl, rfl⟩
    · exact ⟨rfl, rfl⟩
    · exact hget bufSize hfail
  · obtain rfl := Option.some.inj hr
    exact ⟨rfl, rfl⟩

/-- An event is a dequeue, or an enqueue, of a payload that fits if it succeeds. -/
theorem eventStep_cases (hstep : s.eventStep l = some t) :
    (∃ r, s.dequeueResult l = some r ∧ t = s.dequeued r) ∨
      ∃ m r, t = s.enqueued m r ∧ (l.Fits → r.1 = 0 → m.length ≤ slotRoom) := by
  rcases l with (data | ⟨data, locked⟩ | ⟨bufSize, timeoutMs⟩ | ⟨bufSize, locked⟩) | bufSize
  · obtain ⟨r, hr, rfl⟩ := Option.map_eq_some_iff.mp hstep
    refine Or.inr ⟨data, r, rfl, fun hfits hzero => hfits ?_⟩
    by_contra hvalid
    rw [shmQueueEnqueue, if_pos (Bool.eq_false_of_not_eq_true hvalid)] at hr
    obtain rfl := Option.some.inj hr
    cases hzero
  · obtain rfl := Option.some.inj hstep
    refine Or.inr ⟨data, _, rfl, fun hfits hzero => hfits ?_⟩
    by_contra hvalid
    rw [shmQueueTryEnqueue, if_pos (Bool.eq_false_of_not_eq_true hvalid)] at hzero
    cases hzero
  · obtain ⟨r, hr, rfl⟩ := Option.map_eq_some_iff.mp hstep
    exact Or.inl ⟨r, hr, rfl⟩
  · exact Or.inl ⟨_, rfl, (Option.some.inj hstep).symm⟩
  · exact Or.inl ⟨_, rfl, (Option.some.inj hstep).symm⟩

/-- As long as no dequeue takes a message the received messages are the same, and more are
sent at most. -/
theorem TakesNothing.frame (htakes : TakesNothing s l) (hstep : s.eventStep l = some t) :
    t.received = s.received ∧ s.sent <+: t.sent := by
  rcases eventStep_cases hstep with ⟨r, hr, rfl⟩ | ⟨m, r, rfl, -⟩
  · have hnone := (dequeueResult_failed hr (htakes r hr)).1
    rw [Channel.dequeued, hnone, Option.toList_none, List.append_nil]
    exact ⟨rfl, List.prefix_rfl⟩
  · rw [Channel.enqueued]
    refine ⟨rfl, ?_⟩
    split_ifs
    · exact List.prefix_append _ _
    · exact List.prefix_rfl

end

/-! ## The oldest message -/

namespace ChannelInv

variable {n : ℕ} {s : Channel}

/-- What a dequeue does on a queue that is not empty, when the payloads fit. -/
theorem getMessage_fits (h : ChannelInv n s) (hn : 2 ≤ n) (hfit : n ≤ 2 ^ 16)
    (hfits : ∀ m ∈ s.sent, m.length ≤ slotRoom) (hlt : s.received.length < s.sent.length)
    (bufSize : ℕ) :
    ModernPool.getMessage s.shm bufSize =
      if s.sent[s.received.length].length > bufSize then
        (⟨-1, none, s.sent[s.received.length].length⟩, s.shm)
      else
        (⟨0, some s.sent[s.received.length], s.sent[s.received.length].length⟩,
          { s.shm with
            consumerPos := shmQueueNextPos s.shm.consumerPos s.shm.queueSize }) := by
  have hbytes : readBytes s.shm.data (slotBase n s.received.length + 4)
      s.sent[s.received.length].length = s.sent[s.received.length] := by
    rw [h.readBytes_eq_iff hn hlt]
    intro next _ _
    have hlength := hfits _ (List.getElem_mem hlt)
    rw [List.drop_eq_nil_of_le hlength, Nat.sub_eq_zero_of_le hlength, List.take_zero]
  rw [h.getMessage_eq hn hfit hlt, hbytes]

end ChannelInv

/-! ## The reachable states -/

/-- The queue works on all its slots, or nothing is ever stored: it has one slot, which
stays free, or the mapping has no room for any. -/
inductive MailboxInv (queueSize : UInt32) (data : ℕ → UInt8) (s : Channel) : Prop
  | works (hn : 2 ≤ queueSize.toNat) (hfit : queueSize.toNat ≤ 2 ^ 16)
      (hinv : ChannelInv queueSize.toNat s) (hfits : ∀ m ∈ s.sent, m.length ≤ slotRoom)
  | unused (hnone : queueSize = 1 ∨ slotOffset queueSize = 0)
      (hstart : s = ⟨Shm.start queueSize data, [], []⟩)

namespace MailboxInv

variable {queueSize : UInt32} {data : ℕ → UInt8} {s t : Channel} {l : ShmEvent}

/-- A power of two has room for all its slots, or its product with the size of a slot is
zero. -/
theorem start {k : ℕ} (hsize : queueSize.toNat = 2 ^ k) :
    MailboxInv queueSize data ⟨Shm.start queueSize data, [], []⟩ := by
  rcases Nat.eq_zero_or_pos k with rfl | hpos
  · exact .unused (Or.inl (UInt32.toNat_inj.mp hsize)) rfl
  rcases Nat.lt_or_ge k 16 with hlt | hge
  · have hbig : 2 ^ k ≤ 2 ^ 16 := Nat.pow_le_pow_right (by decide) hlt.le
    have hsmall : 2 ^ 1 ≤ 2 ^ k := Nat.pow_le_pow_right (by decide) hpos
    refine .works (by omega) (by omega) ?_ (List.forall_mem_nil _)
    exact ChannelInv.start (by omega) data
  · refine .unused (Or.inr ?_) rfl
    have hdvd : 2 ^ 32 ∣ 2 ^ k * maxTaskDataSize := by
      rw [maxTaskDataSize, show 64 * 1024 = 2 ^ 16 from rfl, ← Nat.pow_add]
      exact Nat.pow_dvd_pow 2 (by omega)
    rw [slotOffset, UInt32.toNat_mul, hsize]
    exact Nat.mod_eq_zero_of_dvd hdvd

/-- Nothing is stored in a queue that is always full or has no room. -/
theorem step_unused (hnone : queueSize = 1 ∨ slotOffset queueSize = 0)
    (hwithin : WithinSlots ⟨Shm.start queueSize data, [], []⟩ l)
    (hstep : Channel.eventStep ⟨Shm.start queueSize data, [], []⟩ l = some t) :
    t = ⟨Shm.start queueSize data, [], []⟩ := by
  have hempty : shmQueueIsEmpty (Shm.start queueSize data) = true := rfl
  have hfull : ∀ m, putEnd (Shm.start queueSize data) m ≤ slotOffset queueSize →
      shmQueueIsFull (Shm.start queueSize data) = true := by
    intro m hm
    rcases hnone with rfl | hzero
    · show decide (shmQueueNextPos 0 1 = 0) = true
      decide
    · rw [hzero, putEnd] at hm
      omega
  obtain ⟨-, hend⟩ := hwithin
  rcases l with (m | ⟨m, locked⟩ | ⟨bufSize, timeoutMs⟩ | ⟨bufSize, locked⟩) | bufSize
  · simp only [Channel.eventStep, Channel.step, shmQueueEnqueue] at hstep
    split_ifs at hstep with hvalid hnot
    · exact (Option.some.inj hstep).symm
    · cases hstep
    · simp only [Channel.touchEnd, hvalid, hnot] at hend
      exact absurd (hfull m hend) hnot
  · simp only [Channel.eventStep, Channel.step, shmQueueTryEnqueue, Option.some.injEq] at hstep
    subst hstep
    split_ifs with hvalid hlocked hnot
    · rfl
    · rfl
    · rfl
    · simp only [Channel.touchEnd, hvalid, hlocked, hnot] at hend
      exact absurd (hfull m hend) hnot
  · simp only [Channel.eventStep, Channel.step, shmQueueDequeue, hempty, if_true] at hstep
    split_ifs at hstep
    · cases hstep
    · exact (Option.some.inj hstep).symm
  · simp only [Channel.eventStep, Channel.step, shmQueueTryDequeue, hempty, if_true, ite_self,
      Option.some.injEq] at hstep
    exact hstep.symm
  · exact (Option.some.inj hstep).symm

/-- An enqueue adds a payload that fits. -/
theorem sent_fits (hfits : ∀ m ∈ s.sent, m.length ≤ slotRoom) (hl : l.Fits)
    (hstep : s.eventStep l = some t) : ∀ m ∈ t.sent, m.length ≤ slotRoom := by
  rcases eventStep_cases hstep with ⟨r, -, rfl⟩ | ⟨m, r, rfl, hm⟩
  · exact hfits
  · intro x hx
    simp only [Channel.enqueued] at hx
    split_ifs at hx with hzero
    · rcases List.mem_append.mp hx with hold | hnew
      · exact hfits x hold
      · exact List.mem_singleton.mp hnew ▸ hm hl hzero
    · exact hfits x hx

theorem step (h : MailboxInv queueSize data s) (hwithin : WithinSlots s l)
    (hstep : s.eventStep l = some t) : MailboxInv queueSize data t := by
  cases h with
  | unused hnone hstart =>
      subst hstart
      exact .unused hnone (step_unused hnone hwithin hstep)
  | works hn hfit hinv hfits =>
      refine .works hn hfit ?_ (sent_fits hfits hwithin.1 hstep)
      cases l with
      | call c => exact hinv.step hn hfit hstep
      | timedOut bufSize =>
          obtain rfl := Option.some.inj hstep
          exact hinv.failed_dequeue _ _

theorem run {k : ℕ} (hsize : queueSize.toNat = 2 ^ k)
    (hs : Transition.Reachable (mailbox queueSize data) s) : MailboxInv queueSize data s := by
  obtain ⟨s₀, ls, hinit, hrun⟩ := hs
  subst hinit
  exact hrun.preserves (fun _ _ _ h hstep => h.step hstep.1 hstep.2) (start hsize)

end MailboxInv

/-- A dequeue by either function returns `m` if the buffer is large enough for it, and
otherwise its size. -/
structure Offers (q : Shm) (m : List UInt8) : Prop where
  dequeue : ∀ bufSize timeoutMs, m.length ≤ bufSize →
    ∃ q', shmQueueDequeue q bufSize timeoutMs = some (⟨0, some m, m.length⟩, q')
  tryDequeue : ∀ bufSize, m.length ≤ bufSize →
    ∃ q', shmQueueTryDequeue q bufSize true = (⟨0, some m, m.length⟩, q')
  dequeue_small : ∀ bufSize timeoutMs, bufSize < m.length →
    shmQueueDequeue q bufSize timeoutMs = some (⟨-1, none, m.length⟩, q)
  tryDequeue_small : ∀ bufSize, bufSize < m.length →
    shmQueueTryDequeue q bufSize true = (⟨-1, none, m.length⟩, q)

namespace MailboxInv

variable {queueSize : UInt32} {data : ℕ → UInt8} {s t : Channel} {l : ShmEvent}

/-- The oldest message is offered. -/
theorem offers (h : MailboxInv queueSize data s) {m : List UInt8}
    (hm : s.sent[s.received.length]? = some m) : Offers s.shm m := by
  cases h with
  | unused _ hstart =>
      subst hstart
      cases hm
  | works hn hfit hinv hfits =>
      obtain ⟨hlt, rfl⟩ := List.getElem?_eq_some_iff.mp hm
      have hempty : ¬ shmQueueIsEmpty s.shm = true := by
        rw [hinv.isEmpty_iff]
        exact hlt.ne
      have hget := hinv.getMessage_fits hn hfit hfits hlt
      constructor
      · intro bufSize timeoutMs hle
        rw [shmQueueDequeue, if_neg hempty, hget, if_neg (Nat.not_lt.mpr hle)]
        exact ⟨_, rfl⟩
      · intro bufSize hle
        rw [shmQueueTryDequeue, if_neg Bool.true_eq_false.mp, if_neg hempty, hget,
          if_neg (Nat.not_lt.mpr hle)]
        exact ⟨_, rfl⟩
      · intro bufSize timeoutMs hlt
        rw [shmQueueDequeue, if_neg hempty, hget, if_pos hlt]
      · intro bufSize hlt
        rw [shmQueueTryDequeue, if_neg Bool.true_eq_false.mp, if_neg hempty, hget, if_pos hlt]

/-- A dequeue that fails leaves `*data_size`, or stores the size of the oldest message. -/
theorem failed_size (h : MailboxInv queueSize data s) {r : Dequeued × Shm}
    (hr : s.dequeueResult l = some r) (hfail : r.1.result ≠ 0) :
    r.1.dataSize = l.bufSize ∨ l.bufSize < r.1.dataSize ∧
      ∃ m, s.sent[s.received.length]? = some m ∧ r.1.dataSize = m.length := by
  -- A buffer that is too small for the oldest message.
  have hget : ∀ bufSize, ¬ shmQueueIsEmpty s.shm = true →
      (getMessage s.shm bufSize).1.result ≠ 0 → bufSize < (getMessage s.shm bufSize).1.dataSize ∧
        ∃ m, s.sent[s.received.length]? = some m ∧
          (getMessage s.shm bufSize).1.dataSize = m.length := by
    intro bufSize hempty hne
    cases h with
    | unused _ hstart =>
        subst hstart
        exact absurd rfl hempty
    | works hn hfit hinv hfits =>
        rw [hinv.isEmpty_iff] at hempty
        have hlt := lt_of_le_of_ne hinv.le hempty
        rw [hinv.getMessage_fits hn hfit hfits hlt] at hne ⊢
        split_ifs at hne ⊢ with hsmall
        · exact ⟨hsmall, _, List.getElem?_eq_getElem hlt, rfl⟩
        · exact absurd rfl hne
  rcases l with (m | ⟨m, locked⟩ | ⟨bufSize, timeoutMs⟩ | ⟨bufSize, locked⟩) | bufSize
  · cases hr
  · cases hr
  · simp only [Channel.dequeueResult, shmQueueDequeue] at hr
    split_ifs at hr with hempty <;> obtain rfl := Option.some.inj hr
    · exact Or.inl rfl
    · exact Or.inr (hget bufSize hempty hfail)
  · simp only [Channel.dequeueResult, shmQueueTryDequeue, Option.some.injEq] at hr
    subst hr
    split_ifs at hfail ⊢ with hlocked hempty
    · exact Or.inl rfl
    · exact Or.inl rfl
    · exact Or.inr (hget bufSize hempty hfail)
  · obtain rfl := Option.some.inj hr
    exact Or.inl rfl

end MailboxInv

/-- A dequeue that fails changes neither the queue nor the caller's buffer. When it has failed
for size, the size that it stores is that of the oldest message, and as long as no dequeue
takes it, whatever is enqueued and whatever else fails, either function returns that message
into a buffer of this size and into no smaller one. -/
theorem failed_dequeue_loses_nothing {isPowerOf2 : UInt32 → Bool}
    {nextPowerOf2 : UInt32 → UInt32} (hpow : PowerOfTwoFunctions isPowerOf2 nextPowerOf2)
    {config : PoolConfig} (hconfig : Accepted isPowerOf2 nextPowerOf2 config)
    {data : ℕ → UInt8} {s : Channel}
    (hs : Transition.Reachable (mailbox config.queueSize data) s) {l : ShmEvent}
    {r : Dequeued × Shm} (hr : s.dequeueResult l = some r) (hfail : r.1.result ≠ 0) :
    r.2 = s.shm ∧ (∀ buffer, r.1.store buffer = buffer) ∧
      (r.1.dataSize = l.bufSize ∨ l.bufSize < r.1.dataSize ∧
        ∃ m, s.sent[s.received.length]? = some m ∧ r.1.dataSize = m.length ∧
          ∀ ls t, Transition.Run ((mailbox config.queueSize data).restrict TakesNothing) s ls t →
            t.sent[t.received.length]? = some m ∧ Offers t.shm m) := by
  obtain ⟨k, -, hsize⟩ := accepted_size hpow hconfig
  have hinv := MailboxInv.run hsize hs
  obtain ⟨hnone, hsame⟩ := dequeueResult_failed hr hfail
  refine ⟨hsame, fun buffer => by rw [Dequeued.store, hnone], ?_⟩
  rcases hinv.failed_size hr hfail with hkept | ⟨hsmall, m, hm, hlength⟩
  · exact Or.inl hkept
  · refine Or.inr ⟨hsmall, m, hm, hlength, fun ls t hrun => ?_⟩
    have hlater : MailboxInv config.queueSize data t ∧
        t.sent[t.received.length]? = some m := by
      refine hrun.preserves (I := fun u => MailboxInv config.queueSize data u ∧
        u.sent[u.received.length]? = some m) ?_ ⟨hinv, hm⟩
      intro u l v hu hstep
      obtain ⟨hreceived, hsent⟩ := hstep.1.frame hstep.2.2
      refine ⟨hu.1.step hstep.2.1 hstep.2.2, ?_⟩
      obtain ⟨more, hmore⟩ := hsent
      have hlt := (List.getElem?_eq_some_iff.mp hu.2).1
      rw [hreceived, ← hmore, List.getElem?_append_left hlt]
      exact hu.2
    exact ⟨hlater.2, hlater.1.offers hlater.2⟩

/-- Two bytes in the queue of the default configuration, and a buffer of one. -/
theorem failed_dequeue_loses_nothing_pair : ∃ s : Channel,
    s.dequeueResult (.call (.dequeue 1 0)) = some (⟨-1, none, 2⟩, s.shm) ∧
      ∀ ls t, Transition.Run
        ((mailbox initDefaultConfig.queueSize fun _ => 0).restrict TakesNothing) s ls t →
          Offers t.shm [7, 8] := by
  have hreach : Transition.Reachable (mailbox initDefaultConfig.queueSize fun _ => 0)
      ⟨putMessage (Shm.start 4096 fun _ => 0) [7, 8], [[7, 8]], []⟩ :=
    ⟨_, [.call (.enqueue [7, 8])], rfl,
      .cons ⟨⟨fun _ => by decide, by decide⟩, rfl⟩ (.nil _)⟩
  have hfails : Channel.dequeueResult
      ⟨putMessage (Shm.start 4096 fun _ => 0) [7, 8], [[7, 8]], []⟩ (.call (.dequeue 1 0)) =
        some (⟨-1, none, 2⟩, putMessage (Shm.start 4096 fun _ => 0) [7, 8]) := rfl
  obtain ⟨-, -, hkept | ⟨-, m, hm, -, hlater⟩⟩ := failed_dequeue_loses_nothing
    powerOfTwoFunctions (accepted_initDefaultConfig powerOfTwoFunctions) hreach hfails (by decide)
  · cases hkept
  · obtain rfl := Option.some.inj hm
    exact ⟨_, hfails, fun ls t hrun => (hlater ls t hrun).2⟩

end ModernPool

end ProcessThreadPool
