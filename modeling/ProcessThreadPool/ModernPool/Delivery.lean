import ProcessThreadPool.Lib.RingWindow
import ProcessThreadPool.ModernPool.SharedMemory

/-!
# Delivery through the shared-memory queue

A slot is `MAX_TASK_DATA_SIZE` bytes long and a message may be as long as that, so
with the four bytes of its size it may reach up to four bytes into the next slot.
The size field there is written by the next enqueue. Everything else of a pending
message is left alone: its own size field, the bytes that fit its slot, and, in
the last slot of the area, also the bytes behind it.
-/

namespace ProcessThreadPool

namespace ModernPool

open ByteMemory RingWindow

/-- The first byte of the slot of message number `k`. -/
def slotBase (n k : ℕ) : ℕ := k % n * maxTaskDataSize

/-- The bytes of a message that fit its slot behind the size field. -/
def slotRoom : ℕ := maxTaskDataSize - 4

/-- Message number `k` is in its slot, with all its bytes if `whole` holds and with
those that fit the slot in any case. -/
structure Stored (n : ℕ) (data : ℕ → UInt8) (k : ℕ) (m : List UInt8) (whole : Prop) :
    Prop where
  size : ∀ j, ∀ hj : j < (wordBytes (UInt32.ofNat m.length)).length,
    data (slotBase n k + j) = (wordBytes (UInt32.ofNat m.length))[j]
  body : ∀ i, ∀ hi : i < m.length, i < slotRoom ∨ whole →
    data (slotBase n k + 4 + i) = m[i]

/-- The cursors count the messages sent and received, and every pending message is
in its slot; the bytes that did not fit are there for the newest message and for
one in the last slot. -/
structure ChannelInv (n : ℕ) (s : Channel) : Prop where
  queueSize : s.shm.queueSize.toNat = n
  producer : s.shm.producerPos.toNat = s.sent.length % n
  consumer : s.shm.consumerPos.toNat = s.received.length % n
  le : s.received.length ≤ s.sent.length
  room : s.sent.length < s.received.length + n
  sizes : ∀ m ∈ s.sent, m.length ≤ maxTaskDataSize
  stored : ∀ k, s.received.length ≤ k → ∀ hk : k < s.sent.length,
    Stored n s.shm.data k s.sent[k] (k + 1 = s.sent.length ∨ k % n + 1 = n)

/-- What the consumer has is what the producer sent, in order. -/
def Delivers (_ : Channel) (_ : ShmCall) (t : Channel) : Prop := t.received <+: t.sent

/-- The buffer size of a call that takes a message if there is one. -/
def ShmCall.takes : ShmCall → Option ℕ
  | .dequeue bufSize _ | .tryDequeue bufSize true => some bufSize
  | _ => none

/-- A message is not taken after the next enqueue has written its size field over
bytes of the message, unless it wrote the same bytes. -/
def Undisturbed (s : Channel) (l : ShmCall) : Prop :=
  ∀ bufSize m next, l.takes = some bufSize → s.sent[s.received.length]? = some m →
    m.length ≤ bufSize → s.sent[s.received.length + 1]? = some next →
    s.shm.consumerPos.toNat + 1 < s.shm.queueSize.toNat →
    m.drop slotRoom =
      (wordBytes (UInt32.ofNat next.length)).take (m.length - slotRoom)

theorem toNat_shmQueueNextPos {pos size : UInt32} {n a : ℕ} (hn : 0 < n)
    (hsize : size.toNat = n) (hpos : pos.toNat = a % n) :
    (shmQueueNextPos pos size).toNat = (a + 1) % n := by
  have hlt := Nat.mod_lt a hn
  have hword := UInt32.toNat_lt size
  rw [shmQueueNextPos, UInt32.toNat_mod, UInt32.toNat_add, hsize, hpos, UInt32.toNat_one,
    Nat.mod_eq_of_lt (show a % n + 1 < 2 ^ 32 by omega), Nat.mod_add_mod]

section PutMessage

variable {q : Shm} {m : List UInt8}

theorem putMessage_outside {b : ℕ} (h : b < slotOffset q.producerPos ∨
    slotOffset q.producerPos + 4 + m.length ≤ b) : (putMessage q m).data b = q.data b := by
  simp only [putMessage]
  rw [writeBytes_of_outside (by omega),
    writeBytes_of_outside (by rw [length_wordBytes]; omega)]

theorem putMessage_size {j : ℕ} (hj : j < (wordBytes (UInt32.ofNat m.length)).length) :
    (putMessage q m).data (slotOffset q.producerPos + j) =
      (wordBytes (UInt32.ofNat m.length))[j] := by
  have hfour := hj
  rw [length_wordBytes] at hfour
  simp only [putMessage]
  rw [writeBytes_of_outside (by omega), writeBytes_inside hj]

theorem putMessage_body {i : ℕ} (hi : i < m.length) :
    (putMessage q m).data (slotOffset q.producerPos + 4 + i) = m[i] := by
  simp only [putMessage]
  rw [writeBytes_inside hi]

end PutMessage

/-- A write to another slot, not the one before, leaves a stored message with the
bytes that fit, and with all of them in the last slot. -/
theorem Stored.putMessage {n k : ℕ} {q : Shm} {m x : List UInt8} {whole : Prop}
    (h : Stored n q.data k m whole) (hx : x.length ≤ maxTaskDataSize)
    (hoffset : slotOffset q.producerPos = q.producerPos.toNat * maxTaskDataSize)
    (hlt : q.producerPos.toNat < n)
    (hne : k % n ≠ q.producerPos.toNat) (hnext : k % n ≠ q.producerPos.toNat + 1)
    (hwhole : k % n + 1 = n → whole) :
    Stored n (ModernPool.putMessage q x).data k m (k % n + 1 = n) where
  size := by
    intro j hj
    rw [putMessage_outside, h.size j hj]
    rw [length_wordBytes] at hj
    rw [hoffset, slotBase, maxTaskDataSize] at *
    omega
  body := by
    intro i hi hpart
    rw [putMessage_outside, h.body i hi (hpart.imp id hwhole)]
    rw [hoffset, slotBase, slotRoom, maxTaskDataSize] at *
    omega

namespace ChannelInv

section

variable {n : ℕ} {s : Channel}

theorem start {queueSize : UInt32} (hn : 0 < queueSize.toNat) (data : ℕ → UInt8) :
    ChannelInv queueSize.toNat ⟨Shm.start queueSize data, [], []⟩ where
  queueSize := rfl
  producer := by simp [Shm.start]
  consumer := by simp [Shm.start]
  le := le_rfl
  room := by simpa using hn
  sizes := by simp
  stored := by simp

theorem isFull_iff (h : ChannelInv n s) (hn : 2 ≤ n) :
    shmQueueIsFull s.shm = true ↔ s.sent.length + 1 = s.received.length + n := by
  have hle := h.le
  have hroom := h.room
  rw [shmQueueIsFull, decide_eq_true_iff, ← UInt32.toNat_inj,
    toNat_shmQueueNextPos (by omega) h.queueSize h.producer, h.consumer,
    ← Nat.add_mod_right s.received.length]
  constructor
  · exact eq_of_mod_eq_of_window (s.received.length + 1) (by omega) (by omega) (by omega)
      (by omega)
  · intro heq
    rw [heq]

theorem isEmpty_iff (h : ChannelInv n s) :
    shmQueueIsEmpty s.shm = true ↔ s.received.length = s.sent.length := by
  have hle := h.le
  have hroom := h.room
  rw [shmQueueIsEmpty, decide_eq_true_iff, ← UInt32.toNat_inj, h.producer, h.consumer]
  constructor
  · intro heq
    exact eq_of_mod_eq_of_window s.received.length le_rfl (by omega) hle hroom heq.symm
  · intro heq
    rw [heq]

theorem producer_offset (h : ChannelInv n s) (hn : 2 ≤ n) (hfit : n ≤ 2 ^ 16) :
    slotOffset s.shm.producerPos = s.shm.producerPos.toNat * maxTaskDataSize := by
  apply slotOffset_eq
  rw [h.producer]
  exact (Nat.mod_lt _ (by omega)).trans_le hfit

/-- A message of an accepted size goes into a queue that is not full. -/
theorem putMessage (h : ChannelInv n s) (hn : 2 ≤ n) (hfit : n ≤ 2 ^ 16)
    (hfull : ¬ shmQueueIsFull s.shm = true) {m : List UInt8}
    (hm : m.length ≤ maxTaskDataSize) :
    ChannelInv n ⟨ModernPool.putMessage s.shm m, s.sent ++ [m], s.received⟩ := by
  have hle := h.le
  have hroom := h.room
  have hproducer := h.producer
  have hoffset := h.producer_offset hn hfit
  have hlt : s.sent.length % n < n := Nat.mod_lt _ (by omega)
  rw [h.isFull_iff hn] at hfull
  refine ⟨h.queueSize, ?_, h.consumer, ?_, ?_, ?_, ?_⟩
  · rw [List.length_append, List.length_singleton]
    exact toNat_shmQueueNextPos (by omega) h.queueSize h.producer
  · simp only [List.length_append]
    omega
  · simp only [List.length_append, List.length_singleton]
    omega
  · intro x hx
    rcases List.mem_append.mp hx with hold | hnew
    · exact h.sizes x hold
    · rw [List.mem_singleton] at hnew
      exact hnew ▸ hm
  · intro k hk hklt
    simp only at hk hklt
    rw [List.length_append, List.length_singleton] at hklt
    by_cases hlast : k = s.sent.length
    · subst hlast
      have hbase : slotBase n s.sent.length = slotOffset s.shm.producerPos := by
        rw [slotBase, hoffset, h.producer]
      simp only [List.getElem_concat_length]
      refine ⟨fun j hj => ?_, fun i hi _ => ?_⟩
      · rw [hbase]
        exact putMessage_size hj
      · rw [hbase]
        exact putMessage_body hi
    · have hkold : k < s.sent.length := by omega
      have hne : k % n ≠ s.sent.length % n := fun heq =>
        hlast (eq_of_mod_eq_of_window s.received.length hk (by omega) hle hroom heq)
      have hnext : k % n ≠ s.sent.length % n + 1 := by
        intro heq
        have hwrap : k % n = (s.sent.length + 1) % n := by
          rw [← Nat.mod_add_mod, ← heq, Nat.mod_mod]
        have hk' := eq_of_mod_eq_of_window s.received.length hk (by omega) (by omega)
          (by omega) hwrap
        omega
      have hstored := (h.stored k hk hkold).putMessage hm hoffset (by omega) (by omega)
        (by omega) Or.inr
      simp only [List.getElem_append_left hkold]
      refine ⟨hstored.size, fun i hi hpart => hstored.body i hi (hpart.imp id ?_)⟩
      intro hwhole
      rw [List.length_append, List.length_singleton] at hwhole
      exact hwhole.resolve_left (by omega)

theorem consumer_base (h : ChannelInv n s) (hfit : n ≤ 2 ^ 16) (hn : 2 ≤ n) :
    slotOffset s.shm.consumerPos = slotBase n s.received.length := by
  have hlt : s.received.length % n < n := Nat.mod_lt _ (by omega)
  rw [slotOffset_eq (by rw [h.consumer]; omega), h.consumer, slotBase]

/-- The size field at the consumer's slot is that of the next message to take. -/
theorem storedSize_eq (h : ChannelInv n s)
    (hlt : s.received.length < s.sent.length) :
    (readWord s.shm.data (slotBase n s.received.length)).toNat =
      s.sent[s.received.length].length := by
  have hstored := h.stored _ le_rfl hlt
  have hsize := h.sizes _ (List.getElem_mem hlt)
  rw [maxTaskDataSize] at hsize
  rw [readWord_eq hstored.size, UInt32.toNat_ofNat', Nat.mod_eq_of_lt (by omega)]

/-- The bytes of a message behind its slot are the first bytes of the next slot. -/
theorem tail_eq (h : ChannelInv n s) {k i : ℕ} (hk : s.received.length ≤ k)
    (hnext : k + 1 < s.sent.length) (hslot : k % n + 1 < n)
    (hi : i < (wordBytes (UInt32.ofNat s.sent[k + 1].length)).length) :
    s.shm.data (slotBase n k + 4 + (slotRoom + i)) =
      (wordBytes (UInt32.ofNat s.sent[k + 1].length))[i] := by
  have hmod : (k + 1) % n = k % n + 1 := by
    rw [← Nat.mod_add_mod, Nat.mod_eq_of_lt hslot]
  have haddress : slotBase n k + 4 + (slotRoom + i) = slotBase n (k + 1) + i := by
    rw [slotBase, slotBase, hmod, slotRoom, maxTaskDataSize]
    omega
  rw [haddress]
  exact (h.stored (k + 1) (by omega) hnext).size i hi

/-- What the consumer would copy is the next message exactly when the bytes that
did not fit are still those of the message. -/
theorem readBytes_eq_iff (h : ChannelInv n s) (hn : 2 ≤ n)
    (hlt : s.received.length < s.sent.length) :
    readBytes s.shm.data (slotBase n s.received.length + 4)
        s.sent[s.received.length].length = s.sent[s.received.length] ↔
      ∀ next, s.sent[s.received.length + 1]? = some next →
        s.received.length % n + 1 < n →
        s.sent[s.received.length].drop slotRoom =
          (wordBytes (UInt32.ofNat next.length)).take
            (s.sent[s.received.length].length - slotRoom) := by
  have hstored := h.stored _ le_rfl hlt
  have hsize := h.sizes _ (List.getElem_mem hlt)
  have hfour : s.sent[s.received.length].length ≤ slotRoom + 4 := by
    rw [slotRoom]
    rw [maxTaskDataSize] at *
    omega
  rw [ByteMemory.readBytes_eq_iff]
  constructor
  · intro hall next hnext hslot
    obtain ⟨hnextlt, rfl⟩ := List.getElem?_eq_some_iff.mp hnext
    apply List.ext_getElem
    · rw [List.length_drop, List.length_take, length_wordBytes]
      omega
    · intro i hi _
      rw [List.length_drop] at hi
      rw [List.getElem_drop, List.getElem_take, ← hall (slotRoom + i) (by omega)]
      exact h.tail_eq le_rfl hnextlt hslot (by rw [length_wordBytes]; omega)
  · intro htail i hi
    by_cases hfits : i < slotRoom
    · exact hstored.body i hi (Or.inl hfits)
    by_cases hwhole : s.received.length + 1 = s.sent.length ∨ s.received.length % n + 1 = n
    · exact hstored.body i hi (Or.inr hwhole)
    · rw [not_or] at hwhole
      have hmod := Nat.mod_lt s.received.length (show 0 < n by omega)
      have hnextlt : s.received.length + 1 < s.sent.length := by omega
      have heq := htail _ (List.getElem?_eq_getElem hnextlt) (by omega)
      have hbyte := h.tail_eq (i := i - slotRoom) le_rfl hnextlt (by omega)
        (by rw [length_wordBytes]; omega)
      have hindex : slotRoom + (i - slotRoom) = i := Nat.add_sub_cancel' (by omega)
      rw [hindex] at hbyte
      rw [hbyte]
      have hdrop := List.getElem_of_eq heq (i := i - slotRoom)
        (by rw [List.length_drop]; omega)
      simp only [List.getElem_drop, List.getElem_take, hindex] at hdrop
      rw [hdrop]

theorem getMessage_eq (h : ChannelInv n s) (hn : 2 ≤ n) (hfit : n ≤ 2 ^ 16)
    (hlt : s.received.length < s.sent.length) (bufSize : ℕ) :
    getMessage s.shm bufSize =
      if s.sent[s.received.length].length > bufSize then
        (⟨-1, none, s.sent[s.received.length].length⟩, s.shm)
      else
        (⟨0, some (readBytes s.shm.data (slotBase n s.received.length + 4)
            s.sent[s.received.length].length), s.sent[s.received.length].length⟩,
          { s.shm with
            consumerPos := shmQueueNextPos s.shm.consumerPos s.shm.queueSize }) := by
  rw [getMessage]
  simp only [h.consumer_base hfit hn, h.storedSize_eq hlt]

theorem getMessage (h : ChannelInv n s) (hn : 2 ≤ n) (hfit : n ≤ 2 ^ 16)
    (hempty : ¬ shmQueueIsEmpty s.shm = true) (bufSize : ℕ) :
    ChannelInv n (s.dequeued (ModernPool.getMessage s.shm bufSize)) := by
  have hle := h.le
  have hroom := h.room
  rw [h.isEmpty_iff] at hempty
  have hlt : s.received.length < s.sent.length := by omega
  rw [h.getMessage_eq hn hfit hlt]
  split_ifs
  · rw [Channel.dequeued, Option.toList_none, List.append_nil]
    exact h
  · refine ⟨h.queueSize, h.producer, ?_, ?_, ?_, h.sizes, ?_⟩
    · simp only [Channel.dequeued, Option.toList_some, List.length_append,
        List.length_singleton]
      exact toNat_shmQueueNextPos (by omega) h.queueSize h.consumer
    · simp only [Channel.dequeued, Option.toList_some, List.length_append,
        List.length_singleton]
      omega
    · simp only [Channel.dequeued, Option.toList_some, List.length_append,
        List.length_singleton]
      omega
    · intro k hk hklt
      simp only [Channel.dequeued, Option.toList_some, List.length_append,
        List.length_singleton] at hk
      exact h.stored k (by omega) hklt

theorem failed_dequeue (h : ChannelInv n s) (err : ℤ) (size : ℕ) :
    ChannelInv n (s.dequeued (⟨err, none, size⟩, s.shm)) := by
  rw [Channel.dequeued, Option.toList_none, List.append_nil]
  exact h

theorem step (h : ChannelInv n s) (hn : 2 ≤ n) (hfit : n ≤ 2 ^ 16) {t : Channel}
    {l : ShmCall} (hstep : s.step l = some t) : ChannelInv n t := by
  cases l with
  | enqueue m =>
      simp only [Channel.step, shmQueueEnqueue] at hstep
      split_ifs at hstep with hsize hfull
      · obtain rfl := Option.some.inj hstep
        exact h
      · cases hstep
      · obtain rfl := Option.some.inj hstep
        simp only [validSize, Bool.and_eq_false_iff, decide_eq_false_iff_not] at hsize
        exact h.putMessage hn hfit hfull (not_lt.mp fun hm => hsize (Or.inr hm.not_ge))
  | tryEnqueue m locked =>
      simp only [Channel.step, shmQueueTryEnqueue, Option.some.injEq] at hstep
      split_ifs at hstep with hsize hlocked hfull <;> obtain rfl := hstep
      · exact h
      · exact h
      · exact h
      · simp only [validSize, Bool.and_eq_false_iff, decide_eq_false_iff_not] at hsize
        exact h.putMessage hn hfit hfull (not_lt.mp fun hm => hsize (Or.inr hm.not_ge))
  | dequeue bufSize timeoutMs =>
      simp only [Channel.step, shmQueueDequeue] at hstep
      split_ifs at hstep with hempty htimeout
      · cases hstep
      · obtain rfl := Option.some.inj hstep
        exact h.failed_dequeue _ _
      · obtain rfl := Option.some.inj hstep
        exact h.getMessage hn hfit hempty bufSize
  | tryDequeue bufSize locked =>
      simp only [Channel.step, shmQueueTryDequeue, Option.some.injEq] at hstep
      split_ifs at hstep with hlocked hempty <;> obtain rfl := hstep
      · exact h.failed_dequeue _ _
      · exact h.failed_dequeue _ _
      · exact h.getMessage hn hfit hempty bufSize

theorem prefix_snoc_iff (hreceived : s.received <+: s.sent)
    (hlt : s.received.length < s.sent.length) (m : List UInt8) :
    s.received ++ [m] <+: s.sent ↔ m = s.sent[s.received.length] := by
  rw [List.prefix_iff_eq_take] at hreceived
  rw [List.prefix_iff_eq_take, List.length_append, List.length_singleton,
    List.take_succ_eq_append_getElem hlt, ← hreceived, List.append_cancel_left_eq,
    List.cons.injEq]
  exact and_iff_left rfl

/-- A dequeue on a queue that is not empty keeps the order of delivery exactly when
the message it takes, if it takes one, is undisturbed. -/
theorem getMessage_delivers_iff (h : ChannelInv n s) (hn : 2 ≤ n) (hfit : n ≤ 2 ^ 16)
    (hreceived : s.received <+: s.sent) (hempty : ¬ shmQueueIsEmpty s.shm = true)
    (bufSize : ℕ) {l : ShmCall} (hl : l.takes = some bufSize) :
    (s.dequeued (ModernPool.getMessage s.shm bufSize)).received <+: s.sent ↔
      Undisturbed s l := by
  have hle := h.le
  rw [h.isEmpty_iff] at hempty
  have hlt : s.received.length < s.sent.length := by omega
  rw [h.getMessage_eq hn hfit hlt]
  split_ifs with hbig
  · rw [Channel.dequeued, Option.toList_none, List.append_nil]
    refine iff_of_true hreceived fun buf m next hbuf hm hsmall => ?_
    rw [hl] at hbuf
    obtain rfl := Option.some.inj hbuf
    rw [List.getElem?_eq_getElem hlt] at hm
    obtain rfl := Option.some.inj hm
    omega
  · rw [Channel.dequeued, Option.toList_some, prefix_snoc_iff hreceived hlt,
      h.readBytes_eq_iff hn hlt]
    constructor
    · intro hall buf m next _ hm _ hnext hslot
      rw [List.getElem?_eq_getElem hlt] at hm
      obtain rfl := Option.some.inj hm
      rw [h.consumer, h.queueSize] at hslot
      exact hall next hnext hslot
    · intro hundisturbed next hnext hslot
      exact hundisturbed bufSize _ next hl (List.getElem?_eq_getElem hlt) (by omega) hnext
        (by rw [h.consumer, h.queueSize]; exact hslot)

theorem undisturbed_of_takes_none {l : ShmCall} (hl : l.takes = none) : Undisturbed s l := by
  intro bufSize m next hbuf
  rw [hl] at hbuf
  cases hbuf

theorem undisturbed_of_isEmpty (h : ChannelInv n s) (hempty : shmQueueIsEmpty s.shm = true)
    (l : ShmCall) : Undisturbed s l := by
  intro bufSize m next _ hm
  rw [h.isEmpty_iff] at hempty
  rw [List.getElem?_eq_none hempty.ge] at hm
  cases hm

theorem received_prefix_enqueued (hreceived : s.received <+: s.sent) (m : List UInt8)
    (r : ℤ × Shm) : (s.enqueued m r).received <+: (s.enqueued m r).sent := by
  simp only [Channel.enqueued]
  split_ifs
  · exact hreceived.trans (List.prefix_append _ _)
  · exact hreceived

theorem delivers_iff (h : ChannelInv n s) (hn : 2 ≤ n) (hfit : n ≤ 2 ^ 16)
    (hreceived : s.received <+: s.sent) {t : Channel} {l : ShmCall}
    (hstep : s.step l = some t) : Delivers s l t ↔ Undisturbed s l := by
  have hfailed : ∀ (err : ℤ) (size : ℕ),
      (s.dequeued (⟨err, none, size⟩, s.shm)).received <+: s.sent := by
    intro err size
    rw [Channel.dequeued, Option.toList_none, List.append_nil]
    exact hreceived
  cases l with
  | enqueue m =>
      simp only [Channel.step, Option.map_eq_some_iff] at hstep
      obtain ⟨r, -, rfl⟩ := hstep
      exact iff_of_true (received_prefix_enqueued hreceived m r) (undisturbed_of_takes_none rfl)
  | tryEnqueue m locked =>
      simp only [Channel.step, Option.some.injEq] at hstep
      subst hstep
      exact iff_of_true (received_prefix_enqueued hreceived m _) (undisturbed_of_takes_none rfl)
  | dequeue bufSize timeoutMs =>
      simp only [Channel.step, shmQueueDequeue] at hstep
      split_ifs at hstep with hempty htimeout
      · cases hstep
      · obtain rfl := Option.some.inj hstep
        exact iff_of_true (hfailed _ _) (h.undisturbed_of_isEmpty hempty _)
      · obtain rfl := Option.some.inj hstep
        exact h.getMessage_delivers_iff hn hfit hreceived hempty bufSize rfl
  | tryDequeue bufSize locked =>
      simp only [Channel.step, shmQueueTryDequeue, Option.some.injEq] at hstep
      split_ifs at hstep with hlocked hempty <;> obtain rfl := hstep
      · subst hlocked
        exact iff_of_true (hfailed _ _) (undisturbed_of_takes_none rfl)
      · exact iff_of_true (hfailed _ _) (h.undisturbed_of_isEmpty hempty _)
      · rw [Bool.not_eq_false] at hlocked
        subst hlocked
        exact h.getMessage_delivers_iff hn hfit hreceived hempty bufSize rfl

/-- Messages that fit their slot behind the size field are never disturbed. -/
theorem undisturbed_of_fits (hfits : ∀ m ∈ s.sent, m.length ≤ slotRoom) (l : ShmCall) :
    Undisturbed s l := by
  intro bufSize m next _ hm _ _ _
  have hlength := hfits m (List.mem_of_getElem? hm)
  rw [List.drop_eq_nil_of_le hlength, Nat.sub_eq_zero_of_le hlength, List.take_zero]

end

end ChannelInv

/-- On a queue of at least two slots whose offsets fit in 32 bits, a run delivers
every message byte for byte and in order exactly when no message is taken after the
next enqueue has changed it. -/
theorem delivery_iff {queueSize : UInt32} (hn : 2 ≤ queueSize.toNat)
    (hfit : queueSize.toNat ≤ 2 ^ 16) (data : ℕ → UInt8) (ls : List ShmCall) (s : Channel) :
    Transition.Run ((channel queueSize data).filter Delivers)
        ⟨Shm.start queueSize data, [], []⟩ ls s ↔
      Transition.Run ((channel queueSize data).restrict Undisturbed)
        ⟨Shm.start queueSize data, [], []⟩ ls s := by
  apply Transition.run_filter_iff_restrict
    (I := fun s => ChannelInv queueSize.toNat s ∧ s.received <+: s.sent)
  · intro s l t h hl hstep
    exact ⟨h.1.step hn hfit hstep, (h.1.delivers_iff hn hfit h.2 hstep).mpr hl⟩
  · intro s l t h hstep
    exact h.1.delivers_iff hn hfit h.2 hstep
  · exact ⟨ChannelInv.start (by omega) data, List.nil_prefix⟩

theorem delivery_two_slots : ∃ s : Channel,
    Transition.Run ((channel 2 fun _ => 0).filter Delivers) ⟨Shm.start 2 fun _ => 0, [], []⟩
      [.enqueue [7, 8], .dequeue 16 0] s ∧ s.received = [[7, 8]] := by
  refine ⟨_, (delivery_iff (by decide) (by decide) _ _ _).mpr
    (.cons ⟨?_, rfl⟩ (.cons ⟨?_, rfl⟩ (.nil _))), rfl⟩
  · exact ChannelInv.undisturbed_of_fits (by simp) _
  · exact ChannelInv.undisturbed_of_fits (by decide) _

/-- A message of `MAX_TASK_DATA_SIZE` zero bytes, and a second message behind it:
its size field is written over the last four bytes of the first. -/
theorem delivery_fails_full_slot : ¬ ∀ s : Channel,
    Transition.Reachable (channel 3 fun _ => 0) s → s.received <+: s.sent := by
  intro hclaim
  let m : List UInt8 := List.replicate maxTaskDataSize 0
  let s₁ : Channel := ⟨putMessage (Shm.start 3 fun _ => 0) m, [m], []⟩
  let s₂ : Channel := ⟨putMessage s₁.shm [1], [m, [1]], []⟩
  have hlength : m.length = maxTaskDataSize := List.length_replicate
  have hvalid : validSize m = true := by
    rw [validSize, hlength]
    decide
  have hfirst : (⟨Shm.start 3 fun _ => 0, [], []⟩ : Channel).step (.enqueue m) = some s₁ := by
    rw [Channel.step, shmQueueEnqueue, hvalid]
    rfl
  have hsecond : s₁.step (.enqueue [1]) = some s₂ := rfl
  have htake : s₂.step (.dequeue maxTaskDataSize 0) =
      some (s₂.dequeued (getMessage s₂.shm maxTaskDataSize)) := rfl
  have hstart : ChannelInv 3 ⟨Shm.start 3 fun _ => 0, [], []⟩ :=
    ChannelInv.start (show 0 < (3 : UInt32).toNat by decide) _
  have hinv : ChannelInv 3 s₂ :=
    (hstart.step (by decide) (by decide) hfirst).step (by decide) (by decide) hsecond
  have hreach : Transition.Reachable (channel 3 fun _ => 0)
      (s₂.dequeued (getMessage s₂.shm maxTaskDataSize)) :=
    ⟨_, _, rfl, .cons hfirst (.cons hsecond (.cons htake (.nil _)))⟩
  have hundisturbed := (hinv.delivers_iff (by decide) (by decide) List.nil_prefix htake).mp
    (hclaim _ hreach)
  have htail := hundisturbed maxTaskDataSize m [1] rfl rfl hlength.le rfl (by decide)
  rw [hlength, List.drop_replicate] at htail
  revert htail
  decide

end ModernPool

end ProcessThreadPool
