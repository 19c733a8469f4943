import ProcessThreadPool.LockfreeQueue.Fifo
import ProcessThreadPool.LockfreeQueue.Spsc

/-!
# The invariant of the two-thread ring queue

Head and tail count the pointers returned and accepted. Between them, the
invariant says how far behind each thread's copy of the other side's counter
may be, and what its call in progress has already done: the slots mirror the
accepted pointers followed by those the producer has written and not published,
read around the ring from the first slot the consumer has not cleared.
-/

namespace ProcessThreadPool

namespace LockfreeQueue

open RingWindow WordMask

/-- What the producer's local state says, when `accepted` pointers have been
published and `returned` taken. Its copy of head may be stale, but the room
computed from it is never more than the real room. -/
def ProducerOk {τ : Type*} (k accepted returned : ℕ) : Producer τ → Prop
  | .idle | .enqueueHead _ => True
  | .enqueueTail _ head =>
      ∃ r ≤ returned, head = UInt32.ofNat r ∧ accepted < r + 2 ^ k
  | .batchHead tasks count => count.toNat ≤ tasks.length
  | .batchTail tasks count head =>
      count.toNat ≤ tasks.length ∧
        ∃ r ≤ returned, head = UInt32.ofNat r ∧ accepted < r + 2 ^ k
  | .write tasks tail toEnqueue i =>
      tail = UInt32.ofNat accepted ∧ i.toNat ≤ toEnqueue.toNat ∧
        toEnqueue.toNat ≤ tasks.length ∧ accepted + toEnqueue.toNat < returned + 2 ^ k

/-- What the consumer's local state says. What it decided to take has been
accepted, and what it holds is the next part of the accepted pointers. -/
def ConsumerOk {τ : Type*} (accepted : List τ) (returned : ℕ) : Consumer τ → Prop
  | .idle | .dequeueHead | .batchHead _ => True
  | .dequeueTail head | .batchTail _ head => head = UInt32.ofNat returned
  | .read head toDequeue i held =>
      head = UInt32.ofNat returned ∧ i.toNat = held.length ∧
        held.length ≤ toDequeue.toNat ∧ returned + toDequeue.toNat ≤ accepted.length ∧
        held = ((accepted.drop returned).take held.length).map some
  | .clear head toDequeue i held task =>
      head = UInt32.ofNat returned ∧ i.toNat = held.length ∧ i < toDequeue ∧
        returned + toDequeue.toNat ≤ accepted.length ∧
        held ++ [task] = ((accepted.drop returned).take (held.length + 1)).map some

/-- The invariant of the system on a ring of `2 ^ k` slots. -/
structure SpscInv {τ : Type*} (k : ℕ) (s : Spsc τ) : Prop where
  mask : IsMask s.queue.mask k
  capacity : s.queue.capacity.toNat = 2 ^ k
  length : s.queue.tasks.length = 2 ^ k
  head : s.queue.head = UInt32.ofNat s.returned.length
  tail : s.queue.tail = UInt32.ofNat s.accepted.length
  le : s.returned.length ≤ s.accepted.length
  room : s.accepted.length < s.returned.length + 2 ^ k
  returned : s.returned = (s.accepted.take s.returned.length).map some
  producer : ProducerOk k s.accepted.length s.returned.length s.producer
  consumer : ConsumerOk s.accepted s.returned.length s.consumer
  slots : RingMirrors (slotAt s.queue.tasks) (2 ^ k)
    (s.returned.length + s.consumer.cleared) (s.accepted ++ s.producer.written)

theorem Represents.spscInv {τ : Type*} {q : Queue τ} {k : ℕ}
    (h : Represents q k 0 []) : SpscInv k (Spsc.start q) where
  mask := h.mask
  capacity := h.capacity
  length := h.length
  head := h.head
  tail := h.tail
  le := le_rfl
  room := h.room
  returned := rfl
  producer := trivial
  consumer := trivial
  slots := h.slots

theorem ProducerOk.mono {τ : Type*} {k accepted returned returned' : ℕ}
    {p : Producer τ} (h : ProducerOk k accepted returned p)
    (hle : returned ≤ returned') : ProducerOk k accepted returned' p := by
  cases p with
  | idle => trivial
  | enqueueHead task => trivial
  | enqueueTail task head =>
      obtain ⟨r, hr, heq, hlt⟩ := h
      exact ⟨r, hr.trans hle, heq, hlt⟩
  | batchHead tasks count => exact h
  | batchTail tasks count head =>
      obtain ⟨hcount, r, hr, heq, hlt⟩ := h
      exact ⟨hcount, r, hr.trans hle, heq, hlt⟩
  | write tasks tail toEnqueue i =>
      obtain ⟨htail, hi, hto, hroom⟩ := h
      exact ⟨htail, hi, hto, by omega⟩

/-- What the producer has published and written is less than a full ring ahead
of what the consumer has returned. -/
theorem ProducerOk.written_lt {τ : Type*} {k accepted returned : ℕ} {p : Producer τ}
    (h : ProducerOk k accepted returned p) (hroom : accepted < returned + 2 ^ k) :
    accepted + p.written.length < returned + 2 ^ k := by
  cases p with
  | write tasks tail toEnqueue i =>
      obtain ⟨-, hi, -, hlt⟩ := h
      rw [Producer.written, List.length_take]
      omega
  | _ => simpa [Producer.written] using hroom

theorem take_drop_append {τ : Type*} {accepted : List τ} {returned n : ℕ}
    (h : returned + n ≤ accepted.length) (batch : List τ) :
    ((accepted ++ batch).drop returned).take n = (accepted.drop returned).take n := by
  rw [List.drop_append_of_le_length (by omega), List.take_append_of_le_length]
  rw [List.length_drop]
  omega

theorem ConsumerOk.append {τ : Type*} {accepted : List τ} {returned : ℕ}
    {c : Consumer τ} (h : ConsumerOk accepted returned c) (batch : List τ) :
    ConsumerOk (accepted ++ batch) returned c := by
  cases c with
  | idle => trivial
  | dequeueHead => trivial
  | dequeueTail head => exact h
  | batchHead maxCount => trivial
  | batchTail maxCount head => exact h
  | read head toDequeue i held =>
      obtain ⟨hhead, hi, hle, hto, hheld⟩ := h
      refine ⟨hhead, hi, hle, ?_, ?_⟩
      · rw [List.length_append]
        omega
      · rw [take_drop_append (by omega)]
        exact hheld
  | clear head toDequeue i held task =>
      obtain ⟨hhead, hi, hlt, hto, hheld⟩ := h
      rw [UInt32.lt_iff_toNat_lt] at hlt
      refine ⟨hhead, hi, UInt32.lt_iff_toNat_lt.mpr hlt, ?_, ?_⟩
      · rw [List.length_append]
        omega
      · rw [take_drop_append (by omega)]
        exact hheld

theorem ConsumerOk.cleared_le {τ : Type*} {accepted : List τ} {returned : ℕ}
    {c : Consumer τ} (h : ConsumerOk accepted returned c)
    (hle : returned ≤ accepted.length) :
    returned + c.cleared ≤ accepted.length := by
  cases c with
  | read head toDequeue i held =>
      obtain ⟨-, -, hheld, hto, -⟩ := h
      simp only [Consumer.cleared]
      omega
  | clear head toDequeue i held task =>
      obtain ⟨-, hi, hlt, hto, -⟩ := h
      rw [UInt32.lt_iff_toNat_lt] at hlt
      simp only [Consumer.cleared]
      omega
  | _ => simpa [Consumer.cleared] using hle

theorem Consumer.cleared_le_holding {τ : Type*} (c : Consumer τ) :
    c.cleared ≤ c.holding.length := by
  cases c <;> simp [Consumer.cleared, Consumer.holding]

namespace SpscInv

/-- The producer moves to a state in which it has written nothing. -/
theorem setProducer {τ : Type*} {k : ℕ} {s : Spsc τ} (h : SpscInv k s)
    (hold : s.producer.written = []) {p : Producer τ}
    (hp : ProducerOk k s.accepted.length s.returned.length p)
    (hnew : p.written = []) : SpscInv k { s with producer := p } where
  mask := h.mask
  capacity := h.capacity
  length := h.length
  head := h.head
  tail := h.tail
  le := h.le
  room := h.room
  returned := h.returned
  producer := hp
  consumer := h.consumer
  slots := by
    have hslots := h.slots
    rw [hold] at hslots
    simp only [hnew]
    exact hslots

/-- The consumer moves to a state in which it has cleared as many slots. -/
theorem setConsumer {τ : Type*} {k : ℕ} {s : Spsc τ} (h : SpscInv k s)
    {c : Consumer τ} (hc : ConsumerOk s.accepted s.returned.length c)
    (hcleared : c.cleared = s.consumer.cleared) : SpscInv k { s with consumer := c } where
  mask := h.mask
  capacity := h.capacity
  length := h.length
  head := h.head
  tail := h.tail
  le := h.le
  room := h.room
  returned := h.returned
  producer := h.producer
  consumer := hc
  slots := by
    have hslots := h.slots
    rw [← hcleared] at hslots
    exact hslots

/-- The slot the producer stores to is that of the next pointer to accept. -/
theorem write_index {τ : Type*} {k : ℕ} {s : Spsc τ} (h : SpscInv k s)
    {tasks : List τ} {tail toEnqueue i : UInt32}
    (hp : s.producer = .write tasks tail toEnqueue i) (hlt : i < toEnqueue) :
    ((tail + i) &&& s.queue.mask).toNat =
        (s.accepted ++ s.producer.written).length % 2 ^ k ∧
      i.toNat < tasks.length ∧
      (s.accepted ++ s.producer.written).length <
        s.returned.length + s.consumer.cleared + 2 ^ k := by
  have hok := h.producer
  rw [hp] at hok
  obtain ⟨htail, -, hto, hroom⟩ := hok
  rw [UInt32.lt_iff_toNat_lt] at hlt
  have hlen : (s.accepted ++ s.producer.written).length =
      s.accepted.length + i.toNat := by
    rw [hp, List.length_append, Producer.written, List.length_take,
      Nat.min_eq_left (by omega)]
  refine ⟨?_, by omega, by omega⟩
  rw [hlen, htail, toNat_ofNat_add_and_mask h.mask]

/-- The slot the consumer reads or clears is the first one it has not cleared. -/
theorem read_index {τ : Type*} {k : ℕ} {s : Spsc τ} (h : SpscInv k s)
    {head i : UInt32} (hhead : head = UInt32.ofNat s.returned.length)
    (hi : i.toNat = s.consumer.cleared) :
    ((head + i) &&& s.queue.mask).toNat =
      (s.returned.length + s.consumer.cleared) % 2 ^ k := by
  rw [hhead, toNat_ofNat_add_and_mask h.mask, hi]

/-- The producer writes one more task of its batch. -/
theorem writeTask {τ : Type*} {k : ℕ} {s : Spsc τ} (h : SpscInv k s)
    {tasks : List τ} {tail toEnqueue i : UInt32}
    (hp : s.producer = .write tasks tail toEnqueue i) (hlt : i < toEnqueue) :
    SpscInv k { s with
      queue := { s.queue with
        tasks := s.queue.tasks.set ((tail + i) &&& s.queue.mask).toNat tasks[i.toNat]? }
      producer := .write tasks tail toEnqueue (i + 1) } := by
  obtain ⟨hindex, hi, hfree⟩ := h.write_index hp hlt
  have hnext := toNat_add_one_of_lt hlt
  have hin : ((tail + i) &&& s.queue.mask).toNat < s.queue.tasks.length := by
    rw [hindex, h.length]
    exact Nat.mod_lt _ (Nat.two_pow_pos k)
  have hwrite := h.slots.write
    ((h.consumer.cleared_le h.le).trans (by simp)) hfree tasks[i.toNat]
  rw [← hindex, ← slotAt_set hin, List.append_assoc, hp, Producer.written,
    ← List.take_succ_eq_append_getElem hi] at hwrite
  have hok := h.producer
  rw [hp] at hok
  obtain ⟨htail, -, hto, hroom⟩ := hok
  refine { h with length := ?_, producer := ⟨htail, ?_, hto, hroom⟩, slots := ?_ }
  · simpa using h.length
  · rw [UInt32.lt_iff_toNat_lt] at hlt
    omega
  · simp only [Producer.written, hnext, List.getElem?_eq_getElem hi]
    exact hwrite

/-- The producer publishes the tasks it has written. -/
theorem storeTail {τ : Type*} {k : ℕ} {s : Spsc τ} (h : SpscInv k s)
    {tasks : List τ} {tail toEnqueue i : UInt32}
    (hp : s.producer = .write tasks tail toEnqueue i) (hge : ¬ i < toEnqueue) :
    SpscInv k { s with
      queue := { s.queue with tail := tail + toEnqueue }
      producer := .idle
      accepted := s.accepted ++ tasks.take toEnqueue.toNat } := by
  have hok := h.producer
  rw [hp] at hok
  obtain ⟨htail, hle, hto, hroom⟩ := hok
  rw [UInt32.lt_iff_toNat_lt] at hge
  have hall : i.toNat = toEnqueue.toNat := by omega
  have hlen : (s.accepted ++ tasks.take toEnqueue.toNat).length =
      s.accepted.length + toEnqueue.toNat := by
    rw [List.length_append, List.length_take, Nat.min_eq_left hto]
  have hold := h.le
  refine { h with
    tail := ?_
    le := ?_
    room := ?_
    returned := ?_
    producer := trivial
    consumer := h.consumer.append _
    slots := ?_ }
  · simp only
    rw [hlen, htail, UInt32.ofNat_add, UInt32.ofNat_toNat]
  · simp only
    omega
  · simp only
    omega
  · simp only
    rw [List.take_append_of_le_length hold]
    exact h.returned
  · have hslots := h.slots
    rw [hp, Producer.written, hall] at hslots
    simpa [Producer.written] using hslots

theorem producerStep {τ : Type*} {k : ℕ} {s t : Spsc τ} (h : SpscInv k s)
    (hstep : LockfreeQueue.producerStep s = some t) : SpscInv k t := by
  unfold LockfreeQueue.producerStep at hstep
  have hok := h.producer
  cases hp : s.producer with
  | idle => simp [hp] at hstep
  | enqueueHead task =>
      simp only [hp, Option.some.injEq] at hstep
      subst hstep
      exact h.setProducer (by simp [hp, Producer.written])
        ⟨_, le_rfl, h.head, h.room⟩ rfl
  | enqueueTail task head =>
      rw [hp] at hok
      obtain ⟨r, hr, rfl, hroom⟩ := hok
      simp only [hp, h.tail, add_one_and_mask_eq_iff h.mask (hr.trans h.le) hroom]
        at hstep
      split_ifs at hstep with hfull <;> obtain rfl := Option.some.inj hstep
      · exact h.setProducer (by simp [hp, Producer.written]) trivial rfl
      · refine h.setProducer (by simp [hp, Producer.written])
          ⟨rfl, Nat.zero_le _, le_rfl, ?_⟩ rfl
        rw [UInt32.toNat_one]
        omega
  | batchHead tasks count =>
      rw [hp] at hok
      simp only [hp, Option.some.injEq] at hstep
      subst hstep
      exact h.setProducer (by simp [hp, Producer.written])
        ⟨hok, _, le_rfl, h.head, h.room⟩ rfl
  | batchTail tasks count head =>
      rw [hp] at hok
      obtain ⟨hcount, r, hr, rfl, hroom⟩ := hok
      simp only [hp] at hstep
      generalize hto : (if count < _ then count else _ : UInt32) = toEnqueue at hstep
      have hmin := congrArg UInt32.toNat hto
      rw [toNat_ite_lt, h.tail,
        toNat_room h.mask h.capacity (hr.trans h.le) hroom] at hmin
      split_ifs at hstep with hzero <;> obtain rfl := Option.some.inj hstep
      · exact h.setProducer (by simp [hp, Producer.written]) trivial rfl
      · exact h.setProducer (by simp [hp, Producer.written])
          ⟨h.tail, Nat.zero_le _, by omega, by omega⟩ rfl
  | write tasks tail toEnqueue i =>
      simp only [hp] at hstep
      split_ifs at hstep with hlt <;> obtain rfl := Option.some.inj hstep
      · exact h.writeTask hp hlt
      · exact h.storeTail hp hlt

/-- The consumer reads the next task of its batch. -/
theorem readTask {τ : Type*} {k : ℕ} {s : Spsc τ} (h : SpscInv k s)
    {head toDequeue i : UInt32} {held : List (Option τ)}
    (hc : s.consumer = .read head toDequeue i held) (hlt : i < toDequeue) :
    SpscInv k { s with
      consumer := .clear head toDequeue i held
        (slotAt s.queue.tasks ((head + i) &&& s.queue.mask).toNat) } := by
  have hok := h.consumer
  rw [hc] at hok
  obtain ⟨hhead, hi, -, hto, hheld⟩ := hok
  have hcleared : s.consumer.cleared = held.length := by rw [hc]; rfl
  have hindex := h.read_index hhead (hi.trans hcleared.symm)
  have hnat := UInt32.lt_iff_toNat_lt.mp hlt
  have hin : s.returned.length + held.length < s.accepted.length := by omega
  have hread := h.slots.read (Nat.two_pow_pos k)
  rw [← hindex, hcleared, List.getElem?_append_left hin,
    List.getElem?_eq_getElem hin] at hread
  refine h.setConsumer ⟨hhead, hi, hlt, hto, ?_⟩ hcleared.symm
  rw [hread, List.take_succ_eq_append_getElem (by rw [List.length_drop]; omega),
    List.map_append, ← hheld, List.getElem_drop]
  rfl

/-- The consumer clears the slot it has just read. -/
theorem clearTask {τ : Type*} {k : ℕ} {s : Spsc τ} (h : SpscInv k s)
    {head toDequeue i : UInt32} {held : List (Option τ)} {task : Option τ}
    (hc : s.consumer = .clear head toDequeue i held task) :
    SpscInv k { s with
      queue := { s.queue with
        tasks := s.queue.tasks.set ((head + i) &&& s.queue.mask).toNat none }
      consumer := .read head toDequeue (i + 1) (held ++ [task]) } := by
  have hok := h.consumer
  have hle := h.le
  rw [hc] at hok
  obtain ⟨hhead, hi, hlt, hto, hheld⟩ := hok
  have hcleared : s.consumer.cleared = held.length := by rw [hc]; rfl
  have hindex := h.read_index hhead (hi.trans hcleared.symm)
  have hin : ((head + i) &&& s.queue.mask).toNat < s.queue.tasks.length := by
    rw [hindex, h.length]
    exact Nat.mod_lt _ (Nat.two_pow_pos k)
  have hnat := UInt32.lt_iff_toNat_lt.mp hlt
  have hhist := h.producer.written_lt h.room
  rw [← List.length_append] at hhist
  have hclear := h.slots.clear (Nat.two_pow_pos k) (by omega)
  rw [← hindex, ← slotAt_set hin, hcleared] at hclear
  refine { h with length := ?_, consumer := ⟨hhead, ?_, ?_, hto, ?_⟩, slots := ?_ }
  · simpa using h.length
  · rw [toNat_add_one_of_lt hlt, List.length_append, List.length_singleton, hi]
  · rw [List.length_append, List.length_singleton]
    omega
  · rw [List.length_append, List.length_singleton]
    exact hheld
  · simp only [Consumer.cleared, List.length_append, List.length_singleton]
    exact hclear

/-- The consumer publishes the new head and returns what it holds. -/
theorem storeHead {τ : Type*} {k : ℕ} {s : Spsc τ} (h : SpscInv k s)
    {head toDequeue i : UInt32} {held : List (Option τ)}
    (hc : s.consumer = .read head toDequeue i held) (hge : ¬ i < toDequeue) :
    SpscInv k { s with
      queue := { s.queue with head := head + toDequeue }
      consumer := .idle
      returned := s.returned ++ held } := by
  have hok := h.consumer
  have hroom := h.room
  rw [hc] at hok
  obtain ⟨hhead, hi, hheldle, hto, hheld⟩ := hok
  have hall : held.length = toDequeue.toNat := by
    rw [UInt32.lt_iff_toNat_lt] at hge
    omega
  have hlen : (s.returned ++ held).length = s.returned.length + toDequeue.toNat := by
    rw [List.length_append, hall]
  refine { h with
    head := ?_
    le := ?_
    room := ?_
    returned := ?_
    producer := h.producer.mono ?_
    consumer := trivial
    slots := ?_ }
  · simp only
    rw [hlen, hhead, UInt32.ofNat_add, UInt32.ofNat_toNat]
  · simp only
    omega
  · simp only
    omega
  · simp only
    rw [hlen, List.take_add, List.map_append, ← h.returned, ← hall, ← hheld]
  · simp only
    omega
  · have hslots := h.slots
    rw [hc] at hslots
    simp only [Consumer.cleared, Nat.add_zero] at hslots ⊢
    rw [hlen, ← hall]
    exact hslots

theorem consumerStep {τ : Type*} {k : ℕ} {s t : Spsc τ} (h : SpscInv k s)
    (hstep : LockfreeQueue.consumerStep s = some t) : SpscInv k t := by
  unfold LockfreeQueue.consumerStep at hstep
  have hok := h.consumer
  have hle := h.le
  have hroom := h.room
  cases hc : s.consumer with
  | idle => simp [hc] at hstep
  | dequeueHead =>
      simp only [hc, Option.some.injEq] at hstep
      subst hstep
      exact h.setConsumer h.head (by rw [hc]; rfl)
  | dequeueTail head =>
      rw [hc] at hok
      obtain rfl : head = UInt32.ofNat s.returned.length := hok
      simp only [hc, h.tail, and_mask_eq_iff_eq h.mask h.le h.room] at hstep
      split_ifs at hstep with hempty <;> obtain rfl := Option.some.inj hstep
      · exact h.setConsumer trivial (by rw [hc]; rfl)
      · refine h.setConsumer ⟨rfl, rfl, Nat.zero_le _, ?_, by simp⟩ (by rw [hc]; rfl)
        rw [UInt32.toNat_one]
        omega
  | batchHead maxCount =>
      simp only [hc, Option.some.injEq] at hstep
      subst hstep
      exact h.setConsumer h.head (by rw [hc]; rfl)
  | batchTail maxCount head =>
      rw [hc] at hok
      obtain rfl : head = UInt32.ofNat s.returned.length := hok
      simp only [hc] at hstep
      generalize hto : (if maxCount < _ then maxCount else _ : UInt32) = toDequeue
        at hstep
      have hmin := congrArg UInt32.toNat hto
      rw [toNat_ite_lt, h.tail, toNat_sub_and_mask h.mask h.le (by omega)] at hmin
      split_ifs at hstep with hzero <;> obtain rfl := Option.some.inj hstep
      · exact h.setConsumer trivial (by rw [hc]; rfl)
      · exact h.setConsumer ⟨rfl, rfl, Nat.zero_le _, by omega, by simp⟩
          (by rw [hc]; rfl)
  | read head toDequeue i held =>
      simp only [hc] at hstep
      split_ifs at hstep with hlt <;> obtain rfl := Option.some.inj hstep
      · exact h.readTask hc hlt
      · exact h.storeHead hc hlt
  | clear head toDequeue i held task =>
      simp only [hc, Option.some.injEq] at hstep
      subst hstep
      exact h.clearTask hc

theorem step {τ : Type*} {k : ℕ} {s t : Spsc τ} {l : Access τ} (h : SpscInv k s)
    (hstep : s.step l = some t) : SpscInv k t := by
  cases l with
  | enqueue task =>
      cases hp : s.producer <;> simp only [Spsc.step, hp, Option.some.injEq,
        reduceCtorEq] at hstep
      subst hstep
      exact h.setProducer (by simp [hp, Producer.written]) trivial rfl
  | enqueueBatch tasks count =>
      cases hp : s.producer <;> simp only [Spsc.step, hp, reduceCtorEq] at hstep
      split_ifs at hstep with hlong hzero
      · obtain rfl := Option.some.inj hstep
        exact h
      · obtain rfl := Option.some.inj hstep
        exact h.setProducer (by simp [hp, Producer.written]) (not_lt.mp hlong) rfl
  | producer => exact h.producerStep hstep
  | dequeue =>
      cases hc : s.consumer <;> simp only [Spsc.step, hc, Option.some.injEq,
        reduceCtorEq] at hstep
      subst hstep
      exact h.setConsumer trivial (by rw [hc]; rfl)
  | dequeueBatch maxCount =>
      cases hc : s.consumer <;> simp only [Spsc.step, hc, reduceCtorEq] at hstep
      split_ifs at hstep with hzero
      · obtain rfl := Option.some.inj hstep
        exact h
      · obtain rfl := Option.some.inj hstep
        exact h.setConsumer trivial (by rw [hc]; rfl)
  | consumer => exact h.consumerStep hstep

theorem inductive_spsc {τ : Type*} {k : ℕ} {q : Queue τ} (h : Represents q k 0 []) :
    Transition.Inductive (spsc q) (SpscInv k) where
  init := by
    rintro s rfl
    exact h.spscInv
  step := fun _ _ _ hinv hstep => hinv.step hstep

theorem returned_prefix {τ : Type*} {k : ℕ} {s : Spsc τ} (h : SpscInv k s) :
    s.returned <+: s.accepted.map some := by
  rw [h.returned]
  exact (List.take_prefix _ _).map some

/-- A published pointer that the consumer has not cleared is in its slot. -/
theorem slot_eq {τ : Type*} {k : ℕ} {s : Spsc τ} (h : SpscInv k s) {j : ℕ}
    (hle : s.returned.length + s.consumer.cleared ≤ j) (hlt : j < s.accepted.length) :
    slotAt s.queue.tasks (j % 2 ^ k) = some s.accepted[j] := by
  have hroom := h.room
  rw [h.slots j hle (by omega), List.getElem?_append_left hlt,
    List.getElem?_eq_getElem hlt]

theorem holding_eq {τ : Type*} {k : ℕ} {s : Spsc τ} (h : SpscInv k s) :
    s.consumer.holding =
      ((s.accepted.drop s.returned.length).take s.consumer.holding.length).map some := by
  have hok := h.consumer
  cases hc : s.consumer with
  | read head toDequeue i held =>
      rw [hc] at hok
      exact hok.2.2.2.2
  | clear head toDequeue i held task =>
      rw [hc] at hok
      simpa [Consumer.holding] using hok.2.2.2.2
  | _ => rfl

theorem slot_or_held {τ : Type*} {k : ℕ} {s : Spsc τ} (h : SpscInv k s) {j : ℕ}
    (hle : s.returned.length ≤ j) (hlt : j < s.accepted.length) :
    slotAt s.queue.tasks (j % 2 ^ k) = some s.accepted[j] ∨
      s.consumer.holding[j - s.returned.length]? = some (some s.accepted[j]) := by
  by_cases hcleared : s.returned.length + s.consumer.cleared ≤ j
  · exact Or.inl (h.slot_eq hcleared hlt)
  · have hmore := s.consumer.cleared_le_holding
    rw [h.holding_eq, List.getElem?_map, List.getElem?_take_of_lt (by omega),
      List.getElem?_drop, Nat.add_sub_cancel' hle, List.getElem?_eq_getElem hlt]
    exact Or.inr rfl

/-- The slot of the producer's next store is empty, hence not that of an unread
pointer. -/
theorem writesSlot_free {τ : Type*} {k : ℕ} {s : Spsc τ} (h : SpscInv k s) {x : ℕ}
    (hx : writesSlot s = some x) : slotAt s.queue.tasks x = none := by
  cases hp : s.producer with
  | write tasks tail toEnqueue i =>
      simp only [writesSlot, hp] at hx
      split_ifs at hx with hlt
      obtain ⟨hindex, -, hroom⟩ := h.write_index hp hlt
      obtain rfl := Option.some.inj hx
      rw [hindex]
      exact h.slots.next_eq_none ((h.consumer.cleared_le h.le).trans (by simp)) hroom
  | _ => simp [writesSlot, hp] at hx

/-- The slot of the consumer's next read holds a published pointer. -/
theorem readsSlot_published {τ : Type*} {k : ℕ} {s : Spsc τ} (h : SpscInv k s) {x : ℕ}
    (hx : readsSlot s = some x) : ∃ j, s.returned.length ≤ j ∧
      ∃ hj : j < s.accepted.length, x = j % 2 ^ k ∧
        slotAt s.queue.tasks x = some s.accepted[j] := by
  have hok := h.consumer
  cases hc : s.consumer with
  | read head toDequeue i held =>
      rw [hc] at hok
      obtain ⟨hhead, hi, -, hto, -⟩ := hok
      have hcleared : s.consumer.cleared = held.length := by rw [hc]; rfl
      simp only [readsSlot, hc] at hx
      split_ifs at hx with hlt
      obtain rfl := Option.some.inj hx
      rw [UInt32.lt_iff_toNat_lt] at hlt
      have hindex := h.read_index hhead (hi.trans hcleared.symm)
      refine ⟨_, Nat.le_add_right _ s.consumer.cleared, by omega, hindex, ?_⟩
      rw [hindex, h.slot_eq le_rfl (by omega)]
  | _ => simp [readsSlot, hc] at hx

end SpscInv

/-- One producer and one consumer on a queue of `2 ^ k` slots, interleaved at
every access. The returned pointers are a prefix of the accepted ones, a pointer
in between is in its slot or held by the consumer's call in progress, the
producer stores only to slots without an unread pointer, and the consumer reads
only slots that hold a published one. -/
theorem spsc_fifo {τ : Type*} {isPowerOf2 : UInt32 → Bool}
    {nextPowerOf2 : UInt32 → UInt32} {allocQueue allocTasks : Bool}
    {requested : UInt32} {q : Queue τ} {k : ℕ}
    (hcreate : queueCreate isPowerOf2 nextPowerOf2 allocQueue allocTasks requested =
      some q) (hcap : q.capacity.toNat = 2 ^ k) {s : Spsc τ}
    (hs : Transition.Reachable (spsc q) s) :
    s.returned <+: s.accepted.map some ∧
    (∀ j, s.returned.length ≤ j → ∀ hj : j < s.accepted.length,
      slotAt s.queue.tasks (j % 2 ^ k) = some s.accepted[j] ∨
        s.consumer.holding[j - s.returned.length]? = some (some s.accepted[j])) ∧
    (∀ x, writesSlot s = some x → slotAt s.queue.tasks x = none ∧
      ∀ j, s.returned.length + s.consumer.holding.length ≤ j → j < s.accepted.length →
        j % 2 ^ k ≠ x) ∧
    (∀ x, readsSlot s = some x → writesSlot s ≠ some x ∧
      ∃ j, s.returned.length ≤ j ∧ ∃ hj : j < s.accepted.length,
        x = j % 2 ^ k ∧ slotAt s.queue.tasks x = some s.accepted[j]) := by
  have hinv : SpscInv k s :=
    (SpscInv.inductive_spsc (queueCreate_represents hcreate hcap).2).reachable hs
  refine ⟨hinv.returned_prefix, fun j hle hlt => hinv.slot_or_held hle hlt, ?_, ?_⟩
  · intro x hx
    have hfree := hinv.writesSlot_free hx
    refine ⟨hfree, ?_⟩
    rintro j hle hlt rfl
    have hmore := s.consumer.cleared_le_holding
    rw [hinv.slot_eq (by omega) hlt] at hfree
    cases hfree
  · intro x hx
    obtain ⟨j, hle, hlt, heq, hslot⟩ := hinv.readsSlot_published hx
    refine ⟨?_, j, hle, hlt, heq, hslot⟩
    intro hwrite
    rw [hinv.writesSlot_free hwrite] at hslot
    cases hslot

theorem spsc_fifo_three : ∃ (q : Queue ℕ) (s : Spsc ℕ),
    queueCreate isPowerOf2 nextPowerOf2 true true 4 = some q ∧
      Transition.exec Spsc.step (Spsc.start q)
        [.enqueueBatch [7, 8, 9] 3, .producer, .producer, .producer, .dequeue,
          .producer, .producer, .producer, .consumer, .consumer, .consumer] = some s ∧
      s.accepted = [7, 8, 9] ∧ s.consumer.holding = [some 7] ∧
      (slotAt s.queue.tasks 1 = some 8 ∨ s.consumer.holding[1]? = some (some 8)) := by
  let q : Queue ℕ := ⟨0, 0, 4, 3, [none, none, none, none]⟩
  let s : Spsc ℕ := ⟨⟨0, 3, 4, 3, [some 7, some 8, some 9, none]⟩, .idle,
    .clear 0 1 0 [] (some 7), [7, 8, 9], []⟩
  have hq : queueCreate isPowerOf2 nextPowerOf2 true true 4 = some q := by decide
  have hs : Transition.exec Spsc.step (Spsc.start q)
      [.enqueueBatch [7, 8, 9] 3, .producer, .producer, .producer, .dequeue,
        .producer, .producer, .producer, .consumer, .consumer, .consumer] = some s := by
    decide
  refine ⟨q, s, hq, hs, rfl, rfl, ?_⟩
  exact (spsc_fifo (k := 2) hq rfl (Transition.reachable_ofFun_iff.mpr ⟨_, hs⟩)).2.1
    1 (Nat.zero_le 1) (by decide)

end LockfreeQueue

end ProcessThreadPool
