import ProcessThreadPool.ModernPool.Delivery
import ProcessThreadPool.Lib.WordOrder

/-!
# The cursors of the shared-memory queue

Whatever bytes pass through the queue, its two positions are the numbers of successful
enqueues and dequeues modulo the queue size. So the size, the two tests and the check of
`shm_validate` agree with each other and with these numbers, for every queue size.
`internal.h` declares neither `magic` nor `version`; they are 32-bit words here, as
`shm_dump_info` prints them.
-/

namespace ProcessThreadPool

namespace ModernPool

open ByteMemory RingWindow WordOrder

/-- `shared_memory_t` with the two fields that `shm_create` marks it with. -/
structure SharedMemory where
  magic : UInt32
  version : UInt32
  queue : Shm

/-- What `shm_create` and then `worker_create` leave. -/
def SharedMemory.create (shmMagic shmVersion queueSize : UInt32) (data : ℕ → UInt8) :
    SharedMemory where
  magic := shmMagic
  version := shmVersion
  queue := Shm.start queueSize data

/-- `shm_queue_size`. -/
def shmQueueSize (q : Shm) : UInt32 :=
  if q.consumerPos ≤ q.producerPos then q.producerPos - q.consumerPos
  else q.queueSize - q.consumerPos + q.producerPos

/-- `shm_validate`. -/
def shmValidate (shmMagic shmVersion : UInt32) (maxQueueSize : ℕ) (m : SharedMemory) : Bool :=
  if m.magic ≠ shmMagic ∨ m.version ≠ shmVersion then false
  else if m.queue.queueSize = 0 ∨ maxQueueSize < m.queue.queueSize.toNat then false
  else if m.queue.queueSize ≤ m.queue.producerPos ∨ m.queue.queueSize ≤ m.queue.consumerPos then
    false
  else true

/-- The shared memory with the numbers of successful enqueues and dequeues. -/
structure Traffic where
  memory : SharedMemory
  enqueues : ℕ
  dequeues : ℕ

/-- After an enqueue that returned `r`. -/
def Traffic.enqueued (s : Traffic) (r : ℤ × Shm) : Traffic where
  memory := { s.memory with queue := r.2 }
  enqueues := if r.1 = 0 then s.enqueues + 1 else s.enqueues
  dequeues := s.dequeues

/-- After a dequeue that returned `r`. -/
def Traffic.dequeued (s : Traffic) (r : Dequeued × Shm) : Traffic where
  memory := { s.memory with queue := r.2 }
  enqueues := s.enqueues
  dequeues := if r.1.result = 0 then s.dequeues + 1 else s.dequeues

/-- One call. -/
def Traffic.step (s : Traffic) : ShmCall → Option Traffic
  | .enqueue data => (shmQueueEnqueue s.memory.queue data).map s.enqueued
  | .tryEnqueue data locked => some (s.enqueued (shmQueueTryEnqueue s.memory.queue data locked))
  | .dequeue bufSize timeoutMs =>
      (shmQueueDequeue s.memory.queue bufSize timeoutMs).map s.dequeued
  | .tryDequeue bufSize locked =>
      some (s.dequeued (shmQueueTryDequeue s.memory.queue bufSize locked))

/-- All sequences of calls on a fresh queue over a data area with any content. -/
def traffic (shmMagic shmVersion queueSize : UInt32) (data : ℕ → UInt8) :
    Transition.System Traffic ShmCall :=
  Transition.System.ofFun ⟨.create shmMagic shmVersion queueSize data, 0, 0⟩ Traffic.step

/-- The positions and the total count the successful calls. -/
structure CursorsCount (shmMagic shmVersion : UInt32) (n : ℕ) (s : Traffic) : Prop where
  magic : s.memory.magic = shmMagic
  version : s.memory.version = shmVersion
  queueSize : s.memory.queue.queueSize.toNat = n
  producer : s.memory.queue.producerPos.toNat = s.enqueues % n
  consumer : s.memory.queue.consumerPos.toNat = s.dequeues % n
  le : s.dequeues ≤ s.enqueues
  room : s.enqueues < s.dequeues + n
  total : s.memory.queue.totalSubmitted = UInt64.ofNat s.enqueues

namespace CursorsCount

variable {shmMagic shmVersion : UInt32} {n : ℕ} {s : Traffic}

theorem start {queueSize : UInt32} (hn : 1 ≤ queueSize.toNat) (data : ℕ → UInt8) :
    CursorsCount shmMagic shmVersion queueSize.toNat
      ⟨.create shmMagic shmVersion queueSize data, 0, 0⟩ where
  magic := rfl
  version := rfl
  queueSize := rfl
  producer := (Nat.zero_mod _).symm
  consumer := (Nat.zero_mod _).symm
  le := le_rfl
  room := by
    rw [zero_add]
    exact hn
  total := rfl

theorem isFull_iff (h : CursorsCount shmMagic shmVersion n s) :
    shmQueueIsFull s.memory.queue = true ↔ s.enqueues + 1 = s.dequeues + n := by
  have hle := h.le
  have hroom := h.room
  rw [shmQueueIsFull, decide_eq_true_iff, ← UInt32.toNat_inj,
    toNat_shmQueueNextPos (by omega) h.queueSize h.producer, h.consumer,
    ← Nat.add_mod_right s.dequeues]
  constructor
  · exact eq_of_mod_eq_of_window (s.dequeues + 1) (by omega) (by omega) (by omega) (by omega)
  · intro heq
    rw [heq]

theorem isEmpty_iff (h : CursorsCount shmMagic shmVersion n s) :
    shmQueueIsEmpty s.memory.queue = true ↔ s.enqueues = s.dequeues := by
  have hle := h.le
  rw [shmQueueIsEmpty, decide_eq_true_iff, ← UInt32.toNat_inj, h.producer, h.consumer]
  constructor
  · exact eq_of_mod_eq_of_window s.dequeues hle h.room le_rfl (by have := h.room; omega)
  · intro heq
    rw [heq]

theorem size_eq (h : CursorsCount shmMagic shmVersion n s) :
    (shmQueueSize s.memory.queue).toNat = s.enqueues - s.dequeues := by
  have hroom := h.room
  have hlt := Nat.mod_lt s.dequeues (show 0 < n by have := h.le; omega)
  have hword := UInt32.toNat_lt s.memory.queue.queueSize
  rw [window_length h.le hroom, shmQueueSize]
  rw [h.queueSize] at hword
  by_cases hcursor : s.memory.queue.consumerPos ≤ s.memory.queue.producerPos
  · rw [if_pos hcursor, UInt32.toNat_sub_of_le _ _ hcursor]
    rw [UInt32.le_iff_toNat_le, h.producer, h.consumer] at hcursor
    rw [if_pos hcursor, h.producer, h.consumer]
  · have hsize : s.memory.queue.consumerPos ≤ s.memory.queue.queueSize := by
      rw [UInt32.le_iff_toNat_le, h.queueSize, h.consumer]
      exact hlt.le
    rw [if_neg hcursor, UInt32.toNat_add, UInt32.toNat_sub_of_le _ _ hsize, h.queueSize,
      h.consumer, h.producer]
    rw [UInt32.le_iff_toNat_le, h.producer, h.consumer] at hcursor
    rw [if_neg hcursor]
    exact Nat.mod_eq_of_lt (by omega)

theorem validate (h : CursorsCount shmMagic shmVersion n s) {maxQueueSize : ℕ}
    (hmax : n ≤ maxQueueSize) : shmValidate shmMagic shmVersion maxQueueSize s.memory = true := by
  have hn : 0 < n := by
    have hle := h.le
    have hroom := h.room
    omega
  have hproducer := Nat.mod_lt s.enqueues hn
  have hconsumer := Nat.mod_lt s.dequeues hn
  have hsize : s.memory.queue.queueSize ≠ 0 := by
    intro hzero
    have hnum := h.queueSize
    rw [hzero] at hnum
    exact hn.ne hnum
  rw [shmValidate, if_neg (by simp [h.magic, h.version]), if_neg, if_neg]
  · rw [UInt32.le_iff_toNat_le, UInt32.le_iff_toNat_le, h.queueSize, h.producer, h.consumer]
    omega
  · rw [h.queueSize]
    exact not_or.mpr ⟨hsize, hmax.not_gt⟩

/-! ## One call -/

theorem putMessage (h : CursorsCount shmMagic shmVersion n s)
    (hfull : ¬ shmQueueIsFull s.memory.queue = true) (data : List UInt8) :
    CursorsCount shmMagic shmVersion n (s.enqueued (0, putMessage s.memory.queue data)) := by
  have hle := h.le
  have hroom := h.room
  rw [h.isFull_iff] at hfull
  refine ⟨h.magic, h.version, h.queueSize, ?_, h.consumer, hle.trans (Nat.le_succ _), ?_, ?_⟩
  · exact toNat_shmQueueNextPos (by omega) h.queueSize h.producer
  · change s.enqueues + 1 < s.dequeues + n
    omega
  · change s.memory.queue.totalSubmitted + 1 = UInt64.ofNat (s.enqueues + 1)
    rw [h.total, ofNat_add_one]

theorem getMessage (h : CursorsCount shmMagic shmVersion n s)
    (hempty : ¬ shmQueueIsEmpty s.memory.queue = true) (bufSize : ℕ) :
    CursorsCount shmMagic shmVersion n (s.dequeued (getMessage s.memory.queue bufSize)) := by
  have hle := h.le
  have hroom := h.room
  rw [h.isEmpty_iff] at hempty
  simp only [ModernPool.getMessage]
  split_ifs with hsmall
  · exact h
  · refine ⟨h.magic, h.version, h.queueSize, h.producer, ?_, ?_, ?_, h.total⟩
    · exact toNat_shmQueueNextPos (by omega) h.queueSize h.consumer
    · change s.dequeues + 1 ≤ s.enqueues
      omega
    · change s.enqueues < s.dequeues + 1 + n
      omega

theorem step (h : CursorsCount shmMagic shmVersion n s) {l : ShmCall} {t : Traffic}
    (hstep : s.step l = some t) : CursorsCount shmMagic shmVersion n t := by
  cases l with
  | enqueue data =>
      simp only [Traffic.step, shmQueueEnqueue] at hstep
      split_ifs at hstep with hsize hfull
      · obtain rfl := Option.some.inj hstep
        exact h
      · cases hstep
      · obtain rfl := Option.some.inj hstep
        exact h.putMessage hfull data
  | tryEnqueue data locked =>
      simp only [Traffic.step, shmQueueTryEnqueue, Option.some.injEq] at hstep
      split_ifs at hstep with hsize hlocked hfull <;> obtain rfl := hstep
      · exact h
      · exact h
      · exact h
      · exact h.putMessage hfull data
  | dequeue bufSize timeoutMs =>
      simp only [Traffic.step, shmQueueDequeue] at hstep
      split_ifs at hstep with hempty htimeout
      · cases hstep
      · obtain rfl := Option.some.inj hstep
        exact h
      · obtain rfl := Option.some.inj hstep
        exact h.getMessage hempty bufSize
  | tryDequeue bufSize locked =>
      simp only [Traffic.step, shmQueueTryDequeue, Option.some.injEq] at hstep
      split_ifs at hstep with hlocked hempty <;> obtain rfl := hstep
      · exact h
      · exact h
      · exact h.getMessage hempty bufSize

end CursorsCount

/-! ## Whole runs -/

theorem inductive_cursorsCount (shmMagic shmVersion : UInt32) {queueSize : UInt32}
    (hn : 1 ≤ queueSize.toNat) (data : ℕ → UInt8) :
    Transition.Inductive (traffic shmMagic shmVersion queueSize data)
      (CursorsCount shmMagic shmVersion queueSize.toNat) where
  init := by
    rintro s rfl
    exact CursorsCount.start hn data
  step := fun _ _ _ h hstep => h.step hstep

/-- The header of a queue of any size agrees at all times with the numbers of successful
enqueues and dequeues, the total modulo `2 ^ 64`. -/
theorem cursors_agree (shmMagic shmVersion : UInt32) (maxQueueSize : ℕ) {queueSize : UInt32}
    (hn : 1 ≤ queueSize.toNat) (hmax : queueSize.toNat ≤ maxQueueSize) (data : ℕ → UInt8)
    {s : Traffic}
    (hs : Transition.Reachable (traffic shmMagic shmVersion queueSize data) s) :
    shmValidate shmMagic shmVersion maxQueueSize s.memory = true ∧ s.dequeues ≤ s.enqueues ∧
      (shmQueueSize s.memory.queue).toNat = s.enqueues - s.dequeues ∧
      (shmQueueSize s.memory.queue).toNat ≤ queueSize.toNat - 1 ∧
      (shmQueueIsEmpty s.memory.queue = true ↔ (shmQueueSize s.memory.queue).toNat = 0) ∧
      (shmQueueIsFull s.memory.queue = true ↔
        (shmQueueSize s.memory.queue).toNat = queueSize.toNat - 1) ∧
      s.memory.queue.totalSubmitted.toNat = s.enqueues % 2 ^ 64 := by
  have h := (inductive_cursorsCount shmMagic shmVersion hn data).reachable hs
  have hle := h.le
  have hroom := h.room
  refine ⟨h.validate hmax, hle, h.size_eq, ?_, ?_, ?_, ?_⟩
  · rw [h.size_eq]
    omega
  · rw [h.isEmpty_iff, h.size_eq]
    omega
  · rw [h.isFull_iff, h.size_eq]
    omega
  · rw [h.total, UInt64.toNat_ofNat']

theorem cursors_agree_three : ∃ s : Traffic,
    shmValidate 7 1 4 s.memory = true ∧ s.dequeues ≤ s.enqueues ∧
      (shmQueueSize s.memory.queue).toNat = s.enqueues - s.dequeues ∧
      (shmQueueSize s.memory.queue).toNat ≤ (3 : UInt32).toNat - 1 ∧
      (shmQueueIsEmpty s.memory.queue = true ↔ (shmQueueSize s.memory.queue).toNat = 0) ∧
      (shmQueueIsFull s.memory.queue = true ↔
        (shmQueueSize s.memory.queue).toNat = (3 : UInt32).toNat - 1) ∧
      s.memory.queue.totalSubmitted.toNat = s.enqueues % 2 ^ 64 := by
  have hrun : Transition.Reachable (traffic 7 1 3 fun _ => 0) _ :=
    Transition.reachable_ofFun_iff.mpr ⟨[.enqueue [5], .tryEnqueue [6] true,
      .tryDequeue 100000 true, .enqueue [7]], rfl⟩
  exact ⟨_, cursors_agree 7 1 4 (by decide) (by decide) (fun _ => 0) hrun⟩

/-- One message goes through a queue of two slots that is empty. -/
theorem CursorsCount.round {shmMagic shmVersion : UInt32} {s : Traffic}
    (h : CursorsCount shmMagic shmVersion 2 s) (hempty : s.enqueues = s.dequeues) :
    ∃ t, Transition.exec Traffic.step s [.enqueue [0], .dequeue (2 ^ 32) 0] = some t ∧
      t.enqueues = s.enqueues + 1 ∧ t.dequeues = s.dequeues + 1 := by
  have hfull : ¬ shmQueueIsFull s.memory.queue = true := by
    rw [h.isFull_iff]
    omega
  have henqueue : s.step (.enqueue [0]) =
      some (s.enqueued (0, ModernPool.putMessage s.memory.queue [0])) := by
    simp only [Traffic.step, shmQueueEnqueue, if_neg hfull]
    rfl
  have hput := h.putMessage hfull [0]
  have hsome : ¬ shmQueueIsEmpty (ModernPool.putMessage s.memory.queue [0]) = true := by
    have hiff := hput.isEmpty_iff
    change _ ↔ s.enqueues + 1 = s.dequeues at hiff
    rw [Traffic.enqueued] at hiff
    rw [hiff]
    omega
  have hfits : ¬ (readWord (ModernPool.putMessage s.memory.queue [0]).data
      (slotOffset (ModernPool.putMessage s.memory.queue [0]).consumerPos)).toNat > 2 ^ 32 :=
    not_lt.mpr (UInt32.toNat_lt _).le
  refine ⟨(s.enqueued (0, ModernPool.putMessage s.memory.queue [0])).dequeued
    (ModernPool.getMessage (ModernPool.putMessage s.memory.queue [0]) (2 ^ 32)), ?_, ?_⟩
  · rw [Transition.exec_cons, henqueue, Option.bind_some, Transition.exec_cons]
    simp only [Traffic.step, shmQueueDequeue, Traffic.enqueued, if_neg hsome]
    rfl
  · rw [ModernPool.getMessage, if_neg hfits]
    exact ⟨rfl, rfl⟩

/-- After `2 ^ 64` enqueues the total is not their number. -/
theorem total_wraps : ¬ ∀ (shmMagic shmVersion : UInt32) (maxQueueSize : ℕ)
    (queueSize : UInt32) (data : ℕ → UInt8) (s : Traffic), 1 ≤ queueSize.toNat →
    queueSize.toNat ≤ maxQueueSize →
    Transition.Reachable (traffic shmMagic shmVersion queueSize data) s →
      s.memory.queue.totalSubmitted.toNat = s.enqueues := by
  intro hclaim
  have hmany : ∀ k, ∃ s, Transition.Reachable (traffic 0 0 2 fun _ => 0) s ∧
      s.enqueues = k ∧ s.dequeues = k := by
    intro k
    induction k with
    | zero => exact ⟨_, ⟨_, [], rfl, .nil _⟩, rfl, rfl⟩
    | succ k ih =>
        obtain ⟨s, hs, henqueues, hdequeues⟩ := ih
        have hn : 1 ≤ (2 : UInt32).toNat := by decide
        have h := (inductive_cursorsCount 0 0 hn _).reachable hs
        obtain ⟨t, hexec, henq, hdeq⟩ := CursorsCount.round h (henqueues.trans hdequeues.symm)
        obtain ⟨s₀, ls, hinit, hrun⟩ := hs
        exact ⟨t, ⟨s₀, _, hinit, hrun.append (Transition.run_ofFun_iff.mpr hexec)⟩,
          by rw [henq, henqueues], by rw [hdeq, hdequeues]⟩
  obtain ⟨s, hs, hcount, -⟩ := hmany (2 ^ 64)
  have htotal := hclaim 0 0 2 2 _ s (by decide) (by decide) hs
  rw [hcount] at htotal
  exact absurd (UInt64.toNat_lt s.memory.queue.totalSubmitted) (by omega)

end ModernPool

end ProcessThreadPool
