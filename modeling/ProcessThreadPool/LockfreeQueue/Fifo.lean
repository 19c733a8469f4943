import Mathlib.Data.Nat.Log
import ProcessThreadPool.Lib.BoundedFifo
import ProcessThreadPool.Lib.RingWindow
import ProcessThreadPool.Lib.WordMask
import ProcessThreadPool.LockfreeQueue.Queue

/-!
# The ring queue refines a bounded FIFO list

The queue represents a list through a history: `hist` is everything that was
ever enqueued and `start` how much of it has been dequeued, so the list is
`hist.drop start`, `head` and `tail` are the two numbers modulo `2 ^ 32`, and
the slots mirror the history. One lemma per operation says what the operation
does to a represented history; `call_simulates` collects them.
-/

namespace ProcessThreadPool

namespace LockfreeQueue

open RingWindow WordMask

/-- `q` is a queue of `2 ^ k` slots whose history is `hist`, of which the first
`start` elements have been dequeued. -/
structure Represents {τ : Type*} (q : Queue τ) (k start : ℕ) (hist : List τ) :
    Prop where
  mask : IsMask q.mask k
  capacity : q.capacity.toNat = 2 ^ k
  length : q.tasks.length = 2 ^ k
  head : q.head = UInt32.ofNat start
  tail : q.tail = UInt32.ofNat hist.length
  le : start ≤ hist.length
  room : hist.length < start + 2 ^ k
  slots : RingMirrors (slotAt q.tasks) (2 ^ k) start hist

namespace Represents

theorem head_index {τ : Type*} {q : Queue τ} {k start : ℕ} {hist : List τ}
    (h : Represents q k start hist) (i : ℕ) :
    ((q.head + UInt32.ofNat i) &&& q.mask).toNat = (start + i) % 2 ^ k := by
  rw [h.head, ← UInt32.ofNat_add, toNat_ofNat_and_mask h.mask]

theorem tail_index {τ : Type*} {q : Queue τ} {k start : ℕ} {hist : List τ}
    (h : Represents q k start hist) (i : ℕ) :
    ((q.tail + UInt32.ofNat i) &&& q.mask).toNat = (hist.length + i) % 2 ^ k := by
  rw [h.tail, ← UInt32.ofNat_add, toNat_ofNat_and_mask h.mask]

theorem empty_iff {τ : Type*} {q : Queue τ} {k start : ℕ} {hist : List τ}
    (h : Represents q k start hist) :
    q.head &&& q.mask = q.tail &&& q.mask ↔ start = hist.length := by
  rw [h.head, h.tail, and_mask_eq_iff_eq h.mask h.le h.room]

theorem full_iff {τ : Type*} {q : Queue τ} {k start : ℕ} {hist : List τ}
    (h : Represents q k start hist) :
    (q.tail + 1) &&& q.mask = q.head &&& q.mask ↔
      hist.length + 1 = start + 2 ^ k := by
  rw [h.head, h.tail, add_one_and_mask_eq_iff h.mask h.le h.room]

theorem size_eq {τ : Type*} {q : Queue τ} {k start : ℕ} {hist : List τ}
    (h : Represents q k start hist) :
    (queueSize q).toNat = hist.length - start := by
  have hroom := h.room
  have hle := h.le
  rw [queueSize, h.head, h.tail, toNat_sub_and_mask h.mask h.le (by omega)]

/-- The free space computed by the batch path is that of the single path. -/
theorem available_eq {τ : Type*} {q : Queue τ} {k start : ℕ} {hist : List τ}
    (h : Represents q k start hist) :
    (enqueueAvailable q).toNat = 2 ^ k - 1 - (hist.length - start) := by
  rw [enqueueAvailable, h.head, h.tail, toNat_room h.mask h.capacity h.le h.room]

end Represents

theorem writeSlot_eq {τ : Type*} {q : Queue τ} {i : UInt32}
    (hi : i.toNat < q.tasks.length) (task : Option τ) :
    q.writeSlot i task = some { q with tasks := q.tasks.set i.toNat task } := by
  rw [Queue.writeSlot, if_pos hi]

theorem readSlot_eq {τ : Type*} {q : Queue τ} {i : UInt32}
    (hi : i.toNat < q.tasks.length) :
    q.readSlot i = some (slotAt q.tasks i.toNat) :=
  getElem?_eq_slotAt hi

/-- `queue_create` with a power of two as capacity. -/
theorem queueCreate_represents {τ : Type*} {isPowerOf2 : UInt32 → Bool}
    {nextPowerOf2 : UInt32 → UInt32} {allocQueue allocTasks : Bool}
    {requested : UInt32} {q : Queue τ} {k : ℕ}
    (h : queueCreate isPowerOf2 nextPowerOf2 allocQueue allocTasks requested = some q)
    (hk : q.capacity.toNat = 2 ^ k) :
    k ≤ 20 ∧ Represents q k 0 [] := by
  simp only [queueCreate] at h
  generalize (if requested = 0 ∨ isPowerOf2 requested = false then
    nextPowerOf2 requested else requested) = capacity at h
  split_ifs at h with hbig
  obtain rfl := Option.some.inj h
  have hle : capacity.toNat ≤ 2 ^ 20 := by
    have hnot := UInt32.not_lt.mp hbig
    rwa [UInt32.le_iff_toNat_le] at hnot
  have hk20 : k ≤ 20 := (Nat.pow_le_pow_iff_right (by omega)).mp (hk ▸ hle)
  have hpos : 0 < 2 ^ k := Nat.two_pow_pos k
  have hone : (1 : UInt32) ≤ capacity := by
    rw [UInt32.le_iff_toNat_le, UInt32.toNat_one, hk]
    omega
  refine ⟨hk20, ⟨by omega, ?_⟩, hk, by simp [hk], rfl, rfl, le_rfl, by simp, ?_⟩
  · show (capacity - 1).toNat = 2 ^ k - 1
    rw [UInt32.toNat_sub_of_le _ _ hone, hk, UInt32.toNat_one]
  · show RingMirrors (slotAt (List.replicate capacity.toNat none)) (2 ^ k) 0 []
    rw [slotAt_replicate]
    exact ringMirrors_nil _ _

section Operations

variable {τ : Type*} {q : Queue τ} {k start : ℕ} {hist : List τ}

theorem queueEnqueue_full (h : Represents q k start hist)
    (hfull : hist.length + 1 = start + 2 ^ k) (task : τ) :
    queueEnqueue q (some task) = some (false, q) := by
  rw [queueEnqueue, if_neg (by simp), if_pos (h.full_iff.mpr hfull)]

theorem queueEnqueue_room (h : Represents q k start hist)
    (hroom : hist.length + 1 < start + 2 ^ k) (task : τ) :
    ∃ q', queueEnqueue q (some task) = some (true, q') ∧
      Represents q' k start (hist ++ [task]) := by
  have hnot : ¬ (q.tail + 1) &&& q.mask = q.head &&& q.mask := by
    rw [h.full_iff]
    omega
  have hindex : (q.tail &&& q.mask).toNat = hist.length % 2 ^ k := by
    simpa using h.tail_index 0
  have hin : (q.tail &&& q.mask).toNat < q.tasks.length := by
    rw [hindex, h.length]
    exact Nat.mod_lt _ (Nat.two_pow_pos k)
  refine ⟨{ q with
      tasks := q.tasks.set (q.tail &&& q.mask).toNat (some task)
      tail := q.tail + 1 }, ?_, ?_⟩
  · rw [queueEnqueue, if_neg (by simp), if_neg hnot, writeSlot_eq hin]
    rfl
  · refine ⟨h.mask, h.capacity, ?_, h.head, ?_, ?_, ?_, ?_⟩
    · simpa using h.length
    · simp [h.tail]
    · simpa using h.le.trans (Nat.le_succ _)
    · simpa using hroom
    · simp only
      rw [slotAt_set hin, hindex]
      exact h.slots.write h.le h.room task

theorem queueDequeue_empty (h : Represents q k start hist)
    (hempty : start = hist.length) : queueDequeue q = some (none, q) := by
  rw [queueDequeue, if_pos (h.empty_iff.mpr hempty)]

theorem queueDequeue_some (h : Represents q k start hist)
    (hlt : start < hist.length) :
    ∃ q', queueDequeue q = some (some hist[start], q') ∧
      Represents q' k (start + 1) hist := by
  have hnot : ¬ q.head &&& q.mask = q.tail &&& q.mask := by
    rw [h.empty_iff]
    omega
  have hindex : (q.head &&& q.mask).toNat = start % 2 ^ k := by
    simpa using h.head_index 0
  have hin : (q.head &&& q.mask).toNat < q.tasks.length := by
    rw [hindex, h.length]
    exact Nat.mod_lt _ (Nat.two_pow_pos k)
  have hread : slotAt q.tasks (q.head &&& q.mask).toNat = some hist[start] := by
    rw [hindex, h.slots.read (Nat.two_pow_pos k), List.getElem?_eq_getElem hlt]
  refine ⟨{ q with
      tasks := q.tasks.set (q.head &&& q.mask).toNat none
      head := q.head + 1 }, ?_, ?_⟩
  · rw [queueDequeue, if_neg hnot, readSlot_eq hin, writeSlot_eq hin, hread]
    rfl
  · have hroom := h.room
    refine ⟨h.mask, h.capacity, ?_, ?_, h.tail, hlt, by omega, ?_⟩
    · simpa using h.length
    · simp [h.head]
    · simp only
      rw [slotAt_set hin, hindex]
      exact h.slots.clear (Nat.two_pow_pos k) hroom.le

/-- The copying loop writes the next `n` tasks behind the history, and nothing
but slots. The tail is not moved yet, so the tasks already copied are part of
the mirrored history but not of the represented one. -/
theorem enqueueLoop_eq (tasks : List τ) (hmask : IsMask q.mask k)
    (htail : q.tail = UInt32.ofNat hist.length) (hlen : hist.length ≥ start) :
    ∀ (n i : ℕ) (slots : List (Option τ)), slots.length = 2 ^ k →
      RingMirrors (slotAt slots) (2 ^ k) start (hist ++ tasks.take i) →
      i + n ≤ tasks.length → i + n < 2 ^ 32 →
      hist.length + i + n < start + 2 ^ k →
      ∃ slots', enqueueLoop (tasks.map some) n (UInt32.ofNat i)
          { q with tasks := slots } = some { q with tasks := slots' } ∧
        slots'.length = 2 ^ k ∧
        RingMirrors (slotAt slots') (2 ^ k) start (hist ++ tasks.take (i + n))
  | 0, i, slots, hslots, hm, _, _, _ => ⟨slots, rfl, hslots, hm⟩
  | n + 1, i, slots, hslots, hm, hle, hword, hroom => by
      have hi : i < tasks.length := by omega
      have hcount : (UInt32.ofNat i).toNat = i := by
        rw [UInt32.toNat_ofNat', Nat.mod_eq_of_lt (by omega)]
      have hindex : ((q.tail + UInt32.ofNat i) &&& q.mask).toNat =
          (hist.length + i) % 2 ^ k := by
        rw [htail, ← UInt32.ofNat_add, toNat_ofNat_and_mask hmask]
      have hin : ((q.tail + UInt32.ofNat i) &&& q.mask).toNat < slots.length := by
        rw [hindex, hslots]
        exact Nat.mod_lt _ (Nat.two_pow_pos k)
      have hpos : (hist ++ tasks.take i).length = hist.length + i := by
        rw [List.length_append, List.length_take, Nat.min_eq_left hi.le]
      have hwrite := hm.write (by omega) (by omega) tasks[i]
      rw [hpos, List.append_assoc, ← List.take_succ_eq_append_getElem hi,
        ← hindex, ← slotAt_set hin] at hwrite
      obtain ⟨slots', hloop, hlen', hm'⟩ := enqueueLoop_eq tasks hmask htail hlen n (i + 1)
        (slots.set ((q.tail + UInt32.ofNat i) &&& q.mask).toNat (some tasks[i]))
        (by simpa using hslots) hwrite (by omega) (by omega) (by omega)
      refine ⟨slots', ?_, hlen', ?_⟩
      · have hnext : UInt32.ofNat i + 1 = UInt32.ofNat (i + 1) := by
          rw [UInt32.ofNat_add]
          rfl
        rw [enqueueLoop, hcount, List.getElem?_map, List.getElem?_eq_getElem hi,
          Option.map_some, Option.bind_some, writeSlot_eq hin, Option.bind_some, hnext]
        exact hloop
      · rwa [show i + (n + 1) = i + 1 + n by omega]

/-- The reading loop returns the next `n` tasks of the history and empties
their slots. The head is not moved yet. -/
theorem dequeueLoop_eq (hmask : IsMask q.mask k) (hhead : q.head = UInt32.ofNat start)
    (hroom : hist.length < start + 2 ^ k) :
    ∀ (n i : ℕ) (slots : List (Option τ)), slots.length = 2 ^ k →
      RingMirrors (slotAt slots) (2 ^ k) (start + i) hist →
      start + i + n ≤ hist.length →
      ∃ slots', dequeueLoop n (UInt32.ofNat i) { q with tasks := slots } =
          some (((hist.drop (start + i)).take n).map some,
            { q with tasks := slots' }) ∧
        slots'.length = 2 ^ k ∧
        RingMirrors (slotAt slots') (2 ^ k) (start + (i + n)) hist
  | 0, i, slots, hslots, hm, _ => ⟨slots, by simp [dequeueLoop], hslots, hm⟩
  | n + 1, i, slots, hslots, hm, hle => by
      have hlt : start + i < hist.length := by omega
      have hindex : ((q.head + UInt32.ofNat i) &&& q.mask).toNat =
          (start + i) % 2 ^ k := by
        rw [hhead, ← UInt32.ofNat_add, toNat_ofNat_and_mask hmask]
      have hin : ((q.head + UInt32.ofNat i) &&& q.mask).toNat < slots.length := by
        rw [hindex, hslots]
        exact Nat.mod_lt _ (Nat.two_pow_pos k)
      have hread : slotAt slots ((q.head + UInt32.ofNat i) &&& q.mask).toNat =
          some hist[start + i] := by
        rw [hindex, hm.read (Nat.two_pow_pos k), List.getElem?_eq_getElem hlt]
      have hclear := hm.clear (Nat.two_pow_pos k) (by omega)
      rw [← hindex, ← slotAt_set hin] at hclear
      obtain ⟨slots', hloop, hlen', hm'⟩ := dequeueLoop_eq hmask hhead hroom n (i + 1)
        (slots.set ((q.head + UInt32.ofNat i) &&& q.mask).toNat none)
        (by simpa using hslots) hclear (by omega)
      refine ⟨slots', ?_, hlen', ?_⟩
      · have hnext : UInt32.ofNat i + 1 = UInt32.ofNat (i + 1) := by
          rw [UInt32.ofNat_add]
          rfl
        have hrest : (hist.drop (start + i)).take (n + 1) =
            hist[start + i] :: (hist.drop (start + (i + 1))).take n := by
          rw [List.drop_eq_getElem_cons hlt, List.take_succ_cons]
          rfl
        rw [dequeueLoop, readSlot_eq hin, Option.bind_some, writeSlot_eq hin,
          Option.bind_some, hnext, hread, hrest]
        simp only at hloop ⊢
        rw [hloop]
        rfl
      · rwa [show i + (n + 1) = i + 1 + n by omega]

theorem queueEnqueueBatch_eq (h : Represents q k start hist) (tasks : List τ)
    (count : UInt32) (hlong : count.toNat ≤ tasks.length) {moved : ℕ}
    (hmoved : moved = min count.toNat (2 ^ k - 1 - (hist.length - start))) :
    ∃ b n q', queueEnqueueBatch q (some (tasks.map some)) count =
        some ((b, n), q') ∧
      n.toNat = moved ∧ b = decide (moved ≠ 0) ∧
      Represents q' k start (hist ++ tasks.take moved) := by
  have havail := h.available_eq
  have hroom := h.room
  have hle := h.le
  have hk := two_pow_lt_size h.mask.1
  by_cases hcount : count = 0
  · refine ⟨false, 0, q, ?_, ?_, ?_, ?_⟩
    · rw [queueEnqueueBatch, if_pos hcount]
    all_goals
      have hzero : moved = 0 := by
        rw [hmoved, hcount]
        simp
      simp [hzero, h]
  generalize hto : (if count < enqueueAvailable q then count
    else enqueueAvailable q) = toEnqueue
  have hn : toEnqueue.toNat = moved := by
    rw [← hto, hmoved, ← havail, toNat_ite_lt]
  by_cases hzero : toEnqueue = 0
  · have hmoved0 : moved = 0 := by
      rw [← hn, hzero]
      rfl
    refine ⟨false, 0, q, ?_, ?_, ?_, ?_⟩
    · rw [queueEnqueueBatch, if_neg hcount]
      simp only [hto]
      rw [if_pos hzero]
    all_goals simp [hmoved0, h]
  · have hne : moved ≠ 0 := by
      rw [← hn]
      intro hz
      exact hzero (UInt32.toNat_inj.mp hz)
    have hword := UInt32.toNat_lt count
    obtain ⟨slots', hloop, hlen', hm'⟩ := enqueueLoop_eq tasks h.mask h.tail
      h.le moved 0 q.tasks h.length (by simpa using h.slots) (by omega) (by omega)
      (by omega)
    refine ⟨true, toEnqueue, { q with
      tasks := slots'
      tail := q.tail + toEnqueue }, ?_, hn, by simpa using hne, ?_⟩
    · rw [queueEnqueueBatch, if_neg hcount]
      simp only [hto]
      rw [if_neg hzero, hn]
      exact (congrArg (Option.map _) hloop).trans rfl
    · rw [Nat.zero_add] at hm'
      have hfit : moved ≤ tasks.length := by omega
      have hlen : (hist ++ tasks.take moved).length = hist.length + moved := by
        rw [List.length_append, List.length_take, Nat.min_eq_left hfit]
      refine ⟨h.mask, h.capacity, hlen', h.head, ?_, ?_, ?_, hm'⟩
      · simp only
        rw [h.tail, hlen, UInt32.ofNat_add, ← hn, UInt32.ofNat_toNat]
      · omega
      · omega

theorem queueDequeueBatch_eq (h : Represents q k start hist) (maxCount : UInt32) :
    ∃ q' start', queueDequeueBatch q true maxCount =
        some (((hist.drop start).take maxCount.toNat).map some, q') ∧
      hist.drop start' = (hist.drop start).drop maxCount.toNat ∧
      Represents q' k start' hist := by
  have hsize : ((q.tail - q.head) &&& q.mask).toNat = hist.length - start := h.size_eq
  have hroom := h.room
  have hle := h.le
  by_cases hcount : maxCount = 0
  · refine ⟨q, start, ?_, ?_, h⟩
    · rw [queueDequeueBatch, if_pos (Or.inr hcount), hcount]
      simp
    · simp [hcount]
  generalize hto : (if maxCount < (q.tail - q.head) &&& q.mask then maxCount
    else (q.tail - q.head) &&& q.mask) = toDequeue
  have hn : toDequeue.toNat = min maxCount.toNat (hist.length - start) := by
    rw [← hto, ← hsize, toNat_ite_lt]
  have hpos : maxCount.toNat ≠ 0 := fun hz => hcount (UInt32.toNat_inj.mp hz)
  have htake : (hist.drop start).take maxCount.toNat =
      (hist.drop start).take toDequeue.toNat := by
    rw [List.take_eq_take_iff, List.length_drop]
    omega
  by_cases hzero : toDequeue = 0
  · have hempty : hist.drop start = [] := by
      rw [List.drop_eq_nil_iff]
      have hn0 : toDequeue.toNat = 0 := by
        rw [hzero]
        rfl
      omega
    refine ⟨q, start, ?_, by simp [hempty], h⟩
    rw [queueDequeueBatch, if_neg (by simp [hcount])]
    simp only [hto]
    rw [if_pos hzero, hempty, List.take_nil]
    rfl
  · obtain ⟨slots', hloop, hlen', hm'⟩ := dequeueLoop_eq h.mask h.head hroom
      toDequeue.toNat 0 q.tasks h.length h.slots (by omega)
    refine ⟨{ q with
      tasks := slots'
      head := q.head + toDequeue }, start + toDequeue.toNat, ?_, ?_, ?_⟩
    · rw [queueDequeueBatch, if_neg (by simp [hcount])]
      simp only [hto]
      rw [if_neg hzero, htake]
      exact (congrArg (Option.map _) hloop).trans rfl
    · rw [List.drop_drop]
      rcases Nat.le_total maxCount.toNat (hist.length - start) with hmax | hmax
      · rw [hn, Nat.min_eq_left hmax]
      · rw [hn, Nat.min_eq_right hmax, List.drop_eq_nil_of_le (by omega),
          List.drop_eq_nil_of_le (by omega)]
    · rw [Nat.zero_add] at hm'
      refine ⟨h.mask, h.capacity, hlen', ?_, h.tail, by omega, by omega, hm'⟩
      simp only
      rw [h.head, UInt32.ofNat_add, UInt32.ofNat_toNat]

end Operations

open BoundedFifo in
/-- The answers of a first-in first-out list of at most `bound` tasks. -/
def fifoCall {τ : Type*} (bound : ℕ) (l : List τ) : Call τ → Answer τ × List τ
  | .enqueue task => (.flag (push bound l task).1, (push bound l task).2)
  | .dequeue => (.task (pop l).1, (pop l).2)
  | .enqueueBatch tasks count _ =>
      (.moved (decide ((pushMany bound l tasks count.toNat).1 ≠ 0))
        (pushMany bound l tasks count.toNat).1,
        (pushMany bound l tasks count.toNat).2)
  | .dequeueBatch maxCount =>
      (.tasks ((popMany l maxCount.toNat).1.map some), (popMany l maxCount.toNat).2)
  | .isEmpty => (.flag l.isEmpty, l)
  | .isFull => (.flag (l.length = bound), l)
  | .size => (.number l.length, l)

/-- `q` is a queue of `2 ^ k` slots that holds the tasks `l`. -/
def Holds {τ : Type*} (k : ℕ) (q : Queue τ) (l : List τ) : Prop :=
  ∃ start hist, Represents q k start hist ∧ l = hist.drop start

theorem Holds.length_le {τ : Type*} {k : ℕ} {q : Queue τ} {l : List τ}
    (h : Holds k q l) : l.length ≤ 2 ^ k - 1 := by
  obtain ⟨start, hist, hrep, rfl⟩ := h
  have hroom := hrep.room
  rw [List.length_drop]
  omega

theorem Holds.size_eq {τ : Type*} {k : ℕ} {q : Queue τ} {l : List τ}
    (h : Holds k q l) : (queueSize q).toNat = l.length := by
  obtain ⟨start, hist, hrep, rfl⟩ := h
  rw [hrep.size_eq, List.length_drop]

theorem Holds.isEmpty_eq {τ : Type*} {k : ℕ} {q : Queue τ} {l : List τ}
    (h : Holds k q l) : queueIsEmpty q = l.isEmpty := by
  obtain ⟨start, hist, hrep, rfl⟩ := h
  have hle := hrep.le
  rw [Bool.eq_iff_iff, queueIsEmpty, decide_eq_true_iff, hrep.empty_iff,
    List.isEmpty_iff, List.drop_eq_nil_iff]
  omega

theorem Holds.isFull_eq {τ : Type*} {k : ℕ} {q : Queue τ} {l : List τ}
    (h : Holds k q l) : queueIsFull q = decide (l.length = 2 ^ k - 1) := by
  obtain ⟨start, hist, hrep, rfl⟩ := h
  have hle := hrep.le
  have hroom := hrep.room
  rw [Bool.eq_iff_iff, queueIsFull, decide_eq_true_iff, hrep.full_iff,
    decide_eq_true_iff, List.length_drop]
  omega

/-- Every call on a queue that holds `l` returns what the bounded list
returns, and leaves a queue that holds what the list then holds. -/
theorem call_simulates {τ : Type*} (k : ℕ) :
    Simulation.Simulates (Holds (τ := τ) k) call (fifoCall (2 ^ k - 1)) := by
  rintro q l c h
  cases c with
  | enqueue task =>
      obtain ⟨start, hist, hrep, rfl⟩ := h
      have hle := hrep.le
      have hroom := hrep.room
      by_cases hfull : hist.length + 1 = start + 2 ^ k
      · have hnot : ¬ (hist.drop start).length < 2 ^ k - 1 := by
          rw [List.length_drop]
          omega
        refine ⟨q, ?_, start, hist, hrep, ?_⟩
        · simp only [call, fifoCall, BoundedFifo.push, queueEnqueue_full hrep hfull,
            if_neg hnot, Option.map_some]
        · simp only [fifoCall, BoundedFifo.push, if_neg hnot]
      · obtain ⟨q', hcall, hrep'⟩ := queueEnqueue_room hrep (by omega) task
        have hlt : (hist.drop start).length < 2 ^ k - 1 := by
          rw [List.length_drop]
          omega
        refine ⟨q', ?_, start, _, hrep', ?_⟩
        · simp only [call, fifoCall, BoundedFifo.push, hcall, if_pos hlt,
            Option.map_some]
        · simp only [fifoCall, BoundedFifo.push, if_pos hlt]
          rw [List.drop_append_of_le_length hle]
  | dequeue =>
      obtain ⟨start, hist, hrep, rfl⟩ := h
      rcases hrep.le.eq_or_lt with hempty | hlt
      · have hnil : hist.drop start = [] := List.drop_eq_nil_of_le hempty.ge
        refine ⟨q, ?_, start, hist, hrep, ?_⟩
        · simp [call, fifoCall, BoundedFifo.pop, hnil, queueDequeue_empty hrep hempty]
        · simp [fifoCall, BoundedFifo.pop, hnil]
      · obtain ⟨q', hcall, hrep'⟩ := queueDequeue_some hrep hlt
        refine ⟨q', ?_, start + 1, hist, hrep', ?_⟩
        · simp [call, fifoCall, hcall, BoundedFifo.pop_drop hlt]
        · simp [fifoCall, BoundedFifo.pop_drop hlt]
  | enqueueBatch tasks count long =>
      obtain ⟨start, hist, hrep, rfl⟩ := h
      obtain ⟨b, n, q', hcall, hn, rfl, hrep'⟩ := queueEnqueueBatch_eq hrep tasks
        count long rfl
      refine ⟨q', ?_, start, _, hrep', ?_⟩
      · simp only [call, fifoCall, BoundedFifo.pushMany, hcall, hn, Option.map_some,
          List.length_drop]
      · simp only [fifoCall, BoundedFifo.pushMany, List.length_drop]
        rw [List.drop_append_of_le_length hrep.le]
  | dequeueBatch maxCount =>
      obtain ⟨start, hist, hrep, rfl⟩ := h
      obtain ⟨q', start', hcall, hdrop, hrep'⟩ := queueDequeueBatch_eq hrep maxCount
      refine ⟨q', ?_, start', hist, hrep', hdrop.symm⟩
      simp only [call, fifoCall, BoundedFifo.popMany, hcall, Option.map_some]
  | isEmpty => exact ⟨q, by simp [call, fifoCall, h.isEmpty_eq], h⟩
  | isFull => exact ⟨q, by simp [call, fifoCall, h.isFull_eq], h⟩
  | size => exact ⟨q, by simp [call, fifoCall, h.size_eq], h⟩

/-- `is_power_of_2` and `next_power_of_2` mean what their names say. Beyond
`2 ^ 31` there is no next power of two in 32 bits, and nothing is assumed. -/
structure PowerOfTwoFunctions (isPowerOf2 : UInt32 → Bool)
    (nextPowerOf2 : UInt32 → UInt32) : Prop where
  isPowerOf2_iff : ∀ n, isPowerOf2 n = true ↔ ∃ k, n.toNat = 2 ^ k
  nextPowerOf2_eq : ∀ n, n.toNat ≤ 2 ^ 31 →
    (nextPowerOf2 n).toNat = 2 ^ Nat.clog 2 n.toNat

theorem queueCreate_two_pow {τ : Type*} {isPowerOf2 : UInt32 → Bool}
    {nextPowerOf2 : UInt32 → UInt32}
    (hpow : PowerOfTwoFunctions isPowerOf2 nextPowerOf2) {k : ℕ} (hk : k ≤ 20) :
    ∃ q : Queue τ, queueCreate isPowerOf2 nextPowerOf2 true true
      (UInt32.ofNat (2 ^ k)) = some q ∧ q.capacity.toNat = 2 ^ k := by
  have hlt := two_pow_lt_size (show k ≤ 31 by omega)
  have hnat : (UInt32.ofNat (2 ^ k)).toNat = 2 ^ k := by
    rw [UInt32.toNat_ofNat', Nat.mod_eq_of_lt hlt]
  have hpos : 0 < 2 ^ k := Nat.two_pow_pos k
  have hzero : UInt32.ofNat (2 ^ k) ≠ 0 := fun heq => by
    rw [heq, UInt32.toNat_zero] at hnat
    omega
  have hpower : isPowerOf2 (UInt32.ofNat (2 ^ k)) = true :=
    (hpow.isPowerOf2_iff _).mpr ⟨k, hnat⟩
  have hsmall : ¬ UInt32.ofNat (2 ^ k) > (1 : UInt32) <<< 20 := by
    rw [gt_iff_lt, UInt32.lt_iff_toNat_lt, hnat]
    exact Nat.not_lt.mpr (Nat.pow_le_pow_right (by omega) hk)
  refine ⟨⟨0, 0, UInt32.ofNat (2 ^ k), UInt32.ofNat (2 ^ k) - 1,
    List.replicate (UInt32.ofNat (2 ^ k)).toNat none⟩, ?_, hnat⟩
  simp only [queueCreate, hzero, hpower, hsmall, false_or, if_false, Bool.true_eq_false]

theorem queueCreate_capacity {τ : Type*} {isPowerOf2 : UInt32 → Bool}
    {nextPowerOf2 : UInt32 → UInt32}
    (hpow : PowerOfTwoFunctions isPowerOf2 nextPowerOf2) {allocQueue allocTasks : Bool}
    {requested : UInt32} (hreq : requested.toNat ≤ 2 ^ 31) {q : Queue τ}
    (h : queueCreate isPowerOf2 nextPowerOf2 allocQueue allocTasks requested = some q) :
    ∃ k ≤ 20, q.capacity.toNat = 2 ^ k := by
  have hk : ∃ k, q.capacity.toNat = 2 ^ k := by
    simp only [queueCreate] at h
    split_ifs at h with hnext
    · obtain rfl := Option.some.inj h
      exact ⟨_, hpow.nextPowerOf2_eq _ hreq⟩
    · obtain rfl := Option.some.inj h
      rw [not_or, Bool.not_eq_false] at hnext
      exact (hpow.isPowerOf2_iff _).mp hnext.2
  obtain ⟨k, hk⟩ := hk
  exact ⟨k, (queueCreate_represents h hk).1, hk⟩

/-- Every queue of `2 ^ k` slots that `queue_create` returns answers every
sequence of calls as the first-in first-out list of at most `2 ^ k - 1` tasks
does, without an array access out of bounds, and every power of two up to
`2 ^ 20` is the capacity of such a queue. -/
theorem queue_refines_boundedFifo {τ : Type*} {isPowerOf2 : UInt32 → Bool}
    {nextPowerOf2 : UInt32 → UInt32}
    (hpow : PowerOfTwoFunctions isPowerOf2 nextPowerOf2) :
    (∀ k ≤ 20, ∃ q : Queue τ, queueCreate isPowerOf2 nextPowerOf2 true true
      (UInt32.ofNat (2 ^ k)) = some q ∧ q.capacity.toNat = 2 ^ k) ∧
    (∀ (allocQueue allocTasks : Bool) (requested : UInt32) (q : Queue τ),
      requested.toNat ≤ 2 ^ 31 →
      queueCreate isPowerOf2 nextPowerOf2 allocQueue allocTasks requested = some q →
      ∃ k ≤ 20, q.capacity.toNat = 2 ^ k) ∧
    (∀ (allocQueue allocTasks : Bool) (requested : UInt32) (q : Queue τ) (k : ℕ),
      queueCreate isPowerOf2 nextPowerOf2 allocQueue allocTasks requested = some q →
      q.capacity.toNat = 2 ^ k → ∀ calls : List (Call τ), ∃ answers q' l,
        Simulation.runSpec (fifoCall (2 ^ k - 1)) [] calls = (answers, l) ∧
        Simulation.runCalls call q calls = some (answers, q') ∧
        q'.capacity.toNat = 2 ^ k ∧ q'.tasks.length = 2 ^ k ∧
        l.length ≤ 2 ^ k - 1 ∧ (queueSize q').toNat = l.length ∧
        (queueIsEmpty q' = true ↔ l.length = 0) ∧
        (queueIsFull q' = true ↔ l.length = 2 ^ k - 1)) := by
  refine ⟨fun k hk => queueCreate_two_pow hpow hk,
    fun _ _ _ _ hreq hq => queueCreate_capacity hpow hreq hq, ?_⟩
  intro allocQueue allocTasks requested q k hq hk calls
  have hstart : Holds k q [] := ⟨0, [], (queueCreate_represents hq hk).2, rfl⟩
  obtain ⟨q', hrun, hend⟩ := (call_simulates k).runCalls calls hstart
  have hrep : ∃ start hist, Represents q' k start hist := by
    obtain ⟨start, hist, hrep, -⟩ := hend
    exact ⟨start, hist, hrep⟩
  obtain ⟨start, hist, hrep⟩ := hrep
  refine ⟨_, q', _, rfl, hrun, hrep.capacity, hrep.length, hend.length_le,
    hend.size_eq, ?_, ?_⟩
  · rw [hend.isEmpty_eq, List.isEmpty_iff, List.length_eq_zero_iff]
  · rw [hend.isFull_eq, decide_eq_true_iff]

/-- The two functions as integer computations. -/
def isPowerOf2 (n : UInt32) : Bool := (List.range 32).any fun k => n.toNat == 2 ^ k

def nextPowerOf2 (n : UInt32) : UInt32 := UInt32.ofNat (2 ^ Nat.clog 2 n.toNat)

theorem powerOfTwoFunctions : PowerOfTwoFunctions isPowerOf2 nextPowerOf2 where
  isPowerOf2_iff n := by
    simp only [isPowerOf2, List.any_eq_true, List.mem_range, beq_iff_eq]
    constructor
    · rintro ⟨k, -, hk⟩
      exact ⟨k, hk⟩
    · rintro ⟨k, hk⟩
      refine ⟨k, ?_, hk⟩
      have hlt := UInt32.toNat_lt n
      rw [hk] at hlt
      exact (Nat.pow_lt_pow_iff_right (by omega)).mp hlt
  nextPowerOf2_eq n hn := by
    have hlog : Nat.clog 2 n.toNat ≤ 31 := Nat.clog_le_of_le_pow hn
    rw [nextPowerOf2, UInt32.toNat_ofNat', Nat.mod_eq_of_lt (two_pow_lt_size hlog)]

theorem queue_refines_boundedFifo_four : ∃ q q' : Queue ℕ,
    queueCreate isPowerOf2 nextPowerOf2 true true (UInt32.ofNat (2 ^ 2)) = some q ∧
      Simulation.runCalls call q
          [.enqueue 7, .enqueueBatch [8, 9, 10] 3 (by decide), .isFull, .dequeue] =
        some ([.flag true, .moved true 2, .flag true, .task (some 7)], q') := by
  obtain ⟨hcreate, -, hrun⟩ := queue_refines_boundedFifo (τ := ℕ) powerOfTwoFunctions
  obtain ⟨q, hq, hcap⟩ := hcreate 2 (by decide)
  obtain ⟨answers, q', l, hspec, hcalls, -⟩ := hrun true true _ q 2 hq hcap
    [.enqueue 7, .enqueueBatch [8, 9, 10] 3 (by decide), .isFull, .dequeue]
  obtain rfl : [.flag true, .moved true 2, .flag true, .task (some 7)] = answers :=
    congrArg Prod.fst hspec
  exact ⟨q, q', hq, hcalls⟩

end LockfreeQueue

end ProcessThreadPool
