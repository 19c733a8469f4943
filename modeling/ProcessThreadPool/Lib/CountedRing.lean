import ProcessThreadPool.Lib.RingWindow
import Mathlib.Data.Int.Notation

/-!
# Rings with a front, a rear and a count

A C program keeps a ring of slots with three `int` fields: the positions of the
oldest element and of the next free slot, and the number of elements. They are
redundant, and a full ring and an empty one have equal positions. All three are
functions of the history `hist` of everything stored and of the number `start` of
elements taken, and every move of them is one of two operations. `%` truncates as
in C.
-/

namespace ProcessThreadPool

namespace RingWindow

/-- The ring of `size` slots after `hist` was stored and `start` elements taken. -/
structure CountedRing {α : Type*} (size : ℕ) (slots : List (Option α))
    (front rear count : ℤ) (hist : List α) (start : ℕ) : Prop where
  length : slots.length = size
  front : front = (start % size : ℕ)
  rear : rear = (hist.length % size : ℕ)
  count : count + start = hist.length
  le : start ≤ hist.length
  room : hist.length ≤ start + size
  holds : RingHolds (slotAt slots) size start hist

theorem tmod_succ {size a : ℕ} :
    (((a % size : ℕ) : ℤ) + 1).tmod size = ((a + 1) % size : ℕ) := by
  rw [← Nat.cast_succ, ← Int.ofNat_tmod, Nat.succ_eq_add_one, Nat.mod_add_mod]

namespace CountedRing

variable {α : Type*} {size : ℕ} {slots : List (Option α)} {front rear count : ℤ}
  {hist : List α} {start : ℕ}

theorem empty (size : ℕ) :
    CountedRing size (List.replicate size (none : Option α)) 0 0 0 [] 0 :=
  ⟨List.length_replicate, by simp, by simp, by simp, le_rfl, by simp, ringHolds_nil _ _ _⟩

theorem push (h : CountedRing size slots front rear count hist start) (hsize : 1 ≤ size)
    (hroom : count ≠ size) (x : α) :
    CountedRing size (slots.set rear.toNat (some x)) front ((rear + 1).tmod size)
      (count + 1) (hist ++ [x]) start := by
  have hcount := h.count
  have hle := h.le
  have hlt : hist.length < start + size := by
    have hmost := h.room
    omega
  have hindex : rear.toNat = hist.length % size := by
    rw [h.rear, Int.toNat_natCast]
  have hin : rear.toNat < slots.length := by
    rw [hindex, h.length]
    exact Nat.mod_lt _ hsize
  refine ⟨by rw [List.length_set, h.length], h.front, ?_, ?_, ?_, ?_, ?_⟩
  · rw [List.length_append, List.length_singleton, ← tmod_succ, ← h.rear]
  · rw [List.length_append, List.length_singleton]
    omega
  · rw [List.length_append]
    omega
  · rw [List.length_append, List.length_singleton]
    omega
  · rw [slotAt_set hin, hindex]
    exact h.holds.write hlt x

theorem lt_of_ne (h : CountedRing size slots front rear count hist start)
    (hne : count ≠ 0) : start < hist.length := by
  have hcount := h.count
  have hle := h.le
  omega

theorem slotAt_front (h : CountedRing size slots front rear count hist start)
    (hlt : start < hist.length) : slotAt slots front.toNat = some hist[start] := by
  rw [h.front, Int.toNat_natCast, h.holds.read hlt]

theorem pop (h : CountedRing size slots front rear count hist start) (hne : count ≠ 0) :
    CountedRing size slots ((front + 1).tmod size) rear (count - 1) hist (start + 1) := by
  have hcount := h.count
  have hroom := h.room
  have hlt := h.lt_of_ne hne
  refine ⟨h.length, ?_, h.rear, by omega, hlt, by omega,
    h.holds.advance (Nat.le_add_right _ _)⟩
  rw [← tmod_succ, ← h.front]

/-- Reading the ring from its front on, `count` slots. -/
theorem contents (h : CountedRing size slots front rear count hist start) :
    (List.range count.toNat).map (fun i : ℕ => slotAt slots ((front + i) % size).toNat) =
      (hist.drop start).map some := by
  have hcount := h.count
  have hnum : count.toNat = hist.length - start := by omega
  rw [hnum, ← h.holds.contents h.le]
  refine List.map_congr_left fun i _ => ?_
  rw [h.front, ← Nat.cast_add, ← Int.natCast_mod, Int.toNat_natCast, Nat.mod_add_mod]

end CountedRing

end RingWindow

end ProcessThreadPool
