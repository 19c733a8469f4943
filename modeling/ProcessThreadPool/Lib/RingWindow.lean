import Mathlib.Data.Nat.ModEq
import Mathlib.Data.List.Basic
import Mathlib.Logic.Function.Basic
import Mathlib.Tactic.Linarith

/-!
# Windows of a ring of slots

A ring of `n` slots is read through `get : ℕ → Option α`, defined on slot
numbers below `n`. What passed through the ring is kept as a history `hist`, so
the element with history index `j` lives in slot `j % n` and no index wraps on
the abstract side. Two readings are used:

* `RingHolds get n start hist`: the slots of the history indices from `start` on
  hold the history; nothing is said about the free slots.
* `RingMirrors get n start hist`: the whole ring, read once around from `start`,
  equals the history, and the slots past its end are empty.
-/

namespace ProcessThreadPool

namespace RingWindow

/-- Two indices of one window of length `n` fall on the same slot only when
they are equal. -/
theorem eq_of_mod_eq_of_window (start : ℕ) {n a b : ℕ} (ha : start ≤ a)
    (ha' : a < start + n) (hb : start ≤ b) (hb' : b < start + n)
    (h : a % n = b % n) : a = b := by
  rcases Nat.le_total a b with hab | hab
  · have hdvd : n ∣ b - a := (Nat.modEq_iff_dvd' hab).mp h
    have hzero : b - a = 0 := Nat.eq_zero_of_dvd_of_lt hdvd (by omega)
    omega
  · have hdvd : n ∣ a - b := (Nat.modEq_iff_dvd' hab).mp h.symm
    have hzero : a - b = 0 := Nat.eq_zero_of_dvd_of_lt hdvd (by omega)
    omega

/-- The length of a window of less than `n` elements, read off the two positions. -/
theorem window_length {n a b : ℕ} (hle : a ≤ b) (hroom : b < a + n) :
    b - a = if a % n ≤ b % n then b % n - a % n else n - a % n + b % n := by
  obtain ⟨k, rfl⟩ := Nat.exists_eq_add_of_le hle
  have hn : 0 < n := by omega
  have hlt := Nat.mod_lt a hn
  rw [← Nat.mod_add_mod, Nat.add_sub_cancel_left]
  by_cases hwrap : a % n + k < n
  · rw [Nat.mod_eq_of_lt hwrap, if_pos (Nat.le_add_right _ _), Nat.add_sub_cancel_left]
  · have hsub : (a % n + k) % n = a % n + k - n := by
      rw [Nat.mod_eq_sub_mod (by omega), Nat.mod_eq_of_lt (by omega)]
    rw [hsub, if_neg (by omega)]
    omega

/-- The slots of the history indices from `start` on hold the history. -/
def RingHolds {α : Type*} (get : ℕ → Option α) (n start : ℕ) (hist : List α) : Prop :=
  ∀ j, start ≤ j → j < hist.length → get (j % n) = hist[j]?

/-- The ring read once around from `start` is the history, then empty slots. -/
def RingMirrors {α : Type*} (get : ℕ → Option α) (n start : ℕ) (hist : List α) : Prop :=
  ∀ j, start ≤ j → j < start + n → get (j % n) = hist[j]?

theorem ringHolds_nil {α : Type*} (get : ℕ → Option α) (n start : ℕ) :
    RingHolds get n start [] := by
  intro j _ hj
  simp at hj

theorem ringMirrors_nil {α : Type*} (n start : ℕ) :
    RingMirrors (fun _ => (none : Option α)) n start [] := by
  intro j _ _
  simp

namespace RingHolds

/-- Dropping elements at the front only moves the start of the window. -/
theorem advance {α : Type*} {get : ℕ → Option α} {n start start' : ℕ}
    {hist : List α} (h : RingHolds get n start hist) (hle : start ≤ start') :
    RingHolds get n start' hist :=
  fun j hj hlt => h j (hle.trans hj) hlt

/-- Writing the next history index keeps the window, as long as its slot is
not one of the window's own. -/
theorem write {α : Type*} {get : ℕ → Option α} {n start : ℕ} {hist : List α}
    (h : RingHolds get n start hist) (hroom : hist.length < start + n) (x : α) :
    RingHolds (Function.update get (hist.length % n) (some x)) n start
      (hist ++ [x]) := by
  intro j hj hlt
  rw [List.length_append, List.length_singleton] at hlt
  by_cases hlast : j = hist.length
  · subst hlast
    simp
  · have hold : j < hist.length := by omega
    have hne : j % n ≠ hist.length % n := fun heq =>
      hlast (eq_of_mod_eq_of_window start hj (by omega) (by omega) hroom heq)
    rw [Function.update_of_ne hne, List.getElem?_append_left hold]
    exact h j hj hold

theorem read {α : Type*} {get : ℕ → Option α} {n start : ℕ} {hist : List α}
    (h : RingHolds get n start hist) (hlt : start < hist.length) :
    get (start % n) = some hist[start] := by
  rw [h start le_rfl hlt, List.getElem?_eq_getElem hlt]

/-- Reading the window slot by slot gives the rest of the history. -/
theorem contents {α : Type*} {get : ℕ → Option α} {n start : ℕ} {hist : List α}
    (h : RingHolds get n start hist) (hle : start ≤ hist.length) :
    (List.range (hist.length - start)).map (fun i => get ((start + i) % n)) =
      (hist.drop start).map some := by
  apply List.ext_getElem
  · simp
  · intro i hi _
    rw [List.length_map, List.length_range] at hi
    have hlt : start + i < hist.length := by omega
    simp only [List.getElem_map, List.getElem_range, List.getElem_drop]
    rw [h (start + i) (by omega) hlt, List.getElem?_eq_getElem hlt]

end RingHolds

namespace RingMirrors

theorem holds {α : Type*} {get : ℕ → Option α} {n start : ℕ} {hist : List α}
    (h : RingMirrors get n start hist) (hlen : hist.length ≤ start + n) :
    RingHolds get n start hist :=
  fun j hj hlt => h j hj (by omega)

theorem read {α : Type*} {get : ℕ → Option α} {n start : ℕ} {hist : List α}
    (h : RingMirrors get n start hist) (hn : 0 < n) :
    get (start % n) = hist[start]? :=
  h start le_rfl (by omega)

/-- The slot of the next history index is empty while the window has room. -/
theorem next_eq_none {α : Type*} {get : ℕ → Option α} {n start : ℕ}
    {hist : List α} (h : RingMirrors get n start hist)
    (hle : start ≤ hist.length) (hroom : hist.length < start + n) :
    get (hist.length % n) = none := by
  rw [h hist.length hle hroom]
  simp

theorem write {α : Type*} {get : ℕ → Option α} {n start : ℕ} {hist : List α}
    (h : RingMirrors get n start hist) (hle : start ≤ hist.length)
    (hroom : hist.length < start + n) (x : α) :
    RingMirrors (Function.update get (hist.length % n) (some x)) n start
      (hist ++ [x]) := by
  intro j hj hlt
  by_cases hlast : j = hist.length
  · subst hlast
    simp
  · have hne : j % n ≠ hist.length % n := fun heq =>
      hlast (eq_of_mod_eq_of_window start hj hlt hle hroom heq)
    rw [Function.update_of_ne hne, h j hj hlt]
    rcases Nat.lt_or_gt_of_ne hlast with hold | hnew
    · rw [List.getElem?_append_left hold]
    · rw [List.getElem?_eq_none (by omega), List.getElem?_eq_none]
      rw [List.length_append, List.length_singleton]
      omega

/-- Emptying the slot at the start moves the window by one. -/
theorem clear {α : Type*} {get : ℕ → Option α} {n start : ℕ} {hist : List α}
    (h : RingMirrors get n start hist) (hn : 0 < n)
    (hlen : hist.length ≤ start + n) :
    RingMirrors (Function.update get (start % n) none) n (start + 1) hist := by
  intro j hj hlt
  by_cases hwrap : j = start + n
  · subst hwrap
    rw [Nat.add_mod_right, Function.update_self, List.getElem?_eq_none hlen]
  · have hne : j % n ≠ start % n := fun heq => by
      have := eq_of_mod_eq_of_window start (by omega) (by omega) le_rfl
        (by omega) heq
      omega
    rw [Function.update_of_ne hne, h j (by omega) (by omega)]

end RingMirrors

/-- A slot array read as a function: numbers past its end are empty. -/
def slotAt {α : Type*} (xs : List (Option α)) (i : ℕ) : Option α := xs.getD i none

theorem slotAt_set {α : Type*} {xs : List (Option α)} {i : ℕ} (hi : i < xs.length)
    (v : Option α) : slotAt (xs.set i v) = Function.update (slotAt xs) i v := by
  funext j
  simp only [slotAt, List.getD_eq_getElem?_getD]
  by_cases hji : j = i
  · subst hji
    simp [hi]
  · rw [Function.update_of_ne hji, List.getElem?_set_ne (Ne.symm hji)]
    rfl

theorem slotAt_replicate {α : Type*} (n : ℕ) :
    slotAt (List.replicate n (none : Option α)) = fun _ => none := by
  funext j
  simp only [slotAt, List.getD_eq_getElem?_getD, List.getElem?_replicate]
  split <;> rfl

theorem getElem?_eq_slotAt {α : Type*} {xs : List (Option α)} {i : ℕ}
    (hi : i < xs.length) : xs[i]? = some (slotAt xs i) := by
  simp [slotAt, List.getD_eq_getElem?_getD, hi]

end RingWindow

end ProcessThreadPool
