import Mathlib.Algebra.BigOperators.Group.List.Basic
import Mathlib.Algebra.GroupWithZero.Nat
import Mathlib.Data.List.Induction
import Mathlib.Order.Lattice

/-!
# Buckets with upper bounds

Values are sorted into buckets by a linear search for the first bound that a value does not
exceed. When the bounds ascend, the bucket of a value is the one whose bound it does not exceed
while it exceeds the bound before. The buckets together hold the values that have a bucket.
-/

namespace ProcessThreadPool

namespace SortedBuckets

/-- A changed element changes the sum by as much. -/
theorem sum_modify {l : List ℕ} {i : ℕ} (f : ℕ → ℕ) (hi : i < l.length) :
    (l.modify i f).sum + l[i] = l.sum + f l[i] := by
  induction l generalizing i with
  | nil => cases hi
  | cons a l ih =>
      cases i with
      | zero =>
          simp only [List.modify_zero_cons, List.sum_cons, List.getElem_cons_zero]
          omega
      | succ i =>
          have hrest := ih (Nat.lt_of_succ_lt_succ hi)
          simp only [List.modify_succ_cons, List.sum_cons, List.getElem_cons_succ]
          omega

theorem sum_modify_succ {l : List ℕ} {i : ℕ} (hi : i < l.length) :
    (l.modify i (· + 1)).sum = l.sum + 1 := by
  have hmodify := sum_modify (· + 1) hi
  omega

theorem map_modify {α β : Type*} {f : α → α} {f' : β → β} {g : α → β}
    (hcomm : ∀ a, g (f a) = f' (g a)) (l : List α) (i : ℕ) :
    (l.modify i f).map g = (l.map g).modify i f' := by
  induction l generalizing i with
  | nil => simp only [List.modify_nil, List.map_nil]
  | cons a l ih =>
      cases i with
      | zero => simp [hcomm]
      | succ i => simp [ih i]

section

variable {α : Type*} [LinearOrder α]

/-- The index of the first bound that the value does not exceed. -/
def firstFit (bounds : List α) (v : α) : Option ℕ := bounds.findIdx? fun b => decide (v ≤ b)

/-- How many of the values belong to each bucket. -/
def tally (bounds values : List α) : List ℕ :=
  (List.range bounds.length).map fun i => values.countP fun v => decide (firstFit bounds v = some i)

variable {bounds : List α} {v : α} {i : ℕ}

theorem firstFit_lt (h : firstFit bounds v = some i) : i < bounds.length :=
  (List.findIdx?_eq_some_iff_getElem.mp h).1

theorem firstFit_isSome_iff : (firstFit bounds v).isSome = true ↔ ∃ b ∈ bounds, v ≤ b := by
  rw [firstFit, List.findIdx?_isSome, List.any_eq_true]
  simp only [decide_eq_true_eq]

/-- With ascending bounds the bucket of a value lies between two neighbouring bounds. -/
theorem firstFit_eq_some_iff (hsorted : bounds.Pairwise (· ≤ ·)) (hi : i < bounds.length) :
    firstFit bounds v = some i ↔ (0 < i → bounds[i - 1] < v) ∧ v ≤ bounds[i] := by
  rw [firstFit, List.findIdx?_eq_some_iff_getElem]
  simp only [decide_eq_true_eq, not_le]
  constructor
  · rintro ⟨_, hle, hbelow⟩
    exact ⟨fun hpos => hbelow (i - 1) (by omega), hle⟩
  · rintro ⟨hprev, hle⟩
    refine ⟨hi, hle, fun j hj => ?_⟩
    have hjprev : bounds[j] ≤ bounds[i - 1] := by
      rcases (Nat.le_sub_one_of_lt hj).lt_or_eq with hlt | rfl
      · exact List.pairwise_iff_getElem.mp hsorted j (i - 1) _ _ hlt
      · exact le_rfl
    exact hjprev.trans_lt (hprev (by omega))

@[simp] theorem length_tally (values : List α) : (tally bounds values).length = bounds.length := by
  rw [tally, List.length_map, List.length_range]

theorem getElem_tally (values : List α) (hi : i < (tally bounds values).length) :
    (tally bounds values)[i] = values.countP fun v => decide (firstFit bounds v = some i) := by
  simp only [tally, List.getElem_map, List.getElem_range]

theorem tally_nil : tally bounds ([] : List α) = List.replicate bounds.length 0 := by
  refine List.ext_getElem (by simp) fun i h _ => ?_
  rw [getElem_tally, List.getElem_replicate, List.countP_nil]

/-- One more value adds one to its bucket. -/
theorem tally_append (values : List α) (v : α) : tally bounds (values ++ [v]) =
    match firstFit bounds v with
    | some i => (tally bounds values).modify i (· + 1)
    | none => tally bounds values := by
  cases hfit : firstFit bounds v with
  | none =>
      refine List.ext_getElem (by simp) fun j h _ => ?_
      rw [getElem_tally, getElem_tally, List.countP_append]
      simp [hfit]
  | some i =>
      refine List.ext_getElem (by simp) fun j h _ => ?_
      rw [getElem_tally, List.getElem_modify, getElem_tally, List.countP_append]
      by_cases hij : i = j <;> simp [hfit, hij]

theorem getElem_tally_le (values : List α) (hi : i < (tally bounds values).length) :
    (tally bounds values)[i] ≤ values.length := by
  rw [getElem_tally]
  exact List.countP_le_length

/-- The buckets together hold the values that have a bucket. -/
theorem sum_tally (values : List α) : (tally bounds values).sum =
    values.countP fun v => (firstFit bounds v).isSome := by
  induction values using List.reverseRecOn with
  | nil => rw [tally_nil, List.sum_replicate_nat, Nat.mul_zero, List.countP_nil]
  | append_singleton values v ih =>
      rw [tally_append, List.countP_append, ← ih]
      cases hfit : firstFit bounds v with
      | none => simp [hfit]
      | some i =>
          rw [sum_modify_succ (by simpa using firstFit_lt hfit)]
          simp [hfit]

theorem countP_isSome_eq_length_iff (values : List α) :
    (values.countP fun v => (firstFit bounds v).isSome) = values.length ↔
      ∀ v ∈ values, ∃ b ∈ bounds, v ≤ b := by
  simp only [List.countP_eq_length, firstFit_isSome_iff]

end

end SortedBuckets

end ProcessThreadPool
