import Mathlib.Algebra.BigOperators.Group.Finset.Piecewise
import Mathlib.Algebra.Order.BigOperators.Group.Finset
import Mathlib.Data.Fintype.BigOperators

/-!
# Families of thread states

The states of finitely many threads are a function `f : ι → α`, and a step of one
thread is a `Function.update`. `total w f` adds up a weight of the states, so a
count of threads in a phase or the multiset of everything they hold is a total,
and `total_update_add` says how a step changes it.
-/

namespace ProcessThreadPool

namespace ThreadFamily

/-- The sum of the weights of all threads. -/
def total {ι α M : Type*} [Fintype ι] [AddCommMonoid M] (w : α → M) (f : ι → α) : M :=
  ∑ i, w (f i)

/-- A step of one thread exchanges its old weight for its new one. -/
theorem total_update_add {ι α M : Type*} [Fintype ι] [DecidableEq ι] [AddCommMonoid M]
    (w : α → M) (f : ι → α) (i : ι) (a : α) :
    total w (Function.update f i a) + w (f i) = total w f + w a := by
  have hcomp : (fun j => w (Function.update f i a j)) =
      Function.update (fun j => w (f j)) i (w a) := by
    funext j
    exact Function.apply_update (fun _ => w) f i a j
  rw [total, total, hcomp, Finset.sum_update_of_mem (Finset.mem_univ i),
    ← Finset.erase_eq, add_assoc, Finset.sum_erase_add _ _ (Finset.mem_univ i), add_comm]

/-- A step that moves weight between a thread and a store outside keeps the sum. -/
theorem total_update_balance {ι α M : Type*} [Fintype ι] [DecidableEq ι] [AddCommMonoid M]
    [IsRightCancelAdd M] (w : α → M) (f : ι → α) {i : ι} {a : α} {x y : M}
    (h : w a + y = w (f i) + x) : total w (Function.update f i a) + y = total w f + x := by
  refine add_right_cancel (b := w (f i)) ?_
  rw [add_right_comm, total_update_add, add_assoc, h, add_assoc, add_comm x]

/-- A thread that had no weight takes one on. -/
theorem total_update_of_zero {ι α M : Type*} [Fintype ι] [DecidableEq ι] [AddCommMonoid M]
    (w : α → M) (f : ι → α) {i : ι} (a : α) (h : w (f i) = 0) :
    total w (Function.update f i a) = total w f + w a := by
  have hadd := total_update_add w f i a
  rwa [h, add_zero] at hadd

/-- A thread gives its weight away. -/
theorem total_update_to_zero {ι α M : Type*} [Fintype ι] [DecidableEq ι] [AddCommMonoid M]
    (w : α → M) (f : ι → α) (i : ι) {a : α} (h : w a = 0) :
    total w (Function.update f i a) + w (f i) = total w f := by
  rw [total_update_add, h, add_zero]

theorem total_update_of_eq {ι α M : Type*} [Fintype ι] [DecidableEq ι]
    [AddCommMonoid M] [IsRightCancelAdd M] (w : α → M) (f : ι → α) {i : ι} {a : α}
    (h : w a = w (f i)) : total w (Function.update f i a) = total w f := by
  have hadd := total_update_add w f i a
  rw [h] at hadd
  exact add_right_cancel hadd

theorem total_eq_zero {ι α M : Type*} [Fintype ι] [AddCommMonoid M] {w : α → M}
    {f : ι → α} (h : ∀ i, w (f i) = 0) : total w f = 0 :=
  Finset.sum_eq_zero fun i _ => h i

theorem total_eq_zero_iff {ι α : Type*} [Fintype ι] {w : α → ℕ} {f : ι → α} :
    total w f = 0 ↔ ∀ i, w (f i) = 0 := by
  simp [total]

/-- A thread of weight at most one each: no more than there are threads. -/
theorem total_le_card {ι α : Type*} [Fintype ι] {w : α → ℕ} (h : ∀ a, w a ≤ 1)
    (f : ι → α) : total w f ≤ Fintype.card ι := by
  rw [total, Fintype.card_eq_sum_ones]
  exact Finset.sum_le_sum fun i _ => h (f i)

/-- When every thread has one of two kinds of weight at most, the two totals do
not exceed the number of threads. -/
theorem total_add_total_le {ι α β : Type*} [Fintype ι] {w : α → ℕ} {v : β → ℕ}
    {f : ι → α} {g : ι → β} (h : ∀ i, w (f i) + v (g i) ≤ 1) :
    total w f + total v g ≤ Fintype.card ι := by
  rw [total, total, ← Finset.sum_add_distrib, Fintype.card_eq_sum_ones]
  exact Finset.sum_le_sum fun i _ => h i

/-- Families with the same weights have the same total. -/
theorem total_congr {ι α M : Type*} [Fintype ι] [AddCommMonoid M] {w : α → M}
    {f g : ι → α} (h : ∀ i, w (f i) = w (g i)) : total w f = total w g :=
  Finset.sum_congr rfl fun i _ => h i

/-- A change of all threads that keeps each weight keeps the total. -/
theorem total_map_of_eq {ι α M : Type*} [Fintype ι] [AddCommMonoid M] {w : α → M}
    {g : α → α} (h : ∀ a, w (g a) = w a) (f : ι → α) :
    total w (fun i => g (f i)) = total w f :=
  total_congr fun i => h (f i)

/-- What holds of every thread still does when one of them steps. -/
theorem forall_update {ι α : Type*} [DecidableEq ι] {P : ι → α → Prop} {f : ι → α}
    {i : ι} {a : α} (h : ∀ j, P j (f j)) (ha : P i a) :
    ∀ j, P j (Function.update f i a j) := by
  intro j
  by_cases hji : j = i
  · subst hji
    simpa using ha
  · rw [Function.update_of_ne hji]
    exact h j

end ThreadFamily

end ProcessThreadPool
