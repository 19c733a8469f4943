import Mathlib.Order.Lattice

/-!
# Retry loops that keep an extremum

A thread lowers a shared cell to its value by a loop: while the value is smaller than the
last seen content of the cell, it tries to exchange the two. A weak exchange may fail although
the cell has not changed, and a failed one shows the content of the cell anew. What a thread
has seen never lies below the cell, because the cell only goes down; so a thread that leaves
the loop leaves the minimum of the old content and its value, whichever way it leaves. For the
maximum the order is turned round.
-/

namespace ProcessThreadPool

namespace WeakExchange

/-- `atomic_compare_exchange_weak`: whether it succeeded, the cell, and the expected value,
which a failure replaces by the content of the cell. -/
def compareExchangeWeak {α : Type*} [DecidableEq α] (cell expected desired : α)
    (spurious : Bool) : Bool × α × α :=
  if cell = expected ∧ spurious = false then (true, desired, expected) else (false, cell, cell)

section

variable {α : Type*} [LinearOrder α]

/-- One round of the loop that lowers the cell: the cell, and what the thread has seen of it
if it goes on. -/
def lower (cell value current : α) (spurious : Bool) : α × Option α :=
  if value < current then
    match compareExchangeWeak cell current value spurious with
    | (true, cell, _) => (cell, none)
    | (false, cell, current) => (cell, some current)
  else (cell, none)

/-- One round of the loop that raises the cell. -/
def raise (cell value current : α) (spurious : Bool) : α × Option α :=
  if value > current then
    match compareExchangeWeak cell current value spurious with
    | (true, cell, _) => (cell, none)
    | (false, cell, current) => (cell, some current)
  else (cell, none)

variable {cell value current : α} {spurious : Bool}

/-- The ways a round ends: the value is not smaller, it is exchanged for the content of the
cell, or the exchange fails. -/
theorem lower_cases (cell value current : α) (spurious : Bool) :
    (current ≤ value ∧ lower cell value current spurious = (cell, none)) ∨
      (value < cell ∧ lower cell value current spurious = (value, none)) ∨
      lower cell value current spurious = (cell, some cell) := by
  simp only [lower, compareExchangeWeak]
  by_cases hlt : value < current
  · rw [if_pos hlt]
    by_cases hexchange : cell = current ∧ spurious = false
    · rw [if_pos hexchange]
      exact Or.inr (Or.inl ⟨hexchange.1 ▸ hlt, rfl⟩)
    · rw [if_neg hexchange]
      exact Or.inr (Or.inr rfl)
  · rw [if_neg hlt]
    exact Or.inl ⟨not_lt.mp hlt, rfl⟩

/-- The cell only goes down. -/
theorem lower_le : (lower cell value current spurious).1 ≤ cell := by
  rcases lower_cases cell value current spurious with ⟨-, h⟩ | ⟨hlt, h⟩ | h <;> rw [h]
  exact hlt.le

/-- A thread that leaves the loop leaves the minimum. -/
theorem lower_eq_min (hseen : cell ≤ current)
    (hleaves : (lower cell value current spurious).2 = none) :
    (lower cell value current spurious).1 = min cell value := by
  rcases lower_cases cell value current spurious with ⟨hle, h⟩ | ⟨hlt, h⟩ | h
  · rw [h, min_eq_left (hseen.trans hle)]
  · rw [h, min_eq_right hlt.le]
  · rw [h] at hleaves
    cases hleaves

/-- A thread that goes on has changed nothing, and has seen the cell. -/
theorem lower_eq_self {seen : α} (hon : (lower cell value current spurious).2 = some seen) :
    (lower cell value current spurious).1 = cell ∧ seen = cell := by
  rcases lower_cases cell value current spurious with ⟨-, h⟩ | ⟨-, h⟩ | h <;> rw [h] at hon ⊢
  · cases hon
  · cases hon
  · exact ⟨rfl, (Option.some.inj hon).symm⟩

/-- A thread that has seen the cell as it is leaves the loop when the exchange does not fail
spuriously. -/
theorem lower_leaves : (lower cell value cell false).2 = none := by
  by_cases hlt : value < cell <;> simp [lower, compareExchangeWeak, hlt]

theorem le_raise : cell ≤ (raise cell value current spurious).1 :=
  lower_le (α := αᵒᵈ)

theorem raise_eq_max (hseen : current ≤ cell)
    (hleaves : (raise cell value current spurious).2 = none) :
    (raise cell value current spurious).1 = max cell value :=
  lower_eq_min (α := αᵒᵈ) hseen hleaves

theorem raise_eq_self {seen : α} (hon : (raise cell value current spurious).2 = some seen) :
    (raise cell value current spurious).1 = cell ∧ seen = cell :=
  lower_eq_self (α := αᵒᵈ) hon

theorem raise_leaves : (raise cell value cell false).2 = none :=
  lower_leaves (α := αᵒᵈ)

end

end WeakExchange

end ProcessThreadPool
