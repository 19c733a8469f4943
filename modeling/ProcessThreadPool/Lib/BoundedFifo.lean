import Mathlib.Data.List.Basic

/-!
# Bounded first-in first-out lists

What a bounded queue is for: a list of at most `bound` elements, filled at the
back and emptied at the front. A refused operation changes nothing, and the
batch forms move as many elements as fit or are there.
-/

namespace ProcessThreadPool

namespace BoundedFifo

/-- Append one element when there is room. -/
def push {α : Type*} (bound : ℕ) (l : List α) (x : α) : Bool × List α :=
  if l.length < bound then (true, l ++ [x]) else (false, l)

/-- Remove the oldest element. -/
def pop {α : Type*} : List α → Option α × List α
  | [] => (none, [])
  | x :: l => (some x, l)

/-- Append the first elements of `xs`, as many as `count` and the room allow,
and return their number. -/
def pushMany {α : Type*} (bound : ℕ) (l xs : List α) (count : ℕ) : ℕ × List α :=
  (min count (bound - l.length), l ++ xs.take (min count (bound - l.length)))

/-- Remove the oldest elements, at most `count` of them. -/
def popMany {α : Type*} (l : List α) (count : ℕ) : List α × List α :=
  (l.take count, l.drop count)

theorem pop_drop {α : Type*} {hist : List α} {start : ℕ} (hlt : start < hist.length) :
    pop (hist.drop start) = (some hist[start], hist.drop (start + 1)) := by
  rw [List.drop_eq_getElem_cons hlt]
  rfl

end BoundedFifo

end ProcessThreadPool
