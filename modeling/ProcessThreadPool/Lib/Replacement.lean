import Mathlib.Data.List.Basic
import Mathlib.Data.List.Infix

/-!
# Replacing the occurrences of a pattern

A text is read from the left. Where the pattern begins, the replacement is put out and the
pattern is skipped, and elsewhere one element is copied; so an occurrence that overlaps one
further left is not replaced. A program that looks for one occurrence after the other goes
through the text in larger pieces, and `occurrenceInduction` follows it.
-/

namespace ProcessThreadPool

namespace Replacement

variable {α : Type*} [DecidableEq α]

/-- The offset of the first occurrence of the pattern. -/
def find (pattern : List α) : List α → Option ℕ
  | [] => if pattern = [] then some 0 else none
  | a :: s => if pattern <+: a :: s then some 0 else (find pattern s).map (· + 1)

/-- Replace the occurrences, with so many elements still to be skipped. -/
def replaceFrom (pattern new : List α) : ℕ → List α → List α
  | _, [] => []
  | skip + 1, _ :: s => replaceFrom pattern new skip s
  | 0, a :: s =>
      if pattern <+: a :: s then new ++ replaceFrom pattern new (pattern.length - 1) s
      else a :: replaceFrom pattern new 0 s

/-- Replace every leftmost occurrence that does not overlap an earlier one. -/
def replaceAll (pattern new s : List α) : List α := replaceFrom pattern new 0 s

/-- The number of these occurrences, with so many elements still to be skipped. -/
def countFrom (pattern : List α) : ℕ → List α → ℕ
  | _, [] => 0
  | skip + 1, _ :: s => countFrom pattern skip s
  | 0, a :: s =>
      if pattern <+: a :: s then countFrom pattern (pattern.length - 1) s + 1
      else countFrom pattern 0 s

/-- The number of leftmost occurrences that do not overlap an earlier one. -/
def count (pattern s : List α) : ℕ := countFrom pattern 0 s

variable {pattern new s : List α} {k : ℕ}

/-! ## The first occurrence -/

/-- The pattern begins here, or its first occurrence is one further on than in the rest. -/
theorem find_cons {a : α} (h : find pattern (a :: s) = some k) :
    (pattern <+: a :: s ∧ k = 0) ∨
      (¬ pattern <+: a :: s ∧ ∃ j, find pattern s = some j ∧ k = j + 1) := by
  rw [find] at h
  split_ifs at h with hstarts
  · exact Or.inl ⟨hstarts, (Option.some.inj h).symm⟩
  · obtain ⟨j, hj, hk⟩ := Option.map_eq_some_iff.mp h
    exact Or.inr ⟨hstarts, j, hj, hk.symm⟩

theorem find_nil (hpattern : pattern ≠ []) : find pattern ([] : List α) = none :=
  if_neg hpattern

theorem prefix_of_find (h : find pattern s = some k) : pattern <+: s.drop k := by
  induction s generalizing k with
  | nil =>
      rw [find] at h
      split_ifs at h with hpattern
      rw [hpattern]
      exact List.nil_prefix
  | cons a s ih =>
      rcases find_cons h with ⟨hstarts, rfl⟩ | ⟨-, j, hj, rfl⟩
      · exact hstarts
      · exact ih hj

theorem add_length_le_of_find (hpattern : pattern ≠ []) (h : find pattern s = some k) :
    k + pattern.length ≤ s.length := by
  have hle := (prefix_of_find h).length_le
  have hpos := List.length_pos_iff.mpr hpattern
  rw [List.length_drop] at hle
  omega

theorem length_drop_lt_of_find (hpattern : pattern ≠ []) (h : find pattern s = some k) :
    (s.drop (k + pattern.length)).length < s.length := by
  have hle := add_length_le_of_find hpattern h
  have hpos := List.length_pos_iff.mpr hpattern
  rw [List.length_drop]
  omega

/-- Whatever holds of the texts without an occurrence, and of a text when it holds of what
is left behind its first occurrence, holds of all texts. -/
theorem occurrenceInduction {P : List α → Prop} (hpattern : pattern ≠ [])
    (hnone : ∀ s, find pattern s = none → P s)
    (hsome : ∀ s k, find pattern s = some k → P (s.drop (k + pattern.length)) → P s)
    (s : List α) : P s := by
  induction hlength : s.length using Nat.strong_induction_on generalizing s with
  | h n ih =>
      cases hfind : find pattern s with
      | none => exact hnone s hfind
      | some k =>
          have hlt := length_drop_lt_of_find hpattern hfind
          exact hsome s k hfind (ih _ (hlength ▸ hlt) _ rfl)

/-! ## Replacing and counting, one occurrence at a time -/

theorem replaceFrom_eq_drop (skip : ℕ) :
    replaceFrom pattern new skip s = replaceAll pattern new (s.drop skip) := by
  induction s generalizing skip with
  | nil => cases skip <;> rfl
  | cons a s ih =>
      cases skip with
      | zero => rfl
      | succ skip => exact ih skip

theorem countFrom_eq_drop (skip : ℕ) :
    countFrom pattern skip s = count pattern (s.drop skip) := by
  induction s generalizing skip with
  | nil => cases skip <;> rfl
  | cons a s ih =>
      cases skip with
      | zero => rfl
      | succ skip => exact ih skip

omit [DecidableEq α] in
/-- Behind the first element as much is skipped as the pattern is longer than one. -/
theorem drop_pattern (hpattern : pattern ≠ []) (a : α) (s : List α) :
    (a :: s).drop (0 + pattern.length) = s.drop (pattern.length - 1) := by
  obtain ⟨m, hm⟩ := Nat.exists_eq_succ_of_ne_zero (List.length_pos_iff.mpr hpattern).ne'
  rw [hm, Nat.zero_add]
  rfl

theorem replaceAll_of_none (h : find pattern s = none) : replaceAll pattern new s = s := by
  induction s with
  | nil => rfl
  | cons a s ih =>
      rw [find] at h
      split_ifs at h with hstarts
      rw [replaceAll, replaceFrom, if_neg hstarts]
      exact congrArg (a :: ·) (ih (Option.map_eq_none_iff.mp h))

theorem count_of_none (h : find pattern s = none) : count pattern s = 0 := by
  induction s with
  | nil => rfl
  | cons a s ih =>
      rw [find] at h
      split_ifs at h with hstarts
      rw [count, countFrom, if_neg hstarts]
      exact ih (Option.map_eq_none_iff.mp h)

theorem replaceAll_of_some (hpattern : pattern ≠ []) (h : find pattern s = some k) :
    replaceAll pattern new s =
      s.take k ++ (new ++ replaceAll pattern new (s.drop (k + pattern.length))) := by
  induction s generalizing k with
  | nil =>
      rw [find_nil hpattern] at h
      cases h
  | cons a s ih =>
      rcases find_cons h with ⟨hstarts, rfl⟩ | ⟨hstarts, j, hj, rfl⟩
      · rw [replaceAll, replaceFrom, if_pos hstarts, replaceFrom_eq_drop,
          drop_pattern hpattern, List.take_zero, List.nil_append]
      · rw [replaceAll, replaceFrom, if_neg hstarts, Nat.add_right_comm]
        exact congrArg (a :: ·) (ih hj)

theorem count_of_some (hpattern : pattern ≠ []) (h : find pattern s = some k) :
    count pattern s = count pattern (s.drop (k + pattern.length)) + 1 := by
  induction s generalizing k with
  | nil =>
      rw [find_nil hpattern] at h
      cases h
  | cons a s ih =>
      rcases find_cons h with ⟨hstarts, rfl⟩ | ⟨hstarts, j, hj, rfl⟩
      · rw [count, countFrom, if_pos hstarts, countFrom_eq_drop, drop_pattern hpattern]
      · rw [count, countFrom, if_neg hstarts, Nat.add_right_comm]
        exact ih hj

/-- Each occurrence is as long as the pattern before and as long as the replacement after. -/
theorem length_replaceAll (hpattern : pattern ≠ []) (new s : List α) :
    (replaceAll pattern new s).length + count pattern s * pattern.length =
      s.length + count pattern s * new.length := by
  induction s using occurrenceInduction hpattern with
  | hnone s hfind =>
      rw [replaceAll_of_none hfind, count_of_none hfind]
      omega
  | hsome s k hfind ih =>
      have hle := add_length_le_of_find hpattern hfind
      rw [List.length_drop] at ih
      rw [replaceAll_of_some hpattern hfind, count_of_some hpattern hfind, List.length_append,
        List.length_append, List.length_take, Nat.succ_mul, Nat.succ_mul]
      omega

theorem count_le_length (hpattern : pattern ≠ []) (s : List α) :
    count pattern s ≤ s.length := by
  induction s using occurrenceInduction hpattern with
  | hnone s hfind =>
      rw [count_of_none hfind]
      exact Nat.zero_le _
  | hsome s k hfind ih =>
      have hle := add_length_le_of_find hpattern hfind
      have hpos := List.length_pos_iff.mpr hpattern
      rw [List.length_drop] at ih
      rw [count_of_some hpattern hfind]
      omega

end Replacement

end ProcessThreadPool
