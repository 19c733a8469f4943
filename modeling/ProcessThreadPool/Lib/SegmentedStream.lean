import Mathlib.Data.List.Basic
import Mathlib.Data.Nat.Notation

/-!
# Streams that arrive in segments

A stream socket delivers the elements in order and cuts them anywhere. `pull` asks for at
most so many elements and gets what the next segment has of them; `pullAll` repeats it
until it has them all. How the stream was cut makes no difference to what `pullAll` gets.
To `pull` it does: it gets all that it asks for exactly when no segment ends before.
-/

namespace ProcessThreadPool

namespace SegmentedStream

variable {α : Type*}

/-- At most `n` elements of the next segment; `none` when nothing is there. -/
def pull (n : ℕ) : List (List α) → Option (List α × List (List α))
  | [] => none
  | segment :: segments =>
      some (segment.take n,
        if n < segment.length then segment.drop n :: segments else segments)

/-- Exactly `n` elements, one segment after the other. -/
def pullAll : ℕ → List (List α) → Option (List α × List (List α))
  | 0, segments => some ([], segments)
  | _ + 1, [] => none
  | n + 1, segment :: segments =>
      if n + 1 < segment.length then
        some (segment.take (n + 1), segment.drop (n + 1) :: segments)
      else
        (pullAll (n + 1 - segment.length) segments).map fun r => (segment ++ r.1, r.2)

/-- One element after the other: `pullAll` is `pull` in a loop. -/
theorem pullAll_succ (n : ℕ) (segments : List (List α)) :
    pullAll (n + 1) segments = (pull (n + 1) segments).bind fun r =>
      (pullAll (n + 1 - r.1.length) r.2).map fun r' => (r.1 ++ r'.1, r'.2) := by
  cases segments with
  | nil => rfl
  | cons segment segments =>
      by_cases hlt : n + 1 < segment.length
      · have hlength : (segment.take (n + 1)).length = n + 1 :=
          List.length_take_of_le (Nat.le_of_lt hlt)
        simp [pullAll, pull, hlt, hlength]
      · have hall : segment.take (n + 1) = segment := List.take_of_length_le (Nat.le_of_not_lt hlt)
        simp only [pullAll, pull, if_neg hlt, hall, Option.bind_some]

/-- What is pulled depends on the elements, not on the segments. -/
theorem pullAll_of_flatten {segments : List (List α)} {a b : List α}
    (h : segments.flatten = a ++ b) :
    ∃ rest, pullAll a.length segments = some (a, rest) ∧ rest.flatten = b := by
  induction segments generalizing a with
  | nil =>
      obtain ⟨rfl, rfl⟩ := List.append_eq_nil_iff.mp h.symm
      exact ⟨[], rfl, rfl⟩
  | cons segment segments ih =>
      rw [List.flatten_cons] at h
      cases a with
      | nil => exact ⟨segment :: segments, rfl, h⟩
      | cons x a =>
          rw [List.length_cons, pullAll]
          rcases List.append_eq_append_iff.mp h with ⟨more, hmore, hrest⟩ | ⟨more, rfl, rfl⟩
          · have hle : ¬ a.length + 1 < segment.length := by
              rw [← List.length_cons (a := x), hmore, List.length_append]
              omega
            obtain ⟨rest, hpull, hb⟩ := ih hrest
            have hleft : a.length + 1 - segment.length = more.length := by
              rw [← List.length_cons (a := x), hmore, List.length_append, Nat.add_sub_cancel_left]
            rw [if_neg hle, hleft, hpull, hmore]
            exact ⟨rest, rfl, hb⟩
          · -- The segment ends with what was asked for, or goes on behind it.
            cases more with
            | nil =>
                rw [List.append_nil, List.length_cons, if_neg (Nat.lt_irrefl _), Nat.sub_self,
                  pullAll]
                exact ⟨segments, by simp, rfl⟩
            | cons y more =>
                rw [if_pos (by rw [List.length_append, List.length_cons]; simp),
                  List.take_left' List.length_cons, List.drop_left' List.length_cons]
                exact ⟨(y :: more) :: segments, rfl, rfl⟩

/-- What was pulled stood at the beginning of the stream. -/
theorem flatten_of_pullAll {n : ℕ} {segments rest : List (List α)} {a : List α}
    (h : pullAll n segments = some (a, rest)) :
    segments.flatten = a ++ rest.flatten ∧ a.length = n := by
  induction segments generalizing n a with
  | nil =>
      cases n with
      | zero =>
          cases h
          exact ⟨rfl, rfl⟩
      | succ n => cases h
  | cons segment segments ih =>
      cases n with
      | zero =>
          cases h
          exact ⟨rfl, rfl⟩
      | succ n =>
          rw [pullAll] at h
          split_ifs at h with hlt
          · cases h
            rw [List.flatten_cons, List.flatten_cons, ← List.append_assoc,
              List.take_append_drop]
            exact ⟨rfl, List.length_take_of_le (Nat.le_of_lt hlt)⟩
          · obtain ⟨⟨b, rest'⟩, hpull, hr⟩ := Option.map_eq_some_iff.mp h
            cases hr
            obtain ⟨hflatten, hlength⟩ := ih hpull
            simp only [List.flatten_cons, hflatten, List.append_assoc, List.length_append]
            exact ⟨trivial, by omega⟩

/-! ## Where the stream is cut -/

/-- The positions at which the segments end. -/
def cuts : List (List α) → List ℕ
  | [] => []
  | segment :: segments => segment.length :: (cuts segments).map (segment.length + ·)

/-- No segment ends strictly between the two positions. -/
def Uncut (low high : ℕ) (segments : List (List α)) : Prop :=
  ∀ p ∈ cuts segments, p ≤ low ∨ high ≤ p

instance (low high : ℕ) (segments : List (List α)) : Decidable (Uncut low high segments) :=
  inferInstanceAs (Decidable (∀ p ∈ cuts segments, p ≤ low ∨ high ≤ p))

theorem uncut_cons {low high : ℕ} {segment : List α} {segments : List (List α)} :
    Uncut low high (segment :: segments) ↔ (segment.length ≤ low ∨ high ≤ segment.length) ∧
      ∀ p ∈ cuts segments, segment.length + p ≤ low ∨ high ≤ segment.length + p := by
  rw [Uncut, cuts, List.forall_mem_cons, List.forall_mem_map]

theorem uncut_zero_cons {n : ℕ} {segment : List α} {segments : List (List α)}
    (hne : segment ≠ []) : Uncut 0 n (segment :: segments) ↔ n ≤ segment.length := by
  have hpos := List.length_pos_of_ne_nil hne
  rw [uncut_cons]
  constructor
  · rintro ⟨hfirst, -⟩
    omega
  · intro hle
    exact ⟨Or.inr hle, fun p _ => Or.inr (by omega)⟩

/-- What the next segment has is a beginning of the stream. -/
theorem flatten_of_pull {n : ℕ} {segments rest : List (List α)} {a : List α}
    (h : pull n segments = some (a, rest)) :
    segments.flatten = a ++ rest.flatten ∧ a.length ≤ n := by
  cases segments with
  | nil => cases h
  | cons segment segments =>
      obtain ⟨rfl, rfl⟩ := Prod.mk.inj (Option.some.inj h)
      refine ⟨?_, List.length_take_le n segment⟩
      split_ifs with hlt
      · rw [List.flatten_cons, List.flatten_cons, ← List.append_assoc, List.take_append_drop]
      · rw [List.flatten_cons, List.take_of_length_le (Nat.le_of_not_lt hlt)]

/-- Where the stream is not cut one `pull` gets everything, and the rest is cut where it was. -/
theorem pull_of_uncut {segments : List (List α)} (hsegments : ∀ segment ∈ segments, segment ≠ [])
    {a b : List α} (h : segments.flatten = a ++ b) (ha : a ≠ [])
    (huncut : Uncut 0 a.length segments) :
    ∃ rest, pull a.length segments = some (a, rest) ∧ rest.flatten = b ∧
      (∀ segment ∈ rest, segment ≠ []) ∧
      ∀ low high, Uncut low high rest ↔ Uncut (a.length + low) (a.length + high) segments := by
  cases segments with
  | nil => exact absurd (List.append_eq_nil_iff.mp h.symm).1 ha
  | cons segment segments =>
      obtain ⟨hne, hothers⟩ := List.forall_mem_cons.mp hsegments
      rw [uncut_zero_cons hne] at huncut
      have htake : segment.take a.length = a := by
        rw [List.flatten_cons] at h
        rw [← List.take_append_of_le_length huncut, h, List.take_left]
      have hpull : pull a.length (segment :: segments) = some (a,
          if a.length < segment.length then segment.drop a.length :: segments else segments) := by
        rw [pull, htake]
      refine ⟨_, hpull, ?_, ?_, fun low high => ?_⟩
      · exact List.append_cancel_left ((flatten_of_pull hpull).1.symm.trans h)
      · split_ifs with hlt
        · have hdrop : segment.drop a.length ≠ [] := by
            rw [Ne, List.drop_eq_nil_iff]
            omega
          exact List.forall_mem_cons.mpr ⟨hdrop, hothers⟩
        · exact hothers
      · split_ifs with hlt
        · rw [uncut_cons, uncut_cons, List.length_drop]
          refine and_congr (by omega) (forall₂_congr fun p _ => ?_)
          omega
        · rw [uncut_cons, Uncut]
          have hlength : segment.length = a.length := by omega
          rw [hlength]
          refine ⟨fun hrest => ⟨by omega, fun p hp => ?_⟩, fun hall p hp => ?_⟩
          · have hp' := hrest p hp
            omega
          · have hp' := hall.2 p hp
            omega

/-- Where the stream is cut one `pull` gets less than it asks for. -/
theorem pull_of_not_uncut {segments : List (List α)}
    (hsegments : ∀ segment ∈ segments, segment ≠ []) {a b : List α}
    (h : segments.flatten = a ++ b) (ha : a ≠ []) (hcut : ¬ Uncut 0 a.length segments) :
    ∃ c d rest, a = c ++ d ∧ c ≠ [] ∧ d ≠ [] ∧ pull a.length segments = some (c, rest) ∧
      rest.flatten = d ++ b := by
  cases segments with
  | nil => exact absurd (List.append_eq_nil_iff.mp h.symm).1 ha
  | cons segment segments =>
      obtain ⟨hne, -⟩ := List.forall_mem_cons.mp hsegments
      rw [uncut_zero_cons hne, Nat.not_le] at hcut
      rw [List.flatten_cons] at h
      obtain ⟨d, rfl⟩ : ∃ d, a = segment ++ d := by
        obtain ⟨d, hd, -⟩ | ⟨d, hd, -⟩ := List.append_eq_append_iff.mp h
        · exact ⟨d, hd⟩
        · rw [hd, List.length_append] at hcut
          omega
      have hpull : pull (segment ++ d).length (segment :: segments) =
          some (segment, segments) := by
        rw [pull, if_neg (Nat.lt_asymm hcut), List.take_of_length_le (Nat.le_of_lt hcut)]
      refine ⟨segment, d, segments, rfl, hne, ?_, hpull, ?_⟩
      · rintro rfl
        rw [List.append_nil] at hcut
        exact Nat.lt_irrefl _ hcut
      · rw [List.append_assoc] at h
        exact List.append_cancel_left h

end SegmentedStream

end ProcessThreadPool
