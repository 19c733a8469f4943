import Mathlib.Logic.Function.Iterate

/-!
# Loops that may not end

A loop is a function that is applied over and over. `Settles` says that it comes to an end and
that every state on the way is as it should be. One round at a time, `Settles` passes from a
state to the next one; an invariant that excludes the end shows that it fails. A loop that is
driven from outside takes the next element of an endless sequence in every round.
-/

namespace ProcessThreadPool

namespace DrivenLoop

/-- The loop comes to an end, and every state on the way is as it should be. -/
structure Settles {σ : Type*} (step : σ → σ) (done ok : σ → Prop) (s : σ) : Prop where
  ends : ∃ k, done (step^[k] s)
  safe : ∀ k, ok (step^[k] s)

/-- One round that takes the next element of the sequence. -/
def feed {σ ι : Type*} (step : σ → ι → σ) (p : σ × (ℕ → ι)) : σ × (ℕ → ι) :=
  (step p.1 (p.2 0), fun k => p.2 (k + 1))

section

variable {σ : Type*} {step : σ → σ} {done ok : σ → Prop} {s : σ}

/-- From a state that is not the end the end is reached through the next one. -/
theorem ends_iff_step (hdone : ¬ done s) :
    (∃ k, done (step^[k] s)) ↔ ∃ k, done (step^[k] (step s)) := by
  constructor
  · rintro ⟨k, hk⟩
    cases k with
    | zero => exact absurd hk hdone
    | succ k => exact ⟨k, hk⟩
  · rintro ⟨k, hk⟩
    exact ⟨k + 1, hk⟩

/-- A state that is not the end settles when it is as it should be and the next one settles. -/
theorem settles_iff_step (hdone : ¬ done s) :
    Settles step done ok s ↔ ok s ∧ Settles step done ok (step s) := by
  constructor
  · rintro ⟨hends, hsafe⟩
    exact ⟨hsafe 0, (ends_iff_step hdone).mp hends, fun k => hsafe (k + 1)⟩
  · rintro ⟨hs, hends, hsafe⟩
    refine ⟨(ends_iff_step hdone).mpr hends, fun k => ?_⟩
    cases k with
    | zero => exact hs
    | succ k => exact hsafe k

theorem not_settles_of_not_ok (h : ¬ ok s) : ¬ Settles step done ok s :=
  fun hsettles => h (hsettles.safe 0)

theorem iterate_of_invariant {I : σ → Prop} (hstep : ∀ s, I s → I (step s)) (hs : I s) (k : ℕ) :
    I (step^[k] s) := by
  induction k with
  | zero => exact hs
  | succ k ih =>
    rw [Function.iterate_succ_apply']
    exact hstep _ ih

/-- At the end nothing goes wrong any more. -/
theorem settles_of_invariant {I : σ → Prop} (hstep : ∀ s, I s → I (step s))
    (hend : ∀ s, I s → done s ∧ ok s) (hs : I s) : Settles step done ok s :=
  ⟨⟨0, (hend s hs).1⟩, fun k => (hend _ (iterate_of_invariant hstep hs k)).2⟩

/-- An invariant that excludes the end holds for ever. -/
theorem not_ends_of_invariant {I : σ → Prop} (hstep : ∀ s, I s → I (step s))
    (hdone : ∀ s, I s → ¬ done s) (hs : I s) : ¬ ∃ k, done (step^[k] s) := by
  rintro ⟨k, hk⟩
  exact hdone _ (iterate_of_invariant hstep hs k) hk

theorem not_settles_of_invariant {I : σ → Prop} (hstep : ∀ s, I s → I (step s))
    (hdone : ∀ s, I s → ¬ done s) (hs : I s) : ¬ Settles step done ok s :=
  fun h => not_ends_of_invariant hstep hdone hs h.ends

end

end DrivenLoop

end ProcessThreadPool
