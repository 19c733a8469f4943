import Mathlib.Algebra.Order.Monoid.Defs
import ProcessThreadPool.Lib.Transition

/-!
# Reaching a goal among others

Some labels of a transition system are the own steps of the threads that work towards a goal;
all others belong to the environment. `Finishes` says that the goal is reached however the two
are interleaved: no run before the goal contains more than a fixed number of own steps, and at
each moment before it one of them can be taken. It follows from a measure that each own step
lowers and no other step raises, and it can be brought over from a simpler system.
-/

namespace ProcessThreadPool

namespace Transition

/-- The steps of `T` from the states before the goal. -/
def System.before {σ ι : Type*} (T : System σ ι) (goal : σ → Prop) : System σ ι :=
  T.restrict fun s _ => ¬ goal s

/-- However the steps are interleaved, the goal is reached after a bounded number of own
steps, one of which is possible as long as it is not reached. -/
def Finishes {σ ι : Type*} (T : System σ ι) (own : ι → Bool) (goal : σ → Prop) (s : σ) : Prop :=
  ∃ bound, ∀ ls t, Run (T.before goal) s ls t →
    ls.countP own ≤ bound ∧ (¬ goal t → ∃ l u, own l = true ∧ T.step t l u)

/-- In front of the goal the invariant is kept, an own step is possible, and `left` goes down
with every own step and up with none. -/
structure Progress {σ ι : Type*} (T : System σ ι) (own : ι → Bool) (goal I : σ → Prop)
    (left : σ → ℕ) : Prop where
  keep : ∀ s l t, I s → ¬ goal s → T.step s l t → I t
  spend : ∀ s l t, I s → ¬ goal s → T.step s l t → left t + (own l).toNat ≤ left s
  enabled : ∀ s, I s → ¬ goal s → ∃ l t, own l = true ∧ T.step s l t

namespace Progress

variable {σ ι : Type*} {T : System σ ι} {own : ι → Bool} {goal I : σ → Prop} {left : σ → ℕ}

/-- What the own steps of a run use up. -/
theorem run (h : Progress T own goal I left) {s t : σ} {ls : List ι}
    (hrun : Run (T.before goal) s ls t) (hs : I s) :
    I t ∧ left t + ls.countP own ≤ left s := by
  induction hrun with
  | nil s => exact ⟨hs, le_rfl⟩
  | @cons s u t l ls hstep _ ih =>
      obtain ⟨ht, hleft⟩ := ih (h.keep s l u hs hstep.1 hstep.2)
      have hspend := h.spend s l u hs hstep.1 hstep.2
      refine ⟨ht, ?_⟩
      rw [List.countP_cons]
      cases hown : own l with
      | false =>
          rw [hown, Bool.toNat_false] at hspend
          simp only [Bool.false_eq_true, if_false]
          omega
      | true =>
          rw [hown, Bool.toNat_true] at hspend
          simp only [if_true]
          omega

/-- The own steps of `T` are, under `f`, those of `U`, and the others are other steps of `U` or
none at all. An own step that `U` can take can be taken in `T`. -/
structure Mirrors {σ τ ι κ : Type*} (T : System σ ι) (own : ι → Bool) (U : System τ κ)
    (own' : κ → Bool) (f : σ → τ) (J : σ → Prop) : Prop where
  keep : ∀ s l t, J s → T.step s l t → J t
  step : ∀ s l t, J s → T.step s l t →
    own l = false ∧ f t = f s ∨ ∃ m, own' m = own l ∧ U.step (f s) m (f t)
  offer : ∀ s m u, J s → own' m = true → U.step (f s) m u → ∃ l t, own l = true ∧ T.step s l t

/-- A system that mirrors one with progress has it too. -/
theorem pullback {τ κ : Type*} {U : System τ κ} {own' : κ → Bool} {goal' I' : τ → Prop}
    {left' : τ → ℕ} {f : σ → τ} {J : σ → Prop} (h : Progress U own' goal' I' left')
    (hmirrors : Mirrors T own U own' f J) :
    Progress T own (fun s => goal' (f s)) (fun s => J s ∧ I' (f s)) (fun s => left' (f s)) where
  keep := by
    rintro s l t ⟨hs, hinv⟩ hgoal hstep
    refine ⟨hmirrors.keep s l t hs hstep, ?_⟩
    rcases hmirrors.step s l t hs hstep with ⟨-, hsame⟩ | ⟨m, -, hm⟩
    · rw [hsame]
      exact hinv
    · exact h.keep (f s) m (f t) hinv hgoal hm
  spend := by
    rintro s l t ⟨hs, hinv⟩ hgoal hstep
    rcases hmirrors.step s l t hs hstep with ⟨hown, hsame⟩ | ⟨m, hown, hm⟩
    · rw [hsame, hown, Bool.toNat_false]
      exact le_rfl
    · rw [← hown]
      exact h.spend (f s) m (f t) hinv hgoal hm
  enabled := by
    rintro s ⟨hs, hinv⟩ hgoal
    obtain ⟨m, u, hown, hm⟩ := h.enabled (f s) hinv hgoal
    exact hmirrors.offer s m u hs hown hm

/-- One goal after the other, where the way from the first to the second is bounded. -/
theorem append {goal' J : σ → Prop} {left' : σ → ℕ} {bound : ℕ} [DecidablePred goal]
    (h : Progress T own goal I left) (h' : Progress T own goal' J left')
    (hstart : ∀ s, I s → goal s → J s) (hgoal : ∀ s, J s → goal s)
    (hbound : ∀ s, J s → left' s ≤ bound) :
    Progress T own goal' (fun s => I s ∧ ¬ goal s ∨ J s)
      (fun s => if goal s then left' s else left s + bound) where
  keep := by
    rintro s l t (⟨hs, hnot⟩ | hs) hgoal' hstep
    · have ht := h.keep s l t hs hnot hstep
      by_cases hreached : goal t
      · exact Or.inr (hstart t ht hreached)
      · exact Or.inl ⟨ht, hreached⟩
    · exact Or.inr (h'.keep s l t hs hgoal' hstep)
  spend := by
    rintro s l t (⟨hs, hnot⟩ | hs) hgoal' hstep
    · have hspend := h.spend s l t hs hnot hstep
      rw [if_neg hnot]
      by_cases hreached : goal t
      · have hle := hbound t (hstart t (h.keep s l t hs hnot hstep) hreached)
        rw [if_pos hreached]
        omega
      · rw [if_neg hreached]
        omega
    · have ht := h'.keep s l t hs hgoal' hstep
      rw [if_pos (hgoal s hs), if_pos (hgoal t ht)]
      exact h'.spend s l t hs hgoal' hstep
  enabled := by
    rintro s (⟨hs, hnot⟩ | hs) hgoal'
    · exact h.enabled s hs hnot
    · exact h'.enabled s hs hgoal'

theorem finishes (h : Progress T own goal I left) {s : σ} (hs : I s) :
    Finishes T own goal s := by
  refine ⟨left s, fun ls t hrun => ?_⟩
  obtain ⟨ht, hleft⟩ := h.run hrun hs
  exact ⟨by omega, h.enabled t ht⟩

end Progress

end Transition

end ProcessThreadPool
