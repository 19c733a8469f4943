import ProcessThreadPool.Lib.Transition

/-!
# Projections of transition systems

A system with more detail than another refines it when forgetting the detail turns each of
its steps into a step of the other or into no step at all. Its runs then project to runs, and
the invariants of the system without the detail hold of it. A detail that can be added to any
system is a record of its steps, so that a condition can look at their order.
-/

namespace ProcessThreadPool

namespace Transition

variable {σ α ι κ : Type*} {T : System σ ι} {U : System α κ} {f : σ → α}

/-- Under `f` every step of `T` is a step of `U` or leaves the state of `U` as it is. -/
structure Projects (T : System σ ι) (U : System α κ) (f : σ → α) : Prop where
  init : ∀ s, T.init s → U.init (f s)
  step : ∀ s l t, T.step s l t → f t = f s ∨ ∃ m, U.step (f s) m (f t)

namespace Projects

theorem run (h : Projects T U f) {s t : σ} {ls : List ι} (hrun : Run T s ls t) :
    ∃ ms, Run U (f s) ms (f t) := by
  induction hrun with
  | nil s => exact ⟨[], .nil (f s)⟩
  | @cons s u t l ls hstep _ ih =>
      obtain ⟨ms, hms⟩ := ih
      rcases h.step s l u hstep with hsame | ⟨m, hm⟩
      · rw [hsame] at hms
        exact ⟨ms, hms⟩
      · exact ⟨m :: ms, .cons hm hms⟩

theorem reachable (h : Projects T U f) {s : σ} (hs : Reachable T s) : Reachable U (f s) := by
  obtain ⟨s₀, ls, hinit, hrun⟩ := hs
  obtain ⟨ms, hms⟩ := h.run hrun
  exact ⟨f s₀, ms, h.init s₀ hinit, hms⟩

theorem restrict (h : Projects T U f) (C : σ → ι → Prop) : Projects (T.restrict C) U f where
  init := h.init
  step := fun s l t hstep => h.step s l t hstep.2

end Projects

/-- `T` with a record of the steps so far, which no step of `T` looks at. -/
def System.record {η : Type*} (T : System σ ι) (h₀ : η) (note : σ → η → ι → η) :
    System (σ × η) ι where
  init := fun s => T.init s.1 ∧ s.2 = h₀
  step := fun s l t => T.step s.1 l t.1 ∧ t.2 = note s.1 s.2 l

theorem Run.record_cons {η : Type*} {h₀ h : η} {note : σ → η → ι → η} {C : σ × η → ι → Prop}
    {s t : σ} {u : σ × η} {l : ι} {ls : List ι} (hC : C (s, h) l) (hstep : T.step s l t)
    (hrest : Run ((T.record h₀ note).restrict C) (t, note s h l) ls u) :
    Run ((T.record h₀ note).restrict C) (s, h) (l :: ls) u :=
  .cons ⟨hC, hstep, rfl⟩ hrest

/-- `run_filter_iff_restrict` for a condition that looks at the record of the steps so far. -/
theorem run_filter_iff_record {η : Type*} {h₀ : η}
    {note : σ → η → ι → η} {C : σ × η → ι → Prop} {P : σ → ι → σ → Prop} {I : σ × η → Prop}
    (hI : ∀ s l t, I s → C s l → (T.record h₀ note).step s l t → I t)
    (hP : ∀ s l t, I s → (T.record h₀ note).step s l t → (P s.1 l t.1 ↔ C s l)) {s t : σ} {h : η}
    {ls : List ι} (hs : I (s, h)) :
    Run (T.filter P) s ls t ↔
      ∃ k, Run ((T.record h₀ note).restrict C) (s, h) ls (t, k) := by
  constructor
  · intro hrun
    induction hrun generalizing h with
    | nil s => exact ⟨h, .nil _⟩
    | @cons s u t l ls hstep _ ih =>
        have hnoted : (T.record h₀ note).step (s, h) l (u, note s h l) := ⟨hstep.1, rfl⟩
        have hC := (hP _ l _ hs hnoted).mp hstep.2
        obtain ⟨k, hk⟩ := ih (hI _ l _ hs hC hnoted)
        exact ⟨k, .cons ⟨hC, hnoted⟩ hk⟩
  · rintro ⟨k, hrun⟩
    induction ls generalizing s h with
    | nil =>
        cases hrun
        exact .nil _
    | cons l ls ih =>
        cases hrun with
        | @cons _ u _ _ _ hstep hrest =>
            have hP := (hP _ l u hs hstep.2).mpr hstep.1
            exact .cons ⟨hstep.2.1, hP⟩ (ih (hI _ l u hs hstep.1 hstep.2) hrest)

/-- A sequence of labels can be checked, with a condition on each of its steps. -/
theorem reachable_restrict_of_exec {s₀ s : σ} {g : σ → ι → Option σ} {C : σ → ι → Prop}
    [∀ s l, Decidable (C s l)] {ls : List ι}
    (h : exec (fun s l => if C s l then g s l else none) s₀ ls = some s) :
    Reachable ((System.ofFun s₀ g).restrict C) s := by
  refine ⟨s₀, ls, rfl, run_of_exec (fun s l u hstep => ?_) h⟩
  split_ifs at hstep with hC
  exact ⟨hC, hstep⟩

end Transition

end ProcessThreadPool
