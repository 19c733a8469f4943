import Mathlib.Data.List.Basic

/-!
# Sequences of calls and forward simulation

A component that answers calls is a function `call : σ → ι → Option (ω × σ)`;
`none` is a fault (undefined behaviour of the code). `runCalls` performs a list
of calls and collects the answers. An abstract component never faults, so it is
a function `spec : α → ι → ω × α`, run by `runSpec`. A relation that relates
the answers and the successor states of every single call relates whole call
sequences, and rules out a fault in any of them.
-/

namespace ProcessThreadPool

namespace Simulation

/-- Perform the calls in order; `none` as soon as one of them faults. -/
def runCalls {σ ι ω : Type*} (call : σ → ι → Option (ω × σ)) :
    σ → List ι → Option (List ω × σ)
  | s, [] => some ([], s)
  | s, i :: is =>
      (call s i).bind fun r =>
        (runCalls call r.2 is).map fun rs => (r.1 :: rs.1, rs.2)

/-- Perform the calls in order on the abstract component. -/
def runSpec {α ι ω : Type*} (spec : α → ι → ω × α) : α → List ι → List ω × α
  | a, [] => ([], a)
  | a, i :: is =>
      ((spec a i).1 :: (runSpec spec (spec a i).2 is).1,
        (runSpec spec (spec a i).2 is).2)

/-- `R` relates every answer and successor state of `call` to those of `spec`. -/
def Simulates {σ α ι ω : Type*} (R : σ → α → Prop)
    (call : σ → ι → Option (ω × σ)) (spec : α → ι → ω × α) : Prop :=
  ∀ s a i, R s a → ∃ s', call s i = some ((spec a i).1, s') ∧ R s' (spec a i).2

theorem Simulates.runCalls {σ α ι ω : Type*} {R : σ → α → Prop}
    {call : σ → ι → Option (ω × σ)} {spec : α → ι → ω × α}
    (h : Simulates R call spec) (is : List ι) {s : σ} {a : α} (hR : R s a) :
    ∃ s', Simulation.runCalls call s is = some ((runSpec spec a is).1, s') ∧
      R s' (runSpec spec a is).2 := by
  induction is generalizing s a with
  | nil => exact ⟨s, rfl, hR⟩
  | cons i is ih =>
      obtain ⟨t, hcall, hRt⟩ := h s a i hR
      obtain ⟨u, hrest, hRu⟩ := ih hRt
      refine ⟨u, ?_, hRu⟩
      rw [Simulation.runCalls, hcall, Option.bind_some, hrest]
      rfl

end Simulation

end ProcessThreadPool
