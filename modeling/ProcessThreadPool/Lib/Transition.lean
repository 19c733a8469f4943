import Mathlib.Data.List.Basic

/-!
# Labelled transition systems

`System σ ι` is a set of initial states together with a labelled step relation.
`Run T s ls t` says that performing the labels `ls` in order leads from `s` to
`t`; a state is reachable when some run from an initial state ends in it. Every
model of this development is given as a partial step function
`σ → ι → Option σ` and read as a system through `System.ofFun`: a label that is
not enabled in a state has no successor there. An invariant is proved once per
step and transported to all reachable states by `Inductive.reachable`.
-/

namespace ProcessThreadPool

namespace Transition

/-- A labelled transition system: which states are initial, and which steps
each label allows. -/
structure System (σ ι : Type*) where
  init : σ → Prop
  step : σ → ι → σ → Prop

/-- The system of a partial step function started in one fixed state. -/
def System.ofFun {σ ι : Type*} (s₀ : σ) (f : σ → ι → Option σ) : System σ ι where
  init := fun s => s = s₀
  step := fun s l t => f s l = some t

/-- The steps of `T` that meet the condition `C` on the state before them and
on their label. -/
def System.restrict {σ ι : Type*} (T : System σ ι) (C : σ → ι → Prop) :
    System σ ι where
  init := T.init
  step := fun s l t => C s l ∧ T.step s l t

/-- The steps of `T` that meet the requirement `P` on the states before and after
them. -/
def System.filter {σ ι : Type*} (T : System σ ι) (P : σ → ι → σ → Prop) :
    System σ ι where
  init := T.init
  step := fun s l t => T.step s l t ∧ P s l t

/-- Performing the labels in order leads from the first state to the last. -/
inductive Run {σ ι : Type*} (T : System σ ι) : σ → List ι → σ → Prop
  | nil (s : σ) : Run T s [] s
  | cons {s t u : σ} {l : ι} {ls : List ι} :
      T.step s l t → Run T t ls u → Run T s (l :: ls) u

/-- The states in which some run from an initial state ends. -/
def Reachable {σ ι : Type*} (T : System σ ι) (s : σ) : Prop :=
  ∃ s₀ ls, T.init s₀ ∧ Run T s₀ ls s

namespace Run

theorem append {σ ι : Type*} {T : System σ ι} {s t u : σ} {ls ms : List ι}
    (h : Run T s ls t) (h' : Run T t ms u) : Run T s (ls ++ ms) u := by
  induction h with
  | nil => exact h'
  | cons hstep _ ih => exact .cons hstep (ih h')

theorem snoc {σ ι : Type*} {T : System σ ι} {s t u : σ} {ls : List ι} {l : ι}
    (h : Run T s ls t) (hstep : T.step t l u) : Run T s (ls ++ [l]) u :=
  h.append (.cons hstep (.nil u))

/-- A run of an appended label list passes through a middle state. -/
theorem split {σ ι : Type*} {T : System σ ι} {s u : σ} {ls ms : List ι}
    (h : Run T s (ls ++ ms) u) : ∃ t, Run T s ls t ∧ Run T t ms u := by
  induction ls generalizing s with
  | nil => exact ⟨s, .nil s, h⟩
  | cons l ls ih =>
      cases h with
      | cons hstep hrest =>
          obtain ⟨t, hls, hms⟩ := ih hrest
          exact ⟨t, .cons hstep hls, hms⟩

/-- A predicate preserved by every step is preserved by every run. -/
theorem preserves {σ ι : Type*} {T : System σ ι} {I : σ → Prop} {s t : σ}
    {ls : List ι} (h : Run T s ls t)
    (hI : ∀ s l t, I s → T.step s l t → I t) (hs : I s) : I t := by
  induction h with
  | nil => exact hs
  | cons hstep _ ih => exact ih (hI _ _ _ hs hstep)

/-- A run all of whose labels meet a condition is a run of the restricted
system. -/
theorem restrict {σ ι : Type*} {T : System σ ι} {C : σ → ι → Prop} {s t : σ}
    {ls : List ι} (h : Run T s ls t) (hC : ∀ l ∈ ls, ∀ s, C s l) :
    Run (T.restrict C) s ls t := by
  induction h with
  | nil s => exact .nil s
  | @cons s u t l ls hstep _ ih =>
      exact .cons ⟨hC l List.mem_cons_self s, hstep⟩
        (ih fun m hm => hC m (List.mem_cons_of_mem l hm))

/-- All labels of a run of the restricted system meet a condition on labels alone. -/
theorem forall_mem_of_restrict {σ ι : Type*} {T : System σ ι} {C : ι → Prop} {s t : σ}
    {ls : List ι} (h : Run (T.restrict fun _ l => C l) s ls t) : ∀ l ∈ ls, C l := by
  induction h with
  | nil => exact List.forall_mem_nil C
  | cons hstep _ ih => exact List.forall_mem_cons.mpr ⟨hstep.1, ih⟩

end Run

theorem Reachable.step {σ ι : Type*} {T : System σ ι} {s t : σ} {l : ι}
    (h : Reachable T s) (hstep : T.step s l t) : Reachable T t := by
  obtain ⟨s₀, ls, hinit, hrun⟩ := h
  exact ⟨s₀, ls ++ [l], hinit, hrun.snoc hstep⟩

/-- An inductive invariant: it holds initially and every step keeps it. -/
structure Inductive {σ ι : Type*} (T : System σ ι) (I : σ → Prop) : Prop where
  init : ∀ s, T.init s → I s
  step : ∀ s l t, I s → T.step s l t → I t

theorem Inductive.reachable {σ ι : Type*} {T : System σ ι} {I : σ → Prop}
    (h : Inductive T I) {s : σ} (hs : Reachable T s) : I s := by
  obtain ⟨s₀, ls, hinit, hrun⟩ := hs
  exact hrun.preserves h.step (h.init s₀ hinit)

/-- What the steps that meet a condition keep is invariant under these steps. -/
theorem Inductive.restrict {σ ι : Type*} {T : System σ ι} {C : σ → ι → Prop} {I : σ → Prop}
    (hinit : ∀ s, T.init s → I s) (hstep : ∀ s l t, I s → C s l → T.step s l t → I t) :
    Inductive (T.restrict C) I :=
  ⟨hinit, fun s l t hs h => hstep s l t hs h.1 h.2⟩

/-- When an invariant that holds as long as `C` does makes the requirement `P` on a
step equivalent to the condition `C` on the state before it, the runs that meet
`P` at every step are those that meet `C` at every step. -/
theorem run_filter_iff_restrict {σ ι : Type*} {T : System σ ι} {C : σ → ι → Prop}
    {P : σ → ι → σ → Prop} {I : σ → Prop}
    (hI : ∀ s l t, I s → C s l → T.step s l t → I t)
    (hP : ∀ s l t, I s → T.step s l t → (P s l t ↔ C s l)) {s t : σ} {ls : List ι}
    (hs : I s) : Run (T.filter P) s ls t ↔ Run (T.restrict C) s ls t := by
  constructor
  · intro h
    induction h with
    | nil s => exact .nil s
    | @cons s u t l ls hstep _ ih =>
        have hC := (hP s l u hs hstep.1).mp hstep.2
        exact .cons ⟨hC, hstep.1⟩ (ih (hI s l u hs hC hstep.1))
  · intro h
    induction h with
    | nil s => exact .nil s
    | @cons s u t l ls hstep _ ih =>
        have hC := (hP s l u hs hstep.2).mpr hstep.1
        exact .cons ⟨hstep.2, hC⟩ (ih (hI s l u hs hstep.1 hstep.2))

/-- The successive states of a partial step function, stopping at the first
label that is not enabled. -/
def exec {σ ι : Type*} (f : σ → ι → Option σ) (s : σ) (ls : List ι) : Option σ :=
  ls.foldlM f s

theorem exec_cons {σ ι : Type*} (f : σ → ι → Option σ) (s : σ) (l : ι)
    (ls : List ι) : exec f s (l :: ls) = (f s l).bind fun t => exec f t ls := rfl

/-- Some sequence of labels leads from the first state to the second one. -/
def Leads {σ ι : Type*} (f : σ → ι → Option σ) (s t : σ) : Prop := ∃ ls, exec f s ls = some t

theorem Leads.refl {σ ι : Type*} (f : σ → ι → Option σ) (s : σ) : Leads f s s := ⟨[], rfl⟩

theorem Leads.head {σ ι : Type*} {f : σ → ι → Option σ} {s t u : σ} {l : ι}
    (hstep : f s l = some u) (h : Leads f u t) : Leads f s t := by
  obtain ⟨ls, hls⟩ := h
  refine ⟨l :: ls, ?_⟩
  rw [exec_cons, hstep]
  exact hls

/-- What every step keeps holds wherever the first state leads. -/
theorem Leads.preserves {σ ι : Type*} {f : σ → ι → Option σ} {s t : σ} (h : Leads f s t)
    {I : σ → Prop} (hI : ∀ s l t, I s → f s l = some t → I t) (hs : I s) : I t := by
  obtain ⟨ls, hls⟩ := h
  induction ls generalizing s with
  | nil =>
      obtain rfl := Option.some.inj hls
      exact hs
  | cons l ls ih =>
      rw [exec_cons, Option.bind_eq_some_iff] at hls
      obtain ⟨u, hstep, hrest⟩ := hls
      exact ih (hI s l u hs hstep) hrest

/-- The successive states are those of a run of every system with these steps. -/
theorem run_of_exec {σ ι : Type*} {T : System σ ι} {f : σ → ι → Option σ}
    (hT : ∀ s l t, f s l = some t → T.step s l t) {s t : σ} {ls : List ι}
    (h : exec f s ls = some t) : Run T s ls t := by
  induction ls generalizing s with
  | nil =>
      obtain rfl := Option.some.inj h
      exact .nil s
  | cons l ls ih =>
      rw [exec_cons, Option.bind_eq_some_iff] at h
      obtain ⟨u, hstep, hrest⟩ := h
      exact .cons (hT s l u hstep) (ih hrest)

theorem run_ofFun_iff {σ ι : Type*} {s₀ : σ} {f : σ → ι → Option σ} {s t : σ}
    {ls : List ι} : Run (System.ofFun s₀ f) s ls t ↔ exec f s ls = some t := by
  constructor
  · intro h
    induction h with
    | nil s => rfl
    | @cons s u t l ls hstep _ ih =>
        have hcall : f s l = some u := hstep
        rw [exec_cons, hcall]
        exact ih
  · exact run_of_exec fun _ _ _ hstep => hstep

/-- A sequence of labels can be checked, with a requirement on each of its steps. -/
theorem run_filter_of_exec {σ ι : Type*} {T : System σ ι} {f : σ → ι → Option σ}
    (hT : ∀ s l t, f s l = some t → T.step s l t) {P : σ → ι → σ → Prop}
    [∀ s l t, Decidable (P s l t)] {s t : σ} {ls : List ι}
    (h : exec (fun s l => (f s l).filter fun t => P s l t) s ls = some t) :
    Run (T.filter P) s ls t := by
  refine run_of_exec (fun s l u hstep => ?_) h
  obtain ⟨hu, hP⟩ := Option.filter_eq_some_iff.mp hstep
  exact ⟨hT s l u hu, of_decide_eq_true hP⟩

theorem reachable_ofFun_iff {σ ι : Type*} {s₀ : σ} {f : σ → ι → Option σ} {s : σ} :
    Reachable (System.ofFun s₀ f) s ↔ ∃ ls, exec f s₀ ls = some s := by
  constructor
  · rintro ⟨_, ls, rfl, hrun⟩
    exact ⟨ls, run_ofFun_iff.mp hrun⟩
  · rintro ⟨ls, hexec⟩
    exact ⟨s₀, ls, rfl, run_ofFun_iff.mpr hexec⟩

end Transition

end ProcessThreadPool
