import Mathlib.Logic.Function.Basic
import Mathlib.Data.Option.Basic
import Mathlib.Tactic.SplitIfs

/-!
# Blocks and the pointers that own them

Allocated blocks, and variables that hold pointers to them. Taking a block through a pointer
that is not initialised or that dangles is undefined. As long as every pointer refers to a
block of its own, nothing is undefined but the use of an uninitialised pointer, and the memory
is what its pointers see: allocating and releasing change one pointer's view. A block that no
pointer refers to any more is lost, and stays so.
-/

namespace ProcessThreadPool

namespace OwnedBlocks

/-- What a pointer variable holds, or what is behind it. -/
inductive Pointer (α : Type*) where
  | indeterminate
  | null
  | block (a : α)
  deriving DecidableEq

/-- The pointer variables `κ`, and what the allocated addresses contain. -/
structure Memory (κ α β : Type*) where
  pointers : κ → Pointer α
  blocks : α → Option β

namespace Memory

section

variable {κ α β : Type*}

/-- What a pointer sees. -/
def view (m : Memory κ α β) (p : κ) : Pointer β :=
  match m.pointers p with
  | .indeterminate => .indeterminate
  | .null => .null
  | .block a => (m.blocks a).elim .indeterminate .block

/-- Every pointer refers to an allocated block, and no other pointer does. -/
structure Separate (m : Memory κ α β) : Prop where
  live : ∀ p a, m.pointers p = .block a → (m.blocks a).isSome = true
  distinct : ∀ p q a, m.pointers p = .block a → m.pointers q = .block a → p = q

/-- The block is allocated, and no pointer refers to it. -/
def Lost (m : Memory κ α β) (a : α) : Prop :=
  (m.blocks a).isSome = true ∧ ∀ p, m.pointers p ≠ .block a

/-- The answer of `malloc` is not in use. -/
def Fresh (m : Memory κ α β) (answer : Option α) : Prop :=
  ∀ a, answer = some a → m.blocks a = none

variable {m m' : Memory κ α β} {p q : κ} {a b : α} {contents : β} {answer : Option α}

theorem view_of_pointers (h : m'.pointers q = m.pointers q)
    (hblocks : ∀ a, m.pointers q = .block a → m'.blocks a = m.blocks a) :
    m'.view q = m.view q := by
  rw [view, view, h]
  cases hq : m.pointers q with
  | indeterminate | null => rfl
  | block a => simp only [hblocks a hq]

namespace Separate

theorem view_block (h : m.Separate) (hp : m.pointers p = .block a) :
    ∃ contents, m.blocks a = some contents ∧ m.view p = .block contents := by
  obtain ⟨contents, hcontents⟩ := Option.isSome_iff_exists.mp (h.live p a hp)
  exact ⟨contents, hcontents, by rw [view, hp]; simp only [hcontents, Option.elim_some]⟩

theorem view_eq_indeterminate_iff (h : m.Separate) :
    m.view p = .indeterminate ↔ m.pointers p = .indeterminate := by
  constructor
  · intro hview
    cases hp : m.pointers p with
    | indeterminate => rfl
    | null =>
        rw [view, hp] at hview
        cases hview
    | block a =>
        obtain ⟨contents, -, hblock⟩ := h.view_block hp
        rw [hblock] at hview
        cases hview
  · intro hp
    rw [view, hp]

/-- A block that is not in use is referred to by no pointer. -/
theorem ne_of_free (h : m.Separate) (hfree : m.blocks a = none) (p : κ) :
    m.pointers p ≠ .block a := by
  intro hp
  have hlive := h.live p a hp
  rw [hfree] at hlive
  cases hlive

end Separate

/-- Without pointers to blocks, every block is a lost one. -/
theorem lost_iff_of_none (h : ∀ p a, m.pointers p ≠ .block a) :
    (∀ b, ¬ m.Lost b) ↔ ∀ b, m.blocks b = none := by
  refine forall_congr' fun b => ?_
  rw [Lost, and_iff_left fun p => h p b, Bool.not_eq_true, Option.isSome_eq_false_iff,
    Option.isNone_iff_eq_none]

variable [DecidableEq κ]

/-- `p = NULL`. -/
def setNull (m : Memory κ α β) (p : κ) : Memory κ α β :=
  { m with pointers := Function.update m.pointers p .null }

theorem Separate.setNull (h : m.Separate) (p : κ) : (m.setNull p).Separate where
  live := by
    intro q a hq
    simp only [Memory.setNull, Function.update_apply] at hq ⊢
    split_ifs at hq
    exact h.live q a hq
  distinct := by
    intro q r a hq hr
    simp only [Memory.setNull, Function.update_apply] at hq hr
    split_ifs at hq hr
    exact h.distinct q r a hq hr

theorem view_setNull (p : κ) : (m.setNull p).view = Function.update m.view p .null := by
  funext q
  by_cases hq : q = p
  · subst hq
    simp only [Memory.setNull, view, Function.update_self]
  · rw [Function.update_of_ne hq]
    exact view_of_pointers (Function.update_of_ne hq _ _) fun _ _ => rfl

/-- Overwriting a pointer loses the block it refers to. -/
theorem lost_setNull (h : m.Separate) :
    (m.setNull p).Lost b ↔ m.Lost b ∨ m.pointers p = .block b := by
  constructor
  · rintro ⟨hlive, hnone⟩
    by_cases hp : m.pointers p = .block b
    · exact Or.inr hp
    · refine Or.inl ⟨hlive, fun q hq => ?_⟩
      refine hnone q ((Function.update_of_ne ?_ _ _).trans hq)
      rintro rfl
      exact hp hq
  · rintro (⟨hlive, hnone⟩ | hp)
    · refine ⟨hlive, fun q hq => ?_⟩
      simp only [setNull, Function.update_apply] at hq
      split_ifs at hq
      exact hnone q hq
    · refine ⟨h.live p b hp, fun q hq => ?_⟩
      simp only [setNull, Function.update_apply] at hq
      split_ifs at hq with hqp
      exact hqp (h.distinct q p b hq hp)

variable [DecidableEq α]

/-- `p = malloc(..)`, and the block is filled. The answer of `malloc` is given. -/
def allocate (m : Memory κ α β) (p : κ) (contents : β) : Option α → Memory κ α β
  | none => { m with pointers := Function.update m.pointers p .null }
  | some a => {
      pointers := Function.update m.pointers p (.block a)
      blocks := Function.update m.blocks a (some contents) }

/-- `if (p) { free(p); p = NULL; }`. -/
def release (m : Memory κ α β) (p : κ) : Option (Memory κ α β) :=
  match m.pointers p with
  | .indeterminate => none
  | .null => some m
  | .block a => (m.blocks a).map fun _ => {
      pointers := Function.update m.pointers p .null
      blocks := Function.update m.blocks a none }

/-- A second answer of `malloc` is not the first. -/
theorem Fresh.allocate {answer' : Option α} (h : m.Fresh answer')
    (hne : ∀ a, answer = some a → answer' ≠ some a) :
    (m.allocate p contents answer).Fresh answer' := by
  cases answer with
  | none => exact h
  | some a =>
      intro b hb
      refine (Function.update_of_ne ?_ _ _).trans (h b hb)
      rintro rfl
      exact hne b rfl hb

namespace Separate

theorem allocate (h : m.Separate) (hfresh : m.Fresh answer) :
    (m.allocate p contents answer).Separate := by
  cases answer with
  | none => exact h.setNull p
  | some a =>
      have hfree := hfresh a rfl
      refine ⟨fun q b hq => ?_, fun q r b hq hr => ?_⟩
      · by_cases hba : b = a
        · simp only [Memory.allocate, hba, Function.update_self, Option.isSome_some]
        · simp only [Memory.allocate, Function.update_apply] at hq
          simp only [Memory.allocate, Function.update_of_ne hba]
          split_ifs at hq
          · exact absurd (Pointer.block.inj hq).symm hba
          · exact h.live q b hq
      · simp only [Memory.allocate, Function.update_apply] at hq hr
        split_ifs at hq hr with hqp hrp hrp
        · rw [hqp, hrp]
        · obtain rfl := Pointer.block.inj hq
          exact absurd hr (h.ne_of_free hfree r)
        · obtain rfl := Pointer.block.inj hr
          exact absurd hq (h.ne_of_free hfree q)
        · exact h.distinct q r b hq hr

/-- What is stored in a new block is seen by one pointer. -/
theorem view_allocate (h : m.Separate) (hfresh : m.Fresh answer) :
    (m.allocate p contents answer).view =
      Function.update m.view p (if answer.isSome then .block contents else .null) := by
  funext q
  by_cases hq : q = p
  · subst hq
    rw [Function.update_self]
    cases answer with
    | none => simp only [Memory.allocate, view, Function.update_self, Option.isSome_none,
        Bool.false_eq_true, if_false]
    | some a => simp only [Memory.allocate, view, Function.update_self, Option.isSome_some,
        if_true, Option.elim_some]
  · rw [Function.update_of_ne hq]
    cases answer with
    | none => exact view_of_pointers (Function.update_of_ne hq _ _) fun _ _ => rfl
    | some a =>
        refine view_of_pointers (Function.update_of_ne hq _ _) fun b hb => ?_
        refine Function.update_of_ne ?_ _ _
        rintro rfl
        exact h.ne_of_free (hfresh b rfl) q hb

/-- A pointer that is initialised can be released. -/
theorem release_eq (h : m.Separate) (hp : m.view p ≠ .indeterminate) :
    ∃ m', m.release p = some m' ∧ m'.Separate ∧ m'.view = Function.update m.view p .null := by
  cases hpointer : m.pointers p with
  | indeterminate => exact absurd (by rw [view, hpointer]) hp
  | null =>
      refine ⟨m, by rw [release, hpointer], h, ?_⟩
      rw [eq_comm, Function.update_eq_self_iff, view, hpointer]
  | block a =>
      obtain ⟨contents, hcontents, -⟩ := h.view_block hpointer
      have hother : ∀ q, q ≠ p → m.pointers q ≠ .block a := fun q hq hqa =>
        hq (h.distinct q p a hqa hpointer)
      refine ⟨⟨Function.update m.pointers p .null, Function.update m.blocks a none⟩, ?_,
        ⟨fun q b hq => ?_, fun q r b hq hr => ?_⟩, funext fun q => ?_⟩
      · rw [release, hpointer]
        simp only [hcontents, Option.map_some]
      · simp only [Function.update_apply] at hq
        split_ifs at hq with hqp
        have hba : b ≠ a := by
          rintro rfl
          exact hother q hqp hq
        simp only [Function.update_of_ne hba]
        exact h.live q b hq
      · simp only [Function.update_apply] at hq hr
        split_ifs at hq hr
        exact h.distinct q r b hq hr
      · by_cases hq : q = p
        · subst hq
          simp only [view, Function.update_self]
        · rw [Function.update_of_ne hq]
          refine view_of_pointers (Function.update_of_ne hq _ _) fun b hb => ?_
          refine Function.update_of_ne ?_ _ _
          rintro rfl
          exact hother q hq hb

end Separate

/-- Releasing a pointer that is not initialised is undefined. -/
theorem Separate.release_of_indeterminate (h : m.Separate) (hp : m.view p = .indeterminate) :
    m.release p = none := by
  rw [release, h.view_eq_indeterminate_iff.mp hp]

theorem lost_allocate (h : m.Separate) (hfresh : m.Fresh answer) :
    (m.allocate p contents answer).Lost b ↔ m.Lost b ∨ m.pointers p = .block b := by
  cases answer with
  | none => exact lost_setNull h
  | some a =>
      have hfree := hfresh a rfl
      by_cases hba : b = a
      · subst hba
        have hold : ¬ (m.Lost b ∨ m.pointers p = .block b) := by
          rintro (⟨hlive, -⟩ | hp)
          · rw [hfree] at hlive
            cases hlive
          · exact h.ne_of_free hfree p hp
        refine iff_of_false (fun hlost => ?_) hold
        exact hlost.2 p (Function.update_self _ _ _)
      · rw [← lost_setNull h, Lost, Lost]
        refine and_congr ?_ (forall_congr' fun q => ?_)
        · simp only [allocate, setNull, Function.update_of_ne hba]
        · simp only [allocate, setNull, Function.update_apply]
          split_ifs
          · simp only [ne_eq, Pointer.block.injEq, reduceCtorEq, not_false_eq_true, iff_true]
            exact fun heq => hba heq.symm
          · exact Iff.rfl

/-- Storing into a pointer that was just released loses nothing. -/
theorem lost_allocate_of_null (h : m.Separate) (hfresh : m.Fresh answer) (hp : m.view p = .null) :
    (m.allocate p contents answer).Lost b ↔ m.Lost b := by
  rw [lost_allocate h hfresh]
  refine or_iff_left fun hblock => ?_
  obtain ⟨contents, -, hview⟩ := h.view_block hblock
  rw [hp] at hview
  cases hview

/-- Releasing loses nothing. -/
theorem lost_release (hrelease : m.release p = some m') :
    m'.Lost b ↔ m.Lost b := by
  cases hpointer : m.pointers p with
  | indeterminate =>
      rw [release, hpointer] at hrelease
      cases hrelease
  | null =>
      rw [release, hpointer] at hrelease
      rw [Option.some.inj hrelease]
  | block a =>
      rw [release, hpointer] at hrelease
      obtain ⟨contents, hcontents, rfl⟩ := Option.map_eq_some_iff.mp hrelease
      by_cases hba : b = a
      · subst hba
        refine iff_of_false (fun hlost => ?_) fun hlost => hlost.2 p hpointer
        have hlive := hlost.1
        simp only [Function.update_self] at hlive
        cases hlive
      · rw [Lost, Lost]
        refine and_congr ?_ (forall_congr' fun q => ?_)
        · simp only [Function.update_of_ne hba]
        · simp only [Function.update_apply]
          split_ifs with hq
          · rw [hq, hpointer]
            simp only [ne_eq, Pointer.block.injEq, reduceCtorEq, not_false_eq_true, true_iff]
            exact fun heq => hba heq.symm
          · exact Iff.rfl

end

end Memory

end OwnedBlocks

end ProcessThreadPool
