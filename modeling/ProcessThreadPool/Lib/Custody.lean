import Mathlib.Algebra.Order.Group.Multiset
import Mathlib.Data.Multiset.Range
import Mathlib.Data.Int.Notation
import Mathlib.Logic.Function.Basic

/-!
# Custody of numbered objects

Objects are numbered as they come into being and live under handles, which are used again
once an object is gone. Handles pass from one party to another, and whoever has one closes it
in the end. `Custody` says that the objects that were made are those that have been closed and
those under the handles that somebody has, each of them once. So nobody closes or uses what
another party has under a handle that was given out again. A party may also have a handle under
which there never was anything, a failed one.
-/

namespace ProcessThreadPool

/-- What has been made is what has been closed and what is under a handle in somebody's
hands; `object` finds the object under a handle. -/
structure Custody (object : ℤ → Option ℕ) (held : Multiset ℤ) (closed : List ℕ)
    (made : ℕ) : Prop where
  accounted : (closed : Multiset ℕ) + held.filterMap object = Multiset.range made
  refers : ∀ fd ∈ held, 0 ≤ fd → ∃ c, object fd = some c
  owned : ∀ fd c, object fd = some c → fd ∈ held

namespace Custody

variable {object object' : ℤ → Option ℕ} {held : Multiset ℤ} {closed : List ℕ} {made : ℕ}

/-- Handles that a change does not concern refer to what they did. -/
theorem filterMap_update {fd : ℤ} (h : fd ∉ held) (o : Option ℕ) :
    (held.filterMap (Function.update object fd o)) = held.filterMap object := by
  induction held using Multiset.induction_on with
  | empty => rfl
  | cons a rest ih =>
      obtain ⟨hne, hrest⟩ := not_or.mp (mt Multiset.mem_cons.mpr h)
      have hsame : Function.update object fd o a = object a :=
        Function.update_of_ne (Ne.symm hne) _ _
      cases ha : object a with
      | none => rw [Multiset.filterMap_cons_none _ _ ha,
          Multiset.filterMap_cons_none _ _ (hsame.trans ha), ih hrest]
      | some c => rw [Multiset.filterMap_cons_some _ _ _ ha,
          Multiset.filterMap_cons_some _ _ _ (hsame.trans ha), ih hrest]

theorem start (h : ∀ fd, object fd = none) : Custody object 0 [] 0 where
  accounted := rfl
  refers := fun _ hfd => absurd hfd (Multiset.notMem_zero _)
  owned := by
    intro fd c hc
    rw [h fd] at hc
    cases hc

/-- Other objects come and go. -/
theorem congr (h : Custody object held closed made) (hsame : ∀ fd, object' fd = object fd) :
    Custody object' held closed made := by
  rwa [funext hsame]

/-- Handles pass from hand to hand. -/
theorem pass {held' : Multiset ℤ} (h : Custody object held closed made) (heq : held' = held) :
    Custody object held' closed made := by
  rwa [heq]

/-- A new object is made under a handle that nobody has. -/
theorem make (h : Custody object held closed made) {fd : ℤ} (hpos : 0 ≤ fd)
    (hfree : object fd = none) :
    Custody (Function.update object fd (some made)) (fd ::ₘ held) closed (made + 1) := by
  have hnot : fd ∉ held := by
    intro hfd
    obtain ⟨c, hc⟩ := h.refers fd hfd hpos
    rw [hfree] at hc
    cases hc
  have hother : ∀ fd' ∈ held, Function.update object fd (some made) fd' = object fd' := by
    intro fd' hfd'
    rw [Function.update_of_ne (ne_of_mem_of_not_mem hfd' hnot)]
  refine ⟨?_, fun fd' hfd' hpos' => ?_, fun fd' c hc => ?_⟩
  · rw [Multiset.filterMap_cons_some _ _ _ (Function.update_self _ _ _),
      filterMap_update hnot, Multiset.add_cons, h.accounted, Multiset.range_succ]
  · rcases Multiset.mem_cons.mp hfd' with rfl | hmem
    · exact ⟨made, Function.update_self _ _ _⟩
    · obtain ⟨c, hc⟩ := h.refers fd' hmem hpos'
      exact ⟨c, (hother fd' hmem).trans hc⟩
  · by_cases heq : fd' = fd
    · rw [heq]
      exact Multiset.mem_cons_self _ _
    · rw [Function.update_of_ne heq] at hc
      exact Multiset.mem_cons_of_mem (h.owned fd' c hc)

/-- A failed handle is passed on like the others. -/
theorem fail (h : Custody object held closed made) {fd : ℤ} (hneg : fd < 0)
    (hnone : object fd = none) : Custody object (fd ::ₘ held) closed made where
  accounted := by
    rw [Multiset.filterMap_cons_none _ _ hnone]
    exact h.accounted
  refers := by
    intro fd' hfd' hpos
    rcases Multiset.mem_cons.mp hfd' with rfl | hmem
    · omega
    · exact h.refers fd' hmem hpos
  owned := fun fd' c hc => Multiset.mem_cons_of_mem (h.owned fd' c hc)

/-- Nobody else has the handle of an object. -/
theorem notMem_rest {fd : ℤ} {rest : Multiset ℤ} (h : Custody object (fd ::ₘ rest) closed made)
    {c : ℕ} (hc : object fd = some c) : fd ∉ rest := by
  intro hmem
  obtain ⟨rest, rfl⟩ := Multiset.exists_cons_of_mem hmem
  have hnodup : ((closed : Multiset ℕ) + (fd ::ₘ fd ::ₘ rest).filterMap object).Nodup := by
    rw [h.accounted]
    exact Multiset.nodup_range made
  rw [Multiset.filterMap_cons_some _ _ _ hc, Multiset.filterMap_cons_some _ _ _ hc] at hnodup
  have hright := (Multiset.nodup_add.mp hnodup).2.1
  exact (Multiset.nodup_cons.mp hright).1 (Multiset.mem_cons_self _ _)

/-- The handle is closed by the party that has it. -/
theorem close {fd : ℤ} {rest : Multiset ℤ} (h : Custody object (fd ::ₘ rest) closed made) :
    Custody (Function.update object fd none) rest (closed ++ (object fd).toList) made := by
  cases hfd : object fd with
  | none =>
      have hsame : Function.update object fd none = object := by
        rw [← hfd, Function.update_eq_self]
      rw [hsame, Option.toList_none, List.append_nil]
      refine ⟨?_, fun fd' hmem => h.refers fd' (Multiset.mem_cons_of_mem hmem),
        fun fd' c hc => ?_⟩
      · have hold := h.accounted
        rwa [Multiset.filterMap_cons_none _ _ hfd] at hold
      · rcases Multiset.mem_cons.mp (h.owned fd' c hc) with rfl | hmem
        · rw [hfd] at hc
          cases hc
        · exact hmem
  | some c =>
      have hnot := h.notMem_rest hfd
      have hother : ∀ fd' ∈ rest, Function.update object fd none fd' = object fd' := by
        intro fd' hfd'
        rw [Function.update_of_ne (ne_of_mem_of_not_mem hfd' hnot)]
      refine ⟨?_, fun fd' hmem hpos => ?_, fun fd' c' hc => ?_⟩
      · have hold := h.accounted
        rw [Multiset.filterMap_cons_some _ _ _ hfd] at hold
        rw [filterMap_update hnot, ← hold, Option.toList_some, ← Multiset.coe_add,
          Multiset.coe_singleton, add_assoc, Multiset.singleton_add]
      · obtain ⟨c', hc'⟩ := h.refers fd' (Multiset.mem_cons_of_mem hmem) hpos
        exact ⟨c', (hother fd' hmem).trans hc'⟩
      · by_cases heq : fd' = fd
        · rw [heq, Function.update_self] at hc
          cases hc
        · rw [Function.update_of_ne heq] at hc
          exact (Multiset.mem_cons.mp (h.owned fd' c' hc)).resolve_left heq

end Custody

end ProcessThreadPool
