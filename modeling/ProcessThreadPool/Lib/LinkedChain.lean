import Mathlib.Data.Finset.Basic

/-!
# Singly linked lists in memory

`Linked next start nodes` says that the links from `start` on lead through `nodes` and end
there. The links are a function of the node, so the nodes are determined by the start, and a
list that ends goes through no node twice. Pushing and popping change one link, and a change of
a link outside of the list is not seen.
-/

namespace ProcessThreadPool

namespace LinkedChain

/-- The links lead from `start` through the nodes, in order, and end behind the last one. -/
inductive Linked {α : Type*} (next : α → Option α) : Option α → List α → Prop
  | nil : Linked next none []
  | cons {a : α} {nodes : List α} : Linked next (next a) nodes → Linked next (some a) (a :: nodes)

/-- Go through the list, with at most `fuel` nodes visited. The link is read before the visit. -/
def walk {α β : Type*} (next : α → Option α) (visit : β → α → β) :
    ℕ → Option α → β → Option β
  | _, none, b => some b
  | 0, some _, _ => none
  | fuel + 1, some a, b => walk next visit fuel (next a) (visit b a)

namespace Linked

variable {α β : Type*} {next next' : α → Option α} {start : Option α} {nodes nodes' : List α}
  {a : α}

theorem unique (h : Linked next start nodes) (h' : Linked next start nodes') :
    nodes = nodes' := by
  induction h generalizing nodes' with
  | nil =>
    cases h'
    rfl
  | cons _ ih =>
    cases h' with
    | cons hrest => rw [ih hrest]

/-- From each of its nodes a list goes on to its end. -/
theorem suffix {front rest : List α} (h : Linked next start (front ++ a :: rest)) :
    Linked next (some a) (a :: rest) := by
  induction front generalizing start with
  | nil =>
    cases h with
    | cons hrest => exact .cons hrest
  | cons b front ih =>
    cases h with
    | cons hrest => exact ih hrest

theorem nodup (h : Linked next start nodes) : nodes.Nodup := by
  induction h with
  | nil => exact List.nodup_nil
  | @cons a nodes hrest ih =>
    refine List.nodup_cons.mpr ⟨fun hmem => ?_, ih⟩
    obtain ⟨front, rest, rfl⟩ := List.append_of_mem hmem
    have hagain := (suffix hrest).unique (.cons hrest)
    have hlength := congrArg List.length hagain
    rw [List.length_cons, List.length_cons, List.length_append, List.length_cons] at hlength
    omega

theorem congr (h : Linked next start nodes) (hnext : ∀ b ∈ nodes, next' b = next b) :
    Linked next' start nodes := by
  induction h with
  | nil => exact .nil
  | @cons b rest _ ih =>
    refine .cons ?_
    rw [hnext b List.mem_cons_self]
    exact ih fun c hc => hnext c (List.mem_cons_of_mem b hc)

/-- A node is put in front of the list. -/
theorem push (h : Linked next start nodes) (ha : a ∉ nodes)
    (hnext : ∀ b, b ≠ a → next' b = next b) (hlink : next' a = start) :
    Linked next' (some a) (a :: nodes) := by
  refine .cons ?_
  rw [hlink]
  exact h.congr fun b hb => hnext b fun hba => ha (hba ▸ hb)

theorem start_eq (h : Linked next start nodes) : start = nodes.head? := by
  cases h <;> rfl

/-- The last node has no link. -/
theorem next_last {front : List α} (h : Linked next start (front ++ [a])) : next a = none := by
  cases h.suffix with
  | cons hrest => exact hrest.start_eq

/-- A node is put behind the last one. -/
theorem append {front : List α} {last : α} (h : Linked next start (front ++ [last]))
    (ha : a ∉ front ++ [last]) (hnext : ∀ b, b ≠ a → b ≠ last → next' b = next b)
    (hlast : next' last = some a) (hlink : next' a = none) :
    Linked next' start (front ++ [last] ++ [a]) := by
  induction front generalizing start with
  | nil =>
    cases h
    refine .cons ?_
    rw [hlast]
    refine .cons ?_
    rw [hlink]
    exact .nil
  | cons b front ih =>
    have hne : b ≠ a := fun hba => ha (hba ▸ List.mem_cons_self)
    have hother : b ≠ last := by
      have hnodup := h.nodup
      rw [List.cons_append, List.nodup_cons] at hnodup
      exact fun hbl => hnodup.1 (hbl ▸ List.mem_append_right front (List.mem_singleton_self _))
    cases h with
    | cons hrest =>
      refine .cons ?_
      rw [hnext b hne hother]
      exact ih hrest fun hmem => ha (List.mem_cons_of_mem b hmem)

/-- The walk visits the nodes in order. -/
theorem walk_eq (h : Linked next start nodes) (visit : β → α → β) {fuel : ℕ}
    (hfuel : nodes.length ≤ fuel) (b : β) :
    walk next visit fuel start b = some (nodes.foldl visit b) := by
  induction h generalizing fuel b with
  | nil => rw [walk, List.foldl_nil]
  | cons _ ih =>
    obtain ⟨fuel, rfl⟩ := Nat.exists_eq_add_of_lt (Nat.lt_of_lt_of_le (Nat.zero_lt_succ _) hfuel)
    rw [Nat.zero_add] at hfuel ⊢
    rw [walk, List.foldl_cons, ih (Nat.le_of_succ_le_succ hfuel)]

end Linked

/-- The elements that are erased one after the other are the ones that are gone. -/
theorem mem_foldl_erase {α : Type*} [DecidableEq α] {nodes : List α} {s : Finset α} {a : α} :
    a ∈ nodes.foldl Finset.erase s ↔ a ∈ s ∧ a ∉ nodes := by
  induction nodes generalizing s with
  | nil => simp
  | cons b nodes ih =>
    rw [List.foldl_cons, ih, Finset.mem_erase, List.mem_cons, not_or]
    tauto

end LinkedChain

end ProcessThreadPool
