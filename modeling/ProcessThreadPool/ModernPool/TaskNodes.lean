import Mathlib.Algebra.GroupWithZero.Nat
import Mathlib.Data.Fintype.Card
import ProcessThreadPool.Lib.LinkedChain
import ProcessThreadPool.Lib.Transition
import ProcessThreadPool.ModernPool.References

/-!
# The nodes of the task pool

`task_pool_alloc`, `task_pool_free` and `task_pool_cleanup` on the memory that the nodes lie
in. The list of the free nodes goes through the nodes themselves, behind the task that each of
them is handed out for. `task_pool_cleanup` gives the free nodes back to the system and clears
both counters, whether or not tasks are still handed out. With the linked list read as a list
of nodes, the first two are the functions on the pool from which the references are counted.
-/

namespace ProcessThreadPool

namespace ModernPool

namespace TaskNodes

open LinkedChain Transition

/-- `task_pool_node_t`. -/
structure TaskPoolNode (α τ : Type*) where
  task : τ
  next : Option α
  deriving DecidableEq, Repr

/-- `task_pool_t`. -/
structure TaskPool (α : Type*) where
  freeList : Option α
  totalAllocated : UInt64
  freeCount : UInt64
  maxPoolSize : UInt64
  deriving DecidableEq, Repr

/-- `g_task_pool` at the start. -/
def gTaskPool {α : Type*} : TaskPool α where
  freeList := none
  totalAllocated := 0
  freeCount := 0
  maxPoolSize := 1000

/-- The memory, the nodes in it that `malloc` has given and `free` has not taken back, the
pool, and the nodes whose tasks are handed out. -/
structure State (α τ : Type*) where
  memory : α → TaskPoolNode α τ
  allocated : Finset α
  pool : TaskPool α
  live : Finset α

section

variable {α τ : Type*} [DecidableEq α]

def State.next (s : State α τ) (a : α) : Option α := (s.memory a).next

/-- The part of `task_pool_alloc` under the mutex. `fresh` is what `malloc` returns, if it is
called. -/
def takeNode (s : State α τ) (fresh : Option α) : Option α × State α τ :=
  match s.pool.freeList with
  | some node =>
      (some node, { s with pool := { s.pool with
        freeList := (s.memory node).next
        freeCount := s.pool.freeCount - 1 } })
  | none =>
      match fresh with
      | some node =>
          (some node, { s with
            allocated := insert node s.allocated
            pool := { s.pool with totalAllocated := s.pool.totalAllocated + 1 } })
      | none => (none, s)

/-- `task_pool_alloc`. -/
def taskPoolAlloc [Zero τ] (s : State α τ) (fresh : Option α) : Option α × State α τ :=
  match takeNode s fresh with
  | (none, s) => (none, s)
  | (some node, s) =>
      (some node, { s with memory := Function.update s.memory node ⟨0, none⟩ })

/-- `task_pool_free`. -/
def taskPoolFree (s : State α τ) (task : Option α) : State α τ :=
  match task with
  | none => s
  | some node =>
      if s.pool.freeCount < s.pool.maxPoolSize then
        { s with
          memory := Function.update s.memory node
            { s.memory node with next := s.pool.freeList }
          pool := { s.pool with
            freeList := some node
            freeCount := s.pool.freeCount + 1 } }
      else
        { s with
          allocated := s.allocated.erase node
          pool := { s.pool with totalAllocated := s.pool.totalAllocated - 1 } }

/-- `task_pool_cleanup`, if its loop ends within `fuel` rounds. -/
def taskPoolCleanup (fuel : ℕ) (s : State α τ) : Option (State α τ) :=
  (walk s.next Finset.erase fuel s.pool.freeList s.allocated).map fun allocated =>
    { s with
      allocated := allocated
      pool := { s.pool with freeList := none, freeCount := 0, totalAllocated := 0 } }

/-- A call, or the holder of a task writes to it. -/
inductive Action (α τ : Type*) where
  | alloc (fresh : Option α)
  | free (task : Option α)
  | write (task : α) (contents : τ)
  | cleanup

/-- One step. `malloc` returns a node that it has not given before, and a task is given back
and written to only while it is handed out. -/
def step [Zero τ] (s : State α τ) : Action α τ → Option (State α τ)
  | .alloc fresh =>
      if fresh.any (· ∈ s.allocated) then none
      else
        match taskPoolAlloc s fresh with
        | (none, t) => some t
        | (some node, t) => some { t with live := insert node t.live }
  | .free none => some (taskPoolFree s none)
  | .free (some node) =>
      if node ∈ s.live then
        some { taskPoolFree s (some node) with live := s.live.erase node }
      else none
  | .write node contents =>
      if node ∈ s.live then
        some { s with
          memory := Function.update s.memory node { s.memory node with task := contents } }
      else none
  | .cleanup => taskPoolCleanup s.allocated.card s

/-- The start of the program, with any contents of the memory. -/
def State.start {α τ : Type*} (memory : α → TaskPoolNode α τ) : State α τ where
  memory := memory
  allocated := ∅
  pool := gTaskPool
  live := ∅

/-- All runs. -/
def taskNodes (α τ : Type*) [DecidableEq α] [Zero τ] : System (State α τ) (Action α τ) where
  init := fun s => ∃ memory, s = .start memory
  step := fun s l t => step s l = some t

/-- The free list ends, goes through no node twice, and only through nodes that are neither
handed out nor given back to the system; the walk of `task_pool_cleanup` ends; and
`task_pool_alloc` hands out a cleared node that is not handed out already. -/
structure NeverAliases [Zero τ] (s : State α τ) : Prop where
  freeList : ∃ nodes, Linked s.next s.pool.freeList nodes ∧ nodes.Nodup ∧
    ∀ node ∈ nodes, node ∉ s.live ∧ node ∈ s.allocated
  cleanup : ∃ t, step s .cleanup = some t
  alloc : ∀ fresh node t, fresh.any (· ∈ s.allocated) = false →
    taskPoolAlloc s fresh = (some node, t) →
      node ∉ s.live ∧ t.memory node = ⟨0, none⟩

/-- The counters agree with the free list and the tasks that are handed out. -/
def Balanced (s : State α τ) : Prop :=
  ∃ nodes, Linked s.next s.pool.freeList nodes ∧
    s.pool.freeCount.toNat = nodes.length ∧ s.pool.freeCount ≤ s.pool.maxPoolSize ∧
      s.pool.totalAllocated.toNat = nodes.length + s.live.card

/-- The step decrements `total_allocated`. -/
def Decrements (s : State α τ) : Action α τ → Prop
  | .free (some _) => ¬ s.pool.freeCount < s.pool.maxPoolSize
  | _ => False

/-- `task_pool_cleanup` is called only when no task is handed out. -/
def CleansUpAlone (s : State α τ) : Action α τ → Prop
  | .cleanup => s.live = ∅
  | _ => True

/-! ## What a step can do -/

/-- The steps by their outcome. -/
inductive Move [Zero τ] (s : State α τ) : Action α τ → State α τ → Prop
  | reuse {fresh : Option α} {node : α} : s.pool.freeList = some node →
      Move s (.alloc fresh)
        { s with
          memory := Function.update s.memory node ⟨0, none⟩
          pool := { s.pool with
            freeList := (s.memory node).next
            freeCount := s.pool.freeCount - 1 }
          live := insert node s.live }
  | fresh {node : α} : s.pool.freeList = none → node ∉ s.allocated →
      Move s (.alloc (some node))
        { memory := Function.update s.memory node ⟨0, none⟩
          allocated := insert node s.allocated
          pool := { s.pool with
            freeList := none
            totalAllocated := s.pool.totalAllocated + 1 }
          live := insert node s.live }
  | failed : s.pool.freeList = none → Move s (.alloc none) s
  | null : Move s (.free none) s
  | kept {node : α} : node ∈ s.live → s.pool.freeCount < s.pool.maxPoolSize →
      Move s (.free (some node))
        { s with
          memory := Function.update s.memory node
            { s.memory node with next := s.pool.freeList }
          pool := { s.pool with
            freeList := some node
            freeCount := s.pool.freeCount + 1 }
          live := s.live.erase node }
  | released {node : α} : node ∈ s.live → ¬ s.pool.freeCount < s.pool.maxPoolSize →
      Move s (.free (some node))
        { s with
          allocated := s.allocated.erase node
          pool := { s.pool with totalAllocated := s.pool.totalAllocated - 1 }
          live := s.live.erase node }
  | written {node : α} {contents : τ} : node ∈ s.live →
      Move s (.write node contents)
        { s with
          memory := Function.update s.memory node { s.memory node with task := contents } }
  | cleaned {allocated : Finset α} :
      walk s.next Finset.erase s.allocated.card s.pool.freeList s.allocated = some allocated →
      Move s .cleanup
        { s with
          allocated := allocated
          pool := { s.pool with freeList := none, freeCount := 0, totalAllocated := 0 } }

theorem move_of_step [Zero τ] {s t : State α τ} {l : Action α τ} (hstep : step s l = some t) :
    Move s l t := by
  cases l with
  | alloc fresh =>
    simp only [step] at hstep
    split_ifs at hstep with hused
    cases hlist : s.pool.freeList with
    | some node =>
      simp only [taskPoolAlloc, takeNode, hlist] at hstep
      obtain rfl := Option.some.inj hstep
      exact .reuse hlist
    | none =>
      cases fresh with
      | none =>
        simp only [taskPoolAlloc, takeNode, hlist] at hstep
        obtain rfl := Option.some.inj hstep
        exact .failed hlist
      | some node =>
        simp only [taskPoolAlloc, takeNode, hlist] at hstep
        obtain rfl := Option.some.inj hstep
        exact .fresh hlist (by simpa using hused)
  | free task =>
    cases task with
    | none =>
      obtain rfl := Option.some.inj hstep
      exact .null
    | some node =>
      simp only [step, taskPoolFree] at hstep
      split_ifs at hstep with hlive hroom <;> obtain rfl := Option.some.inj hstep
      · exact .kept hlive hroom
      · exact .released hlive hroom
  | write node contents =>
    simp only [step] at hstep
    split_ifs at hstep with hlive
    obtain rfl := Option.some.inj hstep
    exact .written hlive
  | cleanup =>
    obtain ⟨allocated, hwalk, rfl⟩ := Option.map_eq_some_iff.mp hstep
    exact .cleaned hwalk

end

/-! ## Separation -/

section

variable {α τ : Type*} {s t : State α τ} {nodes : List α} {node : α}

/-- The free list goes through `nodes`, which are not handed out, and none of them and of the
nodes that are handed out has been given back to the system. -/
structure Separated (s : State α τ) (nodes : List α) : Prop where
  linked : Linked s.next s.pool.freeList nodes
  unused : ∀ node ∈ nodes, node ∉ s.live
  held : ∀ node ∈ nodes, node ∈ s.allocated
  live : s.live ⊆ s.allocated

/-- The nodes of the free list after a step. -/
def nodesAfter (s : State α τ) (nodes : List α) : Action α τ → List α
  | .alloc _ => nodes.tail
  | .free (some node) =>
      if s.pool.freeCount < s.pool.maxPoolSize then node :: nodes else nodes
  | .cleanup => []
  | _ => nodes

theorem Separated.nil_of_freeList (h : Separated s nodes) (hlist : s.pool.freeList = none) :
    nodes = [] := by
  have hlinked := h.linked
  rw [hlist] at hlinked
  exact hlinked.unique .nil

theorem Separated.cons_of_freeList (h : Separated s nodes)
    (hlist : s.pool.freeList = some node) :
    ∃ rest, nodes = node :: rest ∧ Linked s.next (s.memory node).next rest := by
  have hlinked := h.linked
  rw [hlist] at hlinked
  cases hlinked with
  | cons hrest => exact ⟨_, rfl, hrest⟩

variable [DecidableEq α]

theorem next_update {memory : α → TaskPoolNode α τ} {cell : TaskPoolNode α τ} {b : α}
    (hb : b ≠ node) : (Function.update memory node cell b).next = (memory b).next := by
  rw [Function.update_of_ne hb]

namespace Separated

/-- The free nodes and the ones that are handed out are different nodes of the pool. -/
theorem card_le (h : Separated s nodes) : nodes.length + s.live.card ≤ s.allocated.card := by
  have hdisjoint : Disjoint nodes.toFinset s.live := by
    rw [Finset.disjoint_left]
    exact fun node hnode => h.unused node (List.mem_toFinset.mp hnode)
  rw [← List.toFinset_card_of_nodup h.linked.nodup, ← Finset.card_union_of_disjoint hdisjoint]
  refine Finset.card_le_card (Finset.union_subset (fun node hnode => ?_) h.live)
  exact h.held node (List.mem_toFinset.mp hnode)

/-- The walk of `task_pool_cleanup` ends, and takes back the free nodes. -/
theorem walk_eq (h : Separated s nodes) :
    walk s.next Finset.erase s.allocated.card s.pool.freeList s.allocated =
      some (nodes.foldl Finset.erase s.allocated) :=
  h.linked.walk_eq _ ((Nat.le_add_right _ _).trans h.card_le) _

theorem move [Zero τ] {l : Action α τ} (h : Separated s nodes) (hmove : Move s l t) :
    Separated t (nodesAfter s nodes l) := by
  have hlinked := h.linked
  cases hmove with
  | @reuse fresh node hlist =>
    obtain ⟨rest, rfl, hrest⟩ := h.cons_of_freeList hlist
    have hnode : node ∉ rest := (List.nodup_cons.mp hlinked.nodup).1
    refine ⟨hrest.congr fun b hb => next_update ?_, fun b hb => ?_, fun b hb => ?_, ?_⟩
    · rintro rfl
      exact hnode hb
    · rw [Finset.mem_insert, not_or]
      refine ⟨?_, h.unused b (List.mem_cons_of_mem node hb)⟩
      rintro rfl
      exact hnode hb
    · exact h.held b (List.mem_cons_of_mem node hb)
    · exact Finset.insert_subset (h.held node List.mem_cons_self) h.live
  | @fresh node hlist hfresh =>
    obtain rfl := h.nil_of_freeList hlist
    exact ⟨.nil, nofun, nofun, Finset.insert_subset_insert node h.live⟩
  | failed hlist =>
    obtain rfl := h.nil_of_freeList hlist
    exact h
  | null => exact h
  | @kept node hlive hroom =>
    have hnode : node ∉ nodes := fun hmem => h.unused node hmem hlive
    rw [nodesAfter, if_pos hroom]
    refine ⟨hlinked.push hnode (fun b hb => next_update hb) ?_, fun b hb => ?_, fun b hb => ?_,
      (Finset.erase_subset _ _).trans h.live⟩
    · show (Function.update s.memory node _ node).next = _
      rw [Function.update_self]
    · rw [Finset.mem_erase, not_and]
      rcases List.mem_cons.mp hb with rfl | hb
      · exact fun hne => absurd rfl hne
      · exact fun _ => h.unused b hb
    · rcases List.mem_cons.mp hb with rfl | hb
      · exact h.live hlive
      · exact h.held b hb
  | @released node hlive hroom =>
    rw [nodesAfter, if_neg hroom]
    refine ⟨hlinked, fun b hb => ?_, fun b hb => ?_, Finset.erase_subset_erase node h.live⟩
    · exact fun hmem => h.unused b hb (Finset.mem_of_mem_erase hmem)
    · refine Finset.mem_erase.mpr ⟨?_, h.held b hb⟩
      rintro rfl
      exact h.unused b hb hlive
  | @written node contents hlive =>
    refine ⟨hlinked.congr fun b hb => next_update ?_, h.unused, h.held, h.live⟩
    rintro rfl
    exact h.unused b hb hlive
  | @cleaned allocated hwalk =>
    rw [h.walk_eq] at hwalk
    obtain rfl := Option.some.inj hwalk
    refine ⟨.nil, nofun, nofun, fun b hb => ?_⟩
    exact mem_foldl_erase.mpr ⟨h.live hb, fun hmem => h.unused b hmem hb⟩

theorem neverAliases [Zero τ] (h : Separated s nodes) : NeverAliases s where
  freeList := ⟨nodes, h.linked, h.linked.nodup, fun node hnode =>
    ⟨h.unused node hnode, h.held node hnode⟩⟩
  cleanup := by
    rw [step, taskPoolCleanup, h.walk_eq, Option.map_some]
    exact ⟨_, rfl⟩
  alloc := by
    intro fresh node t hfresh halloc
    simp only [taskPoolAlloc] at halloc
    split at halloc
    · cases halloc
    · next s' node' htake =>
      cases halloc
      refine ⟨?_, Function.update_self _ _ _⟩
      simp only [takeNode] at htake
      split at htake
      · next hlist =>
        cases htake
        obtain ⟨rest, rfl, -⟩ := h.cons_of_freeList hlist
        exact h.unused _ List.mem_cons_self
      · split at htake
        · cases htake
          exact fun hlive => absurd (h.live hlive) (by simpa using hfresh)
        · cases htake

end Separated

/-! ## The counters -/

/-- The counters agree with the given free list. -/
structure Tallied (s : State α τ) (nodes : List α) : Prop where
  free : s.pool.freeCount.toNat = nodes.length
  room : s.pool.freeCount.toNat ≤ s.pool.maxPoolSize.toNat
  total : s.pool.totalAllocated.toNat = nodes.length + s.live.card

theorem toNat_pred {n : UInt64} {k : ℕ} (h : n.toNat = k + 1) : (n - 1).toNat = k := by
  have hone : (1 : UInt64) ≤ n := by
    rw [UInt64.le_iff_toNat_le, h]
    exact Nat.le_add_left 1 k
  rw [UInt64.toNat_sub_of_le _ _ hone, h]
  rfl

theorem toNat_succ {n : UInt64} (h : n.toNat + 1 < 2 ^ 64) : (n + 1).toNat = n.toNat + 1 := by
  rw [UInt64.toNat_add]
  exact Nat.mod_eq_of_lt h

namespace Tallied

/-- When the addresses fit into a `size_t`, a step keeps the counters right unless it cleans up
while a task is handed out. -/
theorem move_iff [Zero τ] [Fintype α] (hsize : Fintype.card α < 2 ^ 64) {l : Action α τ}
    (hseparated : Separated s nodes) (h : Tallied s nodes) (hmove : Move s l t) :
    Tallied t (nodesAfter s nodes l) ↔ CleansUpAlone s l := by
  obtain ⟨hfree, hroom, htotal⟩ := h
  have hcard := (hseparated.move hmove).card_le.trans (Finset.card_le_univ t.allocated)
  cases hmove with
  | @reuse fresh node hlist =>
    obtain ⟨rest, rfl, -⟩ := hseparated.cons_of_freeList hlist
    have hnode : node ∉ s.live := hseparated.unused node List.mem_cons_self
    have hpred := toNat_pred hfree
    rw [List.length_cons] at htotal hfree
    refine iff_of_true ⟨hpred, ?_, ?_⟩ trivial
    · simp only
      omega
    · simp only [nodesAfter, List.tail_cons, Finset.card_insert_of_notMem hnode]
      omega
  | @fresh node hlist hfresh =>
    obtain rfl := hseparated.nil_of_freeList hlist
    have hnode : node ∉ s.live := fun hlive => hfresh (hseparated.live hlive)
    simp only [nodesAfter, List.tail_nil, List.length_nil,
      Finset.card_insert_of_notMem hnode] at hcard htotal
    refine iff_of_true ⟨hfree, hroom, ?_⟩ trivial
    simp only [nodesAfter, List.tail_nil, List.length_nil, Finset.card_insert_of_notMem hnode]
    rw [toNat_succ (by omega)]
    omega
  | failed hlist =>
    obtain rfl := hseparated.nil_of_freeList hlist
    exact iff_of_true ⟨hfree, hroom, htotal⟩ trivial
  | null => exact iff_of_true ⟨hfree, hroom, htotal⟩ trivial
  | @kept node hlive hspace =>
    have hsucc := toNat_succ (Nat.lt_of_le_of_lt (UInt64.lt_iff_toNat_lt.mp hspace)
      s.pool.maxPoolSize.toNat_lt)
    have hpos : 0 < s.live.card := Finset.card_pos.mpr ⟨node, hlive⟩
    rw [nodesAfter, if_pos hspace]
    refine iff_of_true ⟨?_, ?_, ?_⟩ trivial
    · rw [hsucc, hfree, List.length_cons]
    · rw [hsucc]
      exact UInt64.lt_iff_toNat_lt.mp hspace
    · simp only [List.length_cons, Finset.card_erase_of_mem hlive]
      omega
  | @released node hlive hspace =>
    have hpos : 0 < s.live.card := Finset.card_pos.mpr ⟨node, hlive⟩
    have hpred := toNat_pred (n := s.pool.totalAllocated) (k := nodes.length + (s.live.card - 1))
      (by omega)
    rw [nodesAfter, if_neg hspace]
    refine iff_of_true ⟨hfree, hroom, ?_⟩ trivial
    simp only [Finset.card_erase_of_mem hlive]
    exact hpred
  | @written node contents hlive => exact iff_of_true ⟨hfree, hroom, htotal⟩ trivial
  | @cleaned allocated hwalk =>
    constructor
    · rintro ⟨-, -, hzero⟩
      simp only [nodesAfter, List.length_nil, UInt64.toNat_zero, Nat.zero_add] at hzero
      exact Finset.card_eq_zero.mp hzero.symm
    · intro hlive
      refine ⟨rfl, Nat.zero_le _, ?_⟩
      simp only [nodesAfter, List.length_nil, UInt64.toNat_zero, Nat.zero_add]
      rw [hlive, Finset.card_empty]

/-- A decrement of `total_allocated` takes away one node that it has counted. -/
theorem total_ne_zero [Zero τ] {l : Action α τ} (h : Tallied s nodes) (hmove : Move s l t)
    (hdecrements : Decrements s l) : s.pool.totalAllocated ≠ 0 := by
  cases hmove with
  | @released node hlive hspace =>
    have hpos : 0 < s.live.card := Finset.card_pos.mpr ⟨node, hlive⟩
    have htotal := h.total
    intro hzero
    rw [hzero, UInt64.toNat_zero] at htotal
    omega
  | @kept node hlive hspace => exact absurd hspace hdecrements
  | _ => cases hdecrements

end Tallied

end

/-! ## All runs -/

theorem Separated.start {α τ : Type*} (memory : α → TaskPoolNode α τ) :
    Separated (State.start memory) [] :=
  ⟨.nil, nofun, nofun, Finset.Subset.refl _⟩

theorem Tallied.start {α τ : Type*} (memory : α → TaskPoolNode α τ) :
    Tallied (State.start memory) [] :=
  ⟨rfl, Nat.zero_le _, rfl⟩

theorem separated_inductive (α τ : Type*) [DecidableEq α] [Zero τ] :
    Inductive (taskNodes α τ) fun s => ∃ nodes, Separated s nodes where
  init := by
    rintro s ⟨memory, rfl⟩
    exact ⟨[], .start memory⟩
  step := by
    rintro s l t ⟨nodes, hs⟩ hstep
    exact ⟨_, hs.move (move_of_step hstep)⟩

/-- The allocator never hands out a node twice, whatever calls it has seen. -/
theorem never_aliases {α τ : Type*} [DecidableEq α] [Zero τ] {s : State α τ}
    (h : Reachable (taskNodes α τ) s) : NeverAliases s := by
  obtain ⟨nodes, hs⟩ := (separated_inductive α τ).reachable h
  exact hs.neverAliases

/-- A node is given back and handed out again. -/
theorem never_aliases_reused : ∃ s : State ℕ ℕ, s.live = {3, 4} ∧ s.allocated = {4, 3} ∧
    NeverAliases s := by
  have hreach : Reachable (taskNodes ℕ ℕ) _ := ⟨.start fun _ => ⟨9, some 5⟩,
    [.alloc (some 3), .write 3 8, .alloc (some 4), .free (some 3), .alloc none], ⟨_, rfl⟩,
    run_of_exec (fun _ _ _ hstep => hstep) rfl⟩
  exact ⟨_, by decide, by decide, never_aliases hreach⟩

/-- The addresses other than `NULL`. -/
abbrev Address : Type := Fin (2 ^ 64 - 1)

theorem Separated.balanced_iff {α τ : Type*} {s : State α τ} {nodes : List α}
    (h : Separated s nodes) : Balanced s ↔ Tallied s nodes := by
  constructor
  · rintro ⟨nodes', hlinked, hfree, hroom, htotal⟩
    obtain rfl := h.linked.unique hlinked
    exact ⟨hfree, UInt64.le_iff_toNat_le.mp hroom, htotal⟩
  · rintro ⟨hfree, hroom, htotal⟩
    exact ⟨nodes, h.linked, hfree, UInt64.le_iff_toNat_le.mpr hroom, htotal⟩

/-- In every run in which the pool is cleaned up only when no task is handed out the counters
are right and do not go below zero, and these are all the runs in which they are. -/
theorem balanced_run_iff {τ : Type*} [Zero τ] {memory : Address → TaskPoolNode Address τ}
    {ls : List (Action Address τ)} {s : State Address τ} :
    (Run ((taskNodes Address τ).restrict CleansUpAlone) (.start memory) ls s → Balanced s) ∧
      (Run ((taskNodes Address τ).filter fun s l t =>
          Balanced t ∧ (Decrements s l → s.pool.totalAllocated ≠ 0)) (.start memory) ls s ↔
        Run ((taskNodes Address τ).restrict CleansUpAlone) (.start memory) ls s) := by
  have hsize : Fintype.card Address < 2 ^ 64 := by
    rw [Fintype.card_fin]
    decide
  have hstart : ∃ nodes, Separated (.start memory : State Address τ) nodes ∧
      Tallied (.start memory : State Address τ) nodes := ⟨[], .start memory, .start memory⟩
  have hkept : ∀ (s : State Address τ) l t, (∃ nodes, Separated s nodes ∧ Tallied s nodes) →
      CleansUpAlone s l → (taskNodes Address τ).step s l t →
        ∃ nodes, Separated t nodes ∧ Tallied t nodes := by
    rintro s l t ⟨nodes, hseparated, htallied⟩ halone hstep
    have hmove := move_of_step hstep
    exact ⟨_, hseparated.move hmove, (htallied.move_iff hsize hseparated hmove).mpr halone⟩
  refine ⟨fun hrun => ?_, run_filter_iff_restrict hkept ?_ hstart⟩
  · obtain ⟨nodes, hseparated, htallied⟩ := hrun.preserves
      (I := fun s => ∃ nodes, Separated s nodes ∧ Tallied s nodes)
      (fun s l t hs hstep => hkept s l t hs hstep.1 hstep.2) hstart
    exact hseparated.balanced_iff.mpr htallied
  · rintro s l t ⟨nodes, hseparated, htallied⟩ hstep
    have hmove := move_of_step hstep
    rw [(hseparated.move hmove).balanced_iff, htallied.move_iff hsize hseparated hmove]
    exact and_iff_left (htallied.total_ne_zero hmove)

/-- The only node is given back before the pool is cleaned up. -/
theorem balanced_run_iff_single : ∃ s : State Address ℕ, s.allocated = ∅ ∧ Balanced s := by
  have hrun : Run ((taskNodes Address ℕ).restrict CleansUpAlone) (.start fun _ => ⟨0, none⟩)
      [.alloc (some ⟨5, by decide⟩), .free (some ⟨5, by decide⟩), .cleanup] _ :=
    .cons ⟨trivial, rfl⟩ (.cons ⟨trivial, rfl⟩ (.cons ⟨rfl, rfl⟩ (.nil _)))
  exact ⟨_, rfl, balanced_run_iff.1 hrun⟩

/-- A task is still handed out when the pool is cleaned up. -/
theorem not_balanced_after_cleanup : ¬ ∀ s : State Address ℕ,
    Reachable (taskNodes Address ℕ) s → Balanced s := by
  intro h
  have hreach : Reachable (taskNodes Address ℕ) _ := ⟨.start fun _ => ⟨0, none⟩,
    [.alloc (some ⟨5, by decide⟩), .cleanup], ⟨_, rfl⟩, run_of_exec (fun _ _ _ hstep => hstep) rfl⟩
  obtain ⟨nodes, hlinked, -, -, htotal⟩ := h _ hreach
  obtain rfl := hlinked.unique .nil
  exact absurd htotal (by decide)

/-! ## The pool as a list of nodes -/

/-- The pool with its free nodes as a list. -/
def State.listed {τ : Type*} (s : State ℕ τ) (nodes : List ℕ) : References.TaskPool where
  nodes := s.allocated.val
  freeList := nodes
  totalAllocated := s.pool.totalAllocated
  freeCount := s.pool.freeCount
  maxPoolSize := s.pool.maxPoolSize

section

variable {τ : Type*} [Zero τ] {s t : State ℕ τ} {nodes : List ℕ}

/-- `task_pool_alloc` takes the first node of the list, or the new one. -/
theorem Separated.alloc_listed {fresh : Option ℕ} (h : Separated s nodes)
    (hstep : step s (.alloc fresh) = some t) :
    References.taskPoolAlloc (s.listed nodes) fresh =
      ((taskPoolAlloc s fresh).1, t.listed (nodesAfter s nodes (.alloc fresh))) := by
  cases move_of_step hstep with
  | @reuse _ node hlist =>
    obtain ⟨rest, rfl, -⟩ := h.cons_of_freeList hlist
    simp [References.taskPoolAlloc, taskPoolAlloc, takeNode, hlist, State.listed, nodesAfter]
  | @fresh node hlist hfresh =>
    obtain rfl := h.nil_of_freeList hlist
    simp [References.taskPoolAlloc, taskPoolAlloc, takeNode, hlist, State.listed, nodesAfter,
      Finset.insert_val_of_notMem hfresh]
  | failed hlist =>
    obtain rfl := h.nil_of_freeList hlist
    simp [References.taskPoolAlloc, taskPoolAlloc, takeNode, hlist, State.listed, nodesAfter]

/-- `task_pool_free` puts the node in front of the list, or gives it back. -/
theorem free_listed {node : ℕ} (hstep : step s (.free (some node)) = some t) :
    References.taskPoolFree (s.listed nodes) node =
      t.listed (nodesAfter s nodes (.free (some node))) := by
  cases move_of_step hstep with
  | kept hlive hroom =>
    simp [References.taskPoolFree, State.listed, nodesAfter, hroom]
  | released hlive hroom =>
    simp [References.taskPoolFree, State.listed, nodesAfter, hroom]

/-- In every reachable state the free list is a list of nodes, on which `task_pool_alloc` and
`task_pool_free` act as they do on the pool of the references. -/
theorem reachable_listed (h : Reachable (taskNodes ℕ τ) s) :
    ∃ nodes, Linked s.next s.pool.freeList nodes ∧
      (∀ fresh t, step s (.alloc fresh) = some t → ∃ nodes',
        Linked t.next t.pool.freeList nodes' ∧ References.taskPoolAlloc (s.listed nodes) fresh =
          ((taskPoolAlloc s fresh).1, t.listed nodes')) ∧
      ∀ node t, step s (.free (some node)) = some t → ∃ nodes',
        Linked t.next t.pool.freeList nodes' ∧
          References.taskPoolFree (s.listed nodes) node = t.listed nodes' := by
  obtain ⟨nodes, hs⟩ := (separated_inductive ℕ τ).reachable h
  refine ⟨nodes, hs.linked, fun fresh t hstep => ?_, fun node t hstep => ?_⟩
  · exact ⟨_, (hs.move (move_of_step hstep)).linked, hs.alloc_listed hstep⟩
  · exact ⟨_, (hs.move (move_of_step hstep)).linked, free_listed hstep⟩

end

end TaskNodes

end ModernPool

end ProcessThreadPool
