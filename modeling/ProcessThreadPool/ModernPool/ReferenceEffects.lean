import ProcessThreadPool.ModernPool.References

/-!
# What the steps do to tasks and futures

The pool of nodes lends out each node once. Each step acts on the tasks and on the futures
as one of the operations on reference counted objects, or not at all.
-/

namespace ProcessThreadPool

namespace ModernPool

namespace References

open RefCounting

/-! ## The pool of nodes -/

section Pool

variable {pool : TaskPool} {n m : ℕ → ℕ} {a : ℕ}

/-- Every node is in the free list or lent out, and `n` counts those that are lent. -/
def TaskPool.Lends (pool : TaskPool) (n : ℕ → ℕ) : Prop :=
  ∀ b, pool.nodes.count b = pool.freeList.count b + n b ∧ pool.nodes.count b ≤ 1

theorem TaskPool.Lends.alloc (h : pool.Lends n) {fresh : Option ℕ}
    (hfresh : ∀ a ∈ fresh, a ∉ pool.nodes) {pool' : TaskPool}
    (halloc : taskPoolAlloc pool fresh = (some a, pool')) :
    n a = 0 ∧ pool'.Lends fun b => n b + if b = a then 1 else 0 := by
  simp only [taskPoolAlloc] at halloc
  split at halloc
  · rename_i first rest hlist
    cases halloc
    have hcount : ∀ b, pool.freeList.count b = rest.count b + if b = a then 1 else 0 := by
      intro b
      rw [hlist, List.count_cons]
      exact congrArg _ (if_congr (by rw [beq_iff_eq, eq_comm]) rfl rfl)
    constructor
    · have ha := h a
      rw [hcount, if_pos rfl] at ha
      omega
    · intro b
      have hb := h b
      rw [hcount] at hb
      dsimp only
      omega
  · rename_i hlist
    split at halloc
    · rename_i first
      cases halloc
      have hnone := Multiset.count_eq_zero.mpr (hfresh a rfl)
      constructor
      · have ha := h a
        omega
      · intro b
        have hb := h b
        rw [Multiset.count_cons]
        dsimp only
        by_cases hba : b = a
        · subst hba
          rw [if_pos rfl]
          omega
        · rw [if_neg hba]
          omega
    · cases halloc

theorem taskPoolAlloc_none {fresh : Option ℕ} {pool' : TaskPool}
    (halloc : taskPoolAlloc pool fresh = (none, pool')) : pool' = pool := by
  simp only [taskPoolAlloc] at halloc
  split at halloc
  · cases halloc
  · split at halloc
    · cases halloc
    · exact (congrArg Prod.snd halloc).symm

theorem TaskPool.Lends.free (h : pool.Lends n)
    (hm : ∀ b, m b + (if b = a then 1 else 0) = n b) : (taskPoolFree pool a).Lends m := by
  intro b
  have hb := h b
  have hmb := hm b
  rw [taskPoolFree]
  split_ifs with hroom
  · rw [List.count_cons]
    by_cases hba : b = a
    · subst hba
      rw [if_pos rfl] at hmb
      simp only [BEq.rfl, if_true]
      omega
    · have hne : (a == b) = false := beq_false_of_ne (Ne.symm hba)
      rw [if_neg hba] at hmb
      simp only [hne, if_neg Bool.false_ne_true]
      omega
  · dsimp only
    by_cases hba : b = a
    · subst hba
      rw [if_pos rfl] at hmb
      rw [Multiset.count_erase_self]
      omega
    · rw [if_neg hba] at hmb
      rw [Multiset.count_erase_of_ne hba]
      omega

end Pool

/-! ## What the steps do to tasks and futures -/

section Effects

variable {s : State} {c : Call} {p a f : ℕ} {h : Holder}

theorem mem_tasks_refs (hmem : (h, a) ∈ s.taskRefs) : a ∈ s.tasks.refs :=
  Multiset.mem_map.mpr ⟨_, hmem, rfl⟩

theorem mem_futures_refs (hmem : (p, f) ∈ s.futureRefs) : f ∈ s.futures.refs :=
  Multiset.mem_map.mpr ⟨_, hmem, rfl⟩

theorem tasks_push (s : State) (c : Call) : (s.push c).tasks =
    { s.tasks with
      begun := (c.creates.map singleton).getD 0 + s.tasks.begun
      ended := (c.returns.map singleton).getD 0 + s.tasks.ended } := by
  simp only [State.tasks, State.push, Multiset.filterMap_cons]

theorem futures_push (s : State) (c : Call) : (s.push c).futures =
    { s.futures with
      begun := (c.createsFuture.map singleton).getD 0 + s.futures.begun
      ended := (c.destroysFuture.map singleton).getD 0 + s.futures.ended } := by
  simp only [State.futures, State.push, Multiset.filterMap_cons]

/-- Calls that neither create nor return a task. -/
theorem tasks_push_of_none (s : State) {c : Call} (hcreates : c.creates = none)
    (hreturns : c.returns = none) : (s.push c).tasks = s.tasks := by
  rw [tasks_push, hcreates, hreturns, Option.map_none, Option.getD_none, Multiset.zero_add,
    Multiset.zero_add]

theorem tasks_push_taskFree (s : State) (a : ℕ) (f : Option ℕ) :
    (s.push (.taskFree a f)).tasks = { s.tasks with ended := a ::ₘ s.tasks.ended } := by
  simp only [tasks_push, Call.creates, Call.returns, Option.map_none, Option.getD_none,
    Multiset.zero_add, Option.map_some, Option.getD_some, Multiset.singleton_add]

theorem tasks_push_taskInit (s : State) (p a : ℕ) :
    (s.push (.taskInit p a)).tasks = { s.tasks with begun := a ::ₘ s.tasks.begun } := by
  simp only [tasks_push, Call.creates, Call.returns, Option.map_none, Option.getD_none,
    Multiset.zero_add, Option.map_some, Option.getD_some, Multiset.singleton_add]

theorem futures_push_mutexInit (s : State) (p f : ℕ) :
    (s.push (.mutexInit p f)).futures = { s.futures with begun := f ::ₘ s.futures.begun } := by
  simp only [futures_push, Call.createsFuture, Call.destroysFuture, Option.map_none,
    Option.getD_none, Multiset.zero_add, Option.map_some, Option.getD_some,
    Multiset.singleton_add]

/-- Calls that do nothing to a future. -/
theorem futures_push_of_none (s : State) {c : Call} (hcreates : c.createsFuture = none)
    (hdestroys : c.destroysFuture = none) : (s.push c).futures = s.futures := by
  rw [futures_push, hcreates, hdestroys, Option.map_none, Option.getD_none, Multiset.zero_add,
    Multiset.zero_add]

theorem futures_push_of_destroys (s : State) {c : Call} {f : ℕ}
    (hcreates : c.createsFuture = none) (hdestroys : c.destroysFuture = some f) :
    (s.push c).futures = { s.futures with ended := f ::ₘ s.futures.ended } := by
  simp only [futures_push, hcreates, hdestroys, Option.map_none, Option.getD_none,
    Multiset.zero_add, Option.map_some, Option.getD_some, Multiset.singleton_add]

theorem tasks_taskRef (s : State) (h : Holder) (a : ℕ) :
    (taskRef s h a).tasks = s.tasks.retain a := by
  simp only [State.tasks, taskRef, Ledger.retain, Multiset.map_cons]

/-- `task_unref` releases a reference to the task. -/
theorem tasks_unrefTask (hmem : (h, a) ∈ s.taskRefs) (f : Option ℕ) :
    (s.unrefTask h a f).tasks = s.tasks.release a := by
  have herase := Multiset.map_erase_of_mem Prod.snd s.taskRefs hmem
  simp only [State.unrefTask, Ledger.release]
  split_ifs with hmore hlast hlast
  · cases f with
    | none => simp only [State.tasks, herase]
    | some f =>
        rw [tasks_push_of_none _ rfl rfl]
        simp only [State.tasks, herase]
  · exact absurd hmore hlast
  · exact absurd hlast hmore
  · rw [tasks_push_taskFree]
    simp only [State.tasks, herase]

theorem futures_unrefTask_none (s : State) (h : Holder) (a : ℕ) :
    (s.unrefTask h a none).futures = s.futures := by
  simp only [State.unrefTask]
  split_ifs
  · rfl
  · rw [futures_push_of_none _ rfl rfl]
    rfl

theorem futures_unrefTask_some (s : State) (h : Holder) (a f : ℕ) :
    (s.unrefTask h a (some f)).futures =
      { s.futures with ended := f ::ₘ s.futures.ended } := by
  simp only [State.unrefTask]
  split_ifs <;>
  · rw [futures_push_of_destroys _ rfl rfl]
    rfl

/-- `future_create` has a reference to the task, and takes a future into use. -/
theorem tasks_futureCreate (s : State) (p a f : ℕ) :
    (futureCreate s p a (some f)).tasks = s.tasks.retain a :=
  (tasks_push_of_none _ rfl rfl).trans (tasks_taskRef s (.future f) a)

theorem counter_update (future : ℕ → Future) (f : ℕ) (v : Future) :
    (fun g => (Function.update future f v g).refCount) =
      Function.update (fun g => (future g).refCount) f v.refCount := by
  funext g
  exact Function.apply_update (fun _ v => v.refCount) future f v g

theorem futures_futureCreate (s : State) (p a f : ℕ) :
    (futureCreate s p a (some f)).futures = s.futures.take f := by
  simp only [futureCreate, futures_push_mutexInit]
  simp only [State.futures, taskRef, Ledger.take, counter_update]

theorem futures_futureRef (s : State) (p f : ℕ) :
    (futureRef s p f).futures = s.futures.retain f := by
  simp only [State.futures, futureRef, Ledger.retain, counter_update, Multiset.map_cons]

/-- `future_unref` releases a reference to the future. -/
theorem futures_futureUnref (hmem : (p, f) ∈ s.futureRefs) :
    (futureUnref s p f).futures = s.futures.release f := by
  have herase := Multiset.map_erase_of_mem Prod.snd s.futureRefs hmem
  simp only [futureUnref, Ledger.release]
  split_ifs with hmore hlast hlast
  · simp only [State.futures, herase, counter_update]
  · exact absurd hmore hlast
  · exact absurd hlast hmore
  · rw [futures_push_of_destroys _ rfl rfl]
    simp only [State.futures, herase, counter_update]

theorem tasks_futureUnref (s : State) (p f : ℕ) : (futureUnref s p f).tasks = s.tasks := by
  simp only [futureUnref]
  split_ifs
  · rfl
  · rw [tasks_push_of_none _ rfl rfl]
    rfl

/-- What the next step of a call does to the tasks. -/
theorem tasks_proceed (hmem : ∀ f, c = .taskUnref f →
    (.future f, (s.future f).task) ∈ s.taskRefs) (ok : Bool) :
    (proceed s ok c).tasks =
      match c with
      | .taskInit _ a =>
          if ok then (s.push c).tasks.publish a else ((s.push c).tasks.abandon a).dispose a
      | .mutexInit _ _ | .futureFree _ => (s.push c).tasks
      | .taskUnref f => (s.push c).tasks.release (s.future f).task
      | .taskFree a _ => (s.push c).tasks.dispose a := by
  cases c with
  | taskInit p a =>
      rw [tasks_push_taskInit]
      cases ok
      · simp only [Ledger.abandon, Ledger.dispose, Multiset.erase_cons_head]
        rfl
      · simp only [Ledger.publish, Multiset.erase_cons_head, proceed, if_true, State.tasks,
          Multiset.map_cons]
  | mutexInit p f =>
      cases ok
      · exact (tasks_push_of_none s rfl rfl).trans (tasks_push_of_none s rfl rfl).symm
      · exact (tasks_push_of_none s rfl rfl).symm
  | taskUnref f =>
      rw [tasks_push_of_none s rfl rfl]
      exact tasks_unrefTask (hmem f rfl) (some f)
  | taskFree a f =>
      rw [tasks_push_taskFree]
      simp only [Ledger.dispose, Multiset.erase_cons_head]
      cases f with
      | none => rfl
      | some f => exact tasks_push_of_none _ rfl rfl
  | futureFree f => exact (tasks_push_of_none s rfl rfl).symm

/-- What the next step of a call does to the futures. -/
theorem futures_proceed (s : State) (c : Call) (ok : Bool) :
    (proceed s ok c).futures =
      match c with
      | .mutexInit _ f =>
          if ok then (s.push c).futures.publish f else (s.push c).futures.abandon f
      | .taskInit _ _ | .taskUnref _ | .taskFree _ _ => (s.push c).futures
      | .futureFree f => (s.push c).futures.dispose f := by
  cases c with
  | taskInit p a =>
      rw [futures_push_of_none s rfl rfl]
      cases ok <;> rfl
  | mutexInit p f =>
      rw [futures_push_mutexInit]
      cases ok
      · simp only [Ledger.abandon, Multiset.erase_cons_head]
        exact futures_push_of_destroys s rfl rfl
      · simp only [Ledger.publish, Multiset.erase_cons_head, proceed, if_true, State.futures,
          Multiset.map_cons]
  | taskUnref f =>
      rw [futures_push_of_destroys s rfl rfl]
      exact futures_unrefTask_some s _ _ f
  | taskFree a f =>
      cases f with
      | none => exact (futures_push_of_none s rfl rfl).symm
      | some f =>
          rw [futures_push_of_destroys s rfl rfl]
          exact futures_push_of_destroys _ rfl rfl
  | futureFree f =>
      rw [futures_push_of_destroys s rfl rfl]
      simp only [Ledger.dispose, Multiset.erase_cons_head]
      rfl

end Effects

/-! ## What the steps leave as it was -/

section Frame

variable (s : State) (h : Holder) (p a f : ℕ) (o : Option ℕ)

theorem unrefTask_pool : (s.unrefTask h a o).pool = s.pool := by
  simp only [State.unrefTask]
  split_ifs
  · cases o <;> rfl
  · rfl

theorem unrefTask_heap : (s.unrefTask h a o).heap = s.heap := by
  simp only [State.unrefTask]
  split_ifs
  · cases o <;> rfl
  · rfl

theorem unrefTask_future : (s.unrefTask h a o).future = s.future := by
  simp only [State.unrefTask]
  split_ifs
  · cases o <;> rfl
  · rfl

theorem unrefTask_taskRefs : (s.unrefTask h a o).taskRefs = s.taskRefs.erase (h, a) := by
  simp only [State.unrefTask]
  split_ifs
  · cases o <;> rfl
  · rfl

theorem futureUnref_pool : (futureUnref s p f).pool = s.pool := by
  simp only [futureUnref]
  split_ifs <;> rfl

theorem futureUnref_heap : (futureUnref s p f).heap = s.heap := by
  simp only [futureUnref]
  split_ifs <;> rfl

/-- The task of a future does not change with its counter. -/
theorem task_update (future : ℕ → Future) (n : BitVec 32) (g : ℕ) :
    (Function.update future f { future f with refCount := n } g).task = (future g).task := by
  by_cases hg : g = f
  · rw [hg, Function.update_self]
  · rw [Function.update_of_ne hg]

end Frame

end References

end ModernPool

end ProcessThreadPool
