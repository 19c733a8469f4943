import ProcessThreadPool.ModernPool.ReferenceEffects

/-!
# The reference counts are exact

The invariant adds to those of the reference counted objects where the nodes and the
futures are, and that a future has a reference to its task until it is destroyed.
-/

namespace ProcessThreadPool

namespace ModernPool

namespace References

open RefCounting

/-! ## The invariant -/

/-- A future has a reference to its task: it is referred to or being created, or it is
being destroyed and about to release the task. -/
def State.Points (s : State) (f : ℕ) : Prop :=
  f ∈ s.futures.refs ∨ f ∈ s.futures.begun ∨ .taskUnref f ∈ s.calls

/-- A node is in the free list or in use, a future is allocated when it is in use, and the
futures have their references. -/
structure State.Counted (s : State) : Prop where
  tasks : s.tasks.Sound
  futures : s.futures.Sound
  pool : s.pool.Lends s.tasks.inUse
  heap : ∀ f, s.heap.count f = s.futures.inUse f
  points : ∀ f, s.Points f → (.future f, (s.future f).task) ∈ s.taskRefs

section Invariant

variable {s t : State} {p a f : ℕ} {c : Call}

theorem counted_start : State.start.Counted where
  tasks := ⟨fun _ => rfl, fun _ => Nat.zero_le 1, fun _ h => absurd h (Multiset.notMem_zero _),
    fun _ h => absurd h (Multiset.notMem_zero _)⟩
  futures := ⟨fun _ => rfl, fun _ => Nat.zero_le 1,
    fun _ h => absurd h (Multiset.notMem_zero _), fun _ h => absurd h (Multiset.notMem_zero _)⟩
  pool := fun _ => ⟨rfl, Nat.zero_le 1⟩
  heap := fun _ => rfl
  points := by
    rintro f (h | h | h) <;> exact absurd h (Multiset.notMem_zero _)

/-- The references to tasks are kept, apart from those that parties release. -/
theorem State.Counted.points_of (h : s.Counted) (hpoints : ∀ f, t.Points f → s.Points f)
    (htask : ∀ f, (t.future f).task = (s.future f).task)
    (hrefs : ∀ f a, (.future f, a) ∈ s.taskRefs → (.future f, a) ∈ t.taskRefs) :
    ∀ f, t.Points f → (.future f, (t.future f).task) ∈ t.taskRefs := by
  intro f hf
  rw [htask]
  exact hrefs f _ (h.points f (hpoints f hf))

theorem State.Counted.taskRef (h : s.Counted) (ha : a ∈ s.tasks.refs) :
    (taskRef s (.party p) a).Counted where
  tasks := by
    rw [tasks_taskRef]
    exact h.tasks.retain ha
  futures := h.futures
  pool := by
    rw [tasks_taskRef, funext (Ledger.inUse_retain ha)]
    exact h.pool
  heap := h.heap
  points := fun f hf => Multiset.mem_cons_of_mem (h.points f hf)

theorem State.Counted.taskCreate (h : s.Counted) {fresh : Option ℕ}
    (hfresh : ∀ a ∈ fresh, a ∉ s.pool.nodes) : (taskCreate s p fresh).Counted := by
  rw [References.taskCreate]
  split
  · rename_i a pool halloc
    obtain ⟨hfree, hlends⟩ := h.pool.alloc hfresh halloc
    have htasks : ({ s with
        pool := pool
        refCount := Function.update s.refCount a 1
        taken := a ::ₘ s.taken : State }.push (.taskInit p a)).tasks = s.tasks.take a :=
      tasks_push_taskInit _ p a
    have hfutures : ({ s with
        pool := pool
        refCount := Function.update s.refCount a 1
        taken := a ::ₘ s.taken : State }.push (.taskInit p a)).futures = s.futures :=
      futures_push_of_none _ rfl rfl
    constructor
    · rw [htasks]
      exact h.tasks.take hfree
    · rw [hfutures]
      exact h.futures
    · rw [htasks, funext (Ledger.inUse_take s.tasks a)]
      exact hlends
    · rw [hfutures]
      exact h.heap
    · refine h.points_of (fun f hf => ?_) (fun _ => rfl) fun _ _ hmem => hmem
      rw [State.Points, hfutures] at hf
      exact hf.imp_right (Or.imp_right fun hmem => (Multiset.mem_cons.mp hmem).resolve_left
        fun heq => by cases heq)
  · rename_i pool halloc
    rw [taskPoolAlloc_none halloc]
    exact h

/-- A step that releases a reference of a party, or starts to destroy a future, does not
add to the futures that have a task. -/
theorem points_unrefTask (s : State) (h : Holder) (a : ℕ) (o : Option ℕ)
    (hf : (s.unrefTask h a o).Points f) : s.Points f := by
  have hcalls : ∀ c, c ∈ (s.unrefTask h a o).calls → c ∈ s.calls ∨ ∀ f, c ≠ .taskUnref f := by
    intro c hc
    simp only [State.unrefTask] at hc
    split_ifs at hc
    · cases o with
      | none => exact Or.inl hc
      | some g =>
          rcases Multiset.mem_cons.mp hc with rfl | hold
          · exact Or.inr fun f heq => by cases heq
          · exact Or.inl hold
    · rcases Multiset.mem_cons.mp hc with rfl | hold
      · exact Or.inr fun f heq => by cases heq
      · exact Or.inl hold
  rcases hf with hrefs | hbegun | hcall
  · left
    cases o with
    | none => rwa [futures_unrefTask_none] at hrefs
    | some g => rwa [futures_unrefTask_some] at hrefs
  · right; left
    cases o with
    | none => rwa [futures_unrefTask_none] at hbegun
    | some g => rwa [futures_unrefTask_some] at hbegun
  · exact Or.inr (Or.inr ((hcalls _ hcall).resolve_right fun hne => hne f rfl))

/-- `task_unref` by a party. -/
theorem State.Counted.unrefTask (h : s.Counted) (hmem : (.party p, a) ∈ s.taskRefs)
    (hfits : s.tasks.refs.count a < 2 ^ 31) : (s.unrefTask (.party p) a none).Counted where
  tasks := by
    rw [tasks_unrefTask hmem]
    exact h.tasks.release (mem_tasks_refs hmem) hfits
  futures := by
    rw [futures_unrefTask_none]
    exact h.futures
  pool := by
    rw [tasks_unrefTask hmem,
      funext (Ledger.inUse_release h.tasks (mem_tasks_refs hmem) hfits), unrefTask_pool]
    exact h.pool
  heap := by
    rw [futures_unrefTask_none, unrefTask_heap]
    exact h.heap
  points := by
    refine h.points_of (fun f hf => points_unrefTask s _ a none hf)
      (fun f => by rw [unrefTask_future]) fun f b hold => ?_
    have hne : (Holder.future f, b) ≠ (.party p, a) := fun heq => by cases heq
    rw [unrefTask_taskRefs]
    exact (Multiset.mem_erase_of_ne hne).mpr hold

theorem State.Counted.futureCreate (h : s.Counted) (ha : a ∈ s.tasks.refs) {fresh : Option ℕ}
    (hfresh : ∀ f ∈ fresh, f ∉ s.heap) : (futureCreate s p a fresh).Counted := by
  cases fresh with
  | none => exact h
  | some f =>
      have hunused : s.futures.inUse f = 0 := by
        rw [← h.heap]
        exact Multiset.count_eq_zero.mpr (hfresh f rfl)
      have htasks := tasks_futureCreate s p a f
      have hfutures := futures_futureCreate s p a f
      constructor
      · rw [htasks]
        exact h.tasks.retain ha
      · rw [hfutures]
        exact h.futures.take hunused
      · rw [htasks, funext (Ledger.inUse_retain ha)]
        exact h.pool
      · intro g
        rw [hfutures, Ledger.inUse_take, ← h.heap]
        exact Multiset.count_cons g f s.heap
      · intro g hg
        by_cases hgf : g = f
        · subst hgf
          have htask : ((References.futureCreate s p a (some g)).future g).task = a :=
            congrArg Future.task (Function.update_self g _ s.future)
          rw [htask]
          exact Multiset.mem_cons_self _ _
        · have htask : (References.futureCreate s p a (some f)).future g = s.future g :=
            Function.update_of_ne hgf _ s.future
          rw [htask]
          refine Multiset.mem_cons_of_mem (h.points g ?_)
          rw [State.Points, hfutures] at hg
          rcases hg with hrefs | hbegun | hcall
          · exact Or.inl hrefs
          · exact Or.inr (Or.inl ((Multiset.mem_cons.mp hbegun).resolve_left hgf))
          · exact Or.inr (Or.inr ((Multiset.mem_cons.mp hcall).resolve_left
              fun heq => by cases heq))

theorem State.Counted.futureRef (h : s.Counted) (hf : f ∈ s.futures.refs) :
    (futureRef s p f).Counted where
  tasks := h.tasks
  futures := by
    rw [futures_futureRef]
    exact h.futures.retain hf
  pool := h.pool
  heap := by
    rw [futures_futureRef, funext (Ledger.inUse_retain hf)]
    exact h.heap
  points := by
    refine h.points_of (fun g hg => ?_) (fun g => ?_) fun _ _ hmem => hmem
    · rw [State.Points, futures_futureRef] at hg
      refine hg.imp_left fun hmem => ?_
      rcases Multiset.mem_cons.mp hmem with rfl | hold
      · exact hf
      · exact hold
    · exact task_update f s.future _ g

theorem State.Counted.futureUnref (h : s.Counted) (hmem : (p, f) ∈ s.futureRefs)
    (hfits : s.futures.refs.count f < 2 ^ 31) : (futureUnref s p f).Counted where
  tasks := by
    rw [tasks_futureUnref]
    exact h.tasks
  futures := by
    rw [futures_futureUnref hmem]
    exact h.futures.release (mem_futures_refs hmem) hfits
  pool := by
    rw [tasks_futureUnref, futureUnref_pool]
    exact h.pool
  heap := by
    rw [futures_futureUnref hmem,
      funext (Ledger.inUse_release h.futures (mem_futures_refs hmem) hfits), futureUnref_heap]
    exact h.heap
  points := by
    refine h.points_of (fun g hg => ?_) (fun g => ?_) fun g b hold => ?_
    · rw [State.Points, futures_futureUnref hmem] at hg
      rcases hg with hrefs | hbegun | hcall
      · exact Or.inl (Multiset.mem_of_mem_erase hrefs)
      · exact Or.inr (Or.inl hbegun)
      · simp only [References.futureUnref] at hcall
        split_ifs at hcall
        · exact Or.inr (Or.inr hcall)
        · rcases Multiset.mem_cons.mp hcall with heq | hold
          · cases heq
            exact Or.inl (mem_futures_refs hmem)
          · exact Or.inr (Or.inr hold)
    · simp only [References.futureUnref]
      split_ifs <;> exact task_update f s.future _ g
    · simp only [References.futureUnref]
      split_ifs <;> exact hold

/-- A call of `task_create` ends. -/
theorem State.Counted.taskInit (h : (s.push (.taskInit p a)).Counted) (ok : Bool) :
    (proceed s ok (.taskInit p a)).Counted := by
  have htasks := tasks_proceed (s := s) (c := .taskInit p a) (fun f hc => by cases hc) ok
  have hfutures := futures_proceed s (.taskInit p a) ok
  have hbegun : a ∈ (s.push (.taskInit p a)).tasks.begun := by
    rw [tasks_push_taskInit]
    exact Multiset.mem_cons_self _ _
  have hpoints : ∀ f, (proceed s ok (.taskInit p a)).Points f →
      (s.push (.taskInit p a)).Points f := by
    intro f hf
    rw [State.Points, hfutures] at hf
    refine hf.imp_right (Or.imp_right fun hcall => Multiset.mem_cons_of_mem ?_)
    cases ok <;> exact hcall
  cases ok
  · have hended := Multiset.mem_cons_self a (s.push (.taskInit p a)).tasks.ended
    constructor
    · rw [htasks]
      exact (h.tasks.abandon hbegun).dispose hended
    · rw [hfutures]
      exact h.futures
    · refine h.pool.free (a := a) fun b => ?_
      rw [htasks, ← Ledger.inUse_abandon hbegun b]
      exact Ledger.inUse_dispose hended b
    · rw [hfutures]
      exact h.heap
    · exact h.points_of hpoints (fun _ => rfl) fun _ _ hmem => hmem
  · constructor
    · rw [htasks]
      exact h.tasks.publish hbegun
    · rw [hfutures]
      exact h.futures
    · rw [htasks]
      simp only [if_true, funext (Ledger.inUse_publish h.tasks hbegun)]
      exact h.pool
    · rw [hfutures]
      exact h.heap
    · exact h.points_of hpoints (fun _ => rfl) fun _ _ hmem => Multiset.mem_cons_of_mem hmem

/-- A call of `future_create` returns the future, or goes on to undo what it has done. -/
theorem State.Counted.mutexInit (h : (s.push (.mutexInit p f)).Counted) (ok : Bool) :
    (proceed s ok (.mutexInit p f)).Counted := by
  have htasks := tasks_proceed (s := s) (c := .mutexInit p f) (fun f hc => by cases hc) ok
  have hfutures := futures_proceed s (.mutexInit p f) ok
  have hbegun : f ∈ (s.push (.mutexInit p f)).futures.begun := by
    rw [futures_push_mutexInit]
    exact Multiset.mem_cons_self _ _
  cases ok
  · constructor
    · rw [htasks]
      exact h.tasks
    · rw [hfutures]
      exact h.futures.abandon hbegun
    · rw [htasks]
      exact h.pool
    · rw [hfutures]
      simp only [if_neg Bool.false_ne_true, Ledger.inUse_abandon hbegun]
      exact h.heap
    · refine h.points_of (fun g hg => ?_) (fun _ => rfl) fun _ _ hmem => hmem
      rw [State.Points, hfutures] at hg
      rcases hg with hrefs | hold | hcall
      · exact Or.inl hrefs
      · exact Or.inr (Or.inl (Multiset.mem_of_mem_erase hold))
      · rcases Multiset.mem_cons.mp hcall with heq | hold
        · cases heq
          exact Or.inr (Or.inl hbegun)
        · exact Or.inr (Or.inr (Multiset.mem_cons_of_mem hold))
  · constructor
    · rw [htasks]
      exact h.tasks
    · rw [hfutures]
      exact h.futures.publish hbegun
    · rw [htasks]
      exact h.pool
    · rw [hfutures]
      simp only [if_true, Ledger.inUse_publish h.futures hbegun]
      exact h.heap
    · refine h.points_of (fun g hg => ?_) (fun _ => rfl) fun _ _ hmem => hmem
      rw [State.Points, hfutures] at hg
      rcases hg with hrefs | hold | hcall
      · rcases Multiset.mem_cons.mp hrefs with rfl | hold
        · exact Or.inr (Or.inl hbegun)
        · exact Or.inl hold
      · exact Or.inr (Or.inl (Multiset.mem_of_mem_erase hold))
      · exact Or.inr (Or.inr (Multiset.mem_cons_of_mem hcall))

/-- The future that is being destroyed releases its task. It is not referred to, and no
other call is about to do the same. -/
theorem State.Counted.taskUnref (h : (s.push (.taskUnref f)).Counted)
    (hfits : s.tasks.refs.count (s.future f).task < 2 ^ 31) (ok : Bool) :
    (proceed s ok (.taskUnref f)).Counted := by
  have hmem : (.future f, (s.future f).task) ∈ s.taskRefs :=
    h.points f (Or.inr (Or.inr (Multiset.mem_cons_self _ _)))
  have htasks : (proceed s ok (.taskUnref f)).tasks =
      (s.push (.taskUnref f)).tasks.release (s.future f).task :=
    tasks_proceed (fun g hc => by cases hc; exact hmem) ok
  have hfutures := futures_proceed s (.taskUnref f) ok
  have hold : (s.push (.taskUnref f)).tasks = s.tasks := tasks_push_of_none s rfl rfl
  have hsound := h.tasks
  rw [hold] at htasks hsound
  constructor
  · rw [htasks]
    exact hsound.release (mem_tasks_refs hmem) hfits
  · rw [hfutures]
    exact h.futures
  · have hpool : (proceed s ok (.taskUnref f)).pool = s.pool := unrefTask_pool s _ _ _
    rw [htasks, funext (Ledger.inUse_release hsound (mem_tasks_refs hmem) hfits), hpool, ← hold]
    exact h.pool
  · have hheap : (proceed s ok (.taskUnref f)).heap = s.heap := unrefTask_heap s _ _ _
    rw [hfutures, hheap]
    exact h.heap
  · intro g hg
    have hfuture : (proceed s ok (.taskUnref f)).future = s.future := unrefTask_future s _ _ _
    have hrefs : (proceed s ok (.taskUnref f)).taskRefs =
        s.taskRefs.erase (.future f, (s.future f).task) := unrefTask_taskRefs s _ _ _
    have hpoints : s.Points g := points_unrefTask s _ _ _ hg
    have hne : g ≠ f := by
      rintro rfl
      have hsingle := h.futures.single g
      rw [futures_push_of_destroys s rfl rfl] at hsingle
      simp only [Ledger.inUse, Multiset.count_cons_self] at hsingle
      rcases hpoints with hin | hin | hin
      · have hpos := Multiset.count_pos.mpr hin
        omega
      · have hpos := Multiset.count_pos.mpr hin
        omega
      · have hended : g ∈ s.futures.ended := (Multiset.mem_filterMap _ _).mpr ⟨_, hin, rfl⟩
        have hpos := Multiset.count_pos.mpr hended
        omega
    have hkept : (Holder.future g, (s.future g).task) ∈ s.taskRefs :=
      h.points g (hpoints.imp (fun hin => by rwa [futures_push_of_destroys s rfl rfl])
        (Or.imp (fun hin => by rwa [futures_push_of_destroys s rfl rfl])
          Multiset.mem_cons_of_mem))
    rw [hfuture, hrefs]
    refine (Multiset.mem_erase_of_ne fun heq => ?_).mpr hkept
    cases congrArg Prod.fst heq
    exact hne rfl

/-- `task_destroy` returns the task to the pool. -/
theorem State.Counted.taskFree {o : Option ℕ} (h : (s.push (.taskFree a o)).Counted)
    (ok : Bool) : (proceed s ok (.taskFree a o)).Counted := by
  have htasks := tasks_proceed (s := s) (c := .taskFree a o) (fun f hc => by cases hc) ok
  have hfutures := futures_proceed s (.taskFree a o) ok
  have hended : a ∈ (s.push (.taskFree a o)).tasks.ended := by
    rw [tasks_push_taskFree]
    exact Multiset.mem_cons_self _ _
  constructor
  · rw [htasks]
    exact h.tasks.dispose hended
  · rw [hfutures]
    exact h.futures
  · have hpool : (proceed s ok (.taskFree a o)).pool = taskPoolFree s.pool a := by
      cases o <;> rfl
    rw [hpool]
    refine h.pool.free fun b => ?_
    rw [htasks]
    exact Ledger.inUse_dispose hended b
  · have hheap : (proceed s ok (.taskFree a o)).heap = s.heap := by
      cases o <;> rfl
    rw [hfutures, hheap]
    exact h.heap
  · refine h.points_of (fun f hf => ?_) (fun f => ?_) fun f b hmem => ?_
    · rw [State.Points, hfutures] at hf
      refine hf.imp_right (Or.imp_right fun hcall => Multiset.mem_cons_of_mem ?_)
      cases o with
      | none => exact hcall
      | some g => exact (Multiset.mem_cons.mp hcall).resolve_left fun heq => by cases heq
    · cases o <;> rfl
    · cases o <;> exact hmem

/-- `future_destroy` frees the future. -/
theorem State.Counted.futureFree (h : (s.push (.futureFree f)).Counted) (ok : Bool) :
    (proceed s ok (.futureFree f)).Counted := by
  have htasks := tasks_proceed (s := s) (c := .futureFree f) (fun f hc => by cases hc) ok
  have hfutures := futures_proceed s (.futureFree f) ok
  have hended : f ∈ (s.push (.futureFree f)).futures.ended := by
    rw [futures_push_of_destroys s rfl rfl]
    exact Multiset.mem_cons_self _ _
  constructor
  · rw [htasks]
    exact h.tasks
  · rw [hfutures]
    exact h.futures.dispose hended
  · rw [htasks]
    exact h.pool
  · intro g
    have hheap : s.heap.count g = (s.push (.futureFree f)).futures.inUse g := h.heap g
    have huse := Ledger.inUse_dispose hended g
    rw [hfutures]
    rw [← hheap] at huse
    simp only [proceed]
    by_cases hg : g = f
    · subst hg
      rw [if_pos rfl] at huse
      rw [Multiset.count_erase_self]
      omega
    · rw [if_neg hg] at huse
      rw [Multiset.count_erase_of_ne hg]
      omega
  · refine h.points_of (fun g hg => ?_) (fun _ => rfl) fun _ _ hmem => hmem
    rw [State.Points, hfutures] at hg
    exact hg.imp_right (Or.imp_right fun hcall => Multiset.mem_cons_of_mem hcall)

/-- Every step keeps the invariant, as long as the references fit. -/
theorem State.Counted.step (h : s.Counted) {l : Op} (hfits : Fits s l)
    (hstep : s.step l = some t) : t.Counted := by
  cases l with
  | taskCreate p fresh =>
      simp only [State.step, Option.ite_none_right_eq_some, Option.some.injEq] at hstep
      obtain ⟨hfresh, rfl⟩ := hstep
      exact h.taskCreate hfresh
  | taskRef p a =>
      simp only [State.step, Option.ite_none_right_eq_some, Option.some.injEq] at hstep
      obtain ⟨ha, rfl⟩ := hstep
      exact h.taskRef ha
  | taskUnref p a =>
      simp only [State.step, Option.ite_none_right_eq_some, Option.some.injEq] at hstep
      obtain ⟨hmem, rfl⟩ := hstep
      exact h.unrefTask hmem hfits
  | futureCreate p a fresh =>
      simp only [State.step, Option.ite_none_right_eq_some, Option.some.injEq] at hstep
      obtain ⟨⟨ha, hfresh⟩, rfl⟩ := hstep
      exact h.futureCreate ha hfresh
  | futureRef p f =>
      simp only [State.step, Option.ite_none_right_eq_some, Option.some.injEq] at hstep
      obtain ⟨hf, rfl⟩ := hstep
      exact h.futureRef hf
  | futureUnref p f =>
      simp only [State.step, Option.ite_none_right_eq_some, Option.some.injEq] at hstep
      obtain ⟨hmem, rfl⟩ := hstep
      exact h.futureUnref hmem hfits
  | proceed c ok =>
      simp only [State.step, Option.ite_none_right_eq_some, Option.some.injEq] at hstep
      obtain ⟨hc, rfl⟩ := hstep
      have hpush : { s with calls := s.calls.erase c }.push c = s := by
        rw [State.push, Multiset.cons_erase hc]
      rw [← hpush] at h
      cases c with
      | taskInit p a => exact h.taskInit ok
      | mutexInit p f => exact h.mutexInit ok
      | taskUnref f => exact h.taskUnref hfits ok
      | taskFree a o => exact h.taskFree ok
      | futureFree f => exact h.futureFree ok

theorem State.Counted.exact (h : s.Counted) : s.Exact where
  tasks := h.tasks.exact
  futures := h.futures.exact
  pointed := fun f hf => mem_tasks_refs (h.points f (Or.inl hf))

end Invariant

/-- Reference counting is exact in every run in which the references to an object are never
more than an `atomic_int` can count when one of them is released. -/
theorem references_exact {ls : List Op} {t : State}
    (h : Transition.Run (references.restrict Fits) State.start ls t) : t.Exact :=
  (h.preserves (fun _ _ _ hs hstep => hs.step hstep.1 hstep.2) counted_start).exact

/-- A future outlives the reference of the party that created the task. -/
theorem references_exact_future : ∃ t,
    Transition.Run (references.restrict Fits) State.start
      [.taskCreate 0 (some 7), .proceed (.taskInit 0 7) true, .futureCreate 0 7 (some 3),
        .proceed (.mutexInit 0 3) true, .taskUnref 0 7, .futureUnref 0 3,
        .proceed (.taskUnref 3) true, .proceed (.taskFree 7 (some 3)) true] t ∧ t.Exact := by
  have hrun : Transition.Run (references.restrict Fits) State.start
      [.taskCreate 0 (some 7), .proceed (.taskInit 0 7) true, .futureCreate 0 7 (some 3),
        .proceed (.mutexInit 0 3) true, .taskUnref 0 7, .futureUnref 0 3,
        .proceed (.taskUnref 3) true, .proceed (.taskFree 7 (some 3)) true] _ :=
    .cons ⟨trivial, rfl⟩ (.cons ⟨trivial, rfl⟩ (.cons ⟨trivial, rfl⟩ (.cons ⟨trivial, rfl⟩
      (.cons ⟨by decide, rfl⟩ (.cons ⟨by decide, rfl⟩ (.cons ⟨by decide, rfl⟩
        (.cons ⟨trivial, rfl⟩ (.nil _))))))))
  exact ⟨_, hrun, references_exact hrun⟩

/-- Any number of references to one task. -/
theorem exists_run_taskRef {s : State} {p a k : ℕ} (hmem : (.party p, a) ∈ s.taskRefs)
    (hcounter : s.refCount a = BitVec.ofNat 32 k) (hrefs : s.tasks.refs.count a = k) (n : ℕ) :
    ∃ t, Transition.Run references s (List.replicate n (.taskRef p a)) t ∧
      (.party p, a) ∈ t.taskRefs ∧ t.refCount a = BitVec.ofNat 32 (k + n) ∧
      t.tasks.refs.count a = k + n := by
  induction n generalizing s k with
  | zero => exact ⟨s, .nil s, hmem, hcounter, hrefs⟩
  | succ n ih =>
      have hstep : s.step (.taskRef p a) = some (taskRef s (.party p) a) :=
        if_pos (mem_tasks_refs hmem)
      have hnext : (taskRef s (.party p) a).refCount a = BitVec.ofNat 32 (k + 1) := by
        simp only [taskRef, Function.update_self]
        rw [hcounter]
        exact (BitVec.ofNat_add k 1).symm
      have hnextrefs : (taskRef s (.party p) a).tasks.refs.count a = k + 1 := by
        rw [tasks_taskRef, Ledger.retain, Multiset.count_cons_self, hrefs]
      obtain ⟨t, hrun, ht⟩ := ih (Multiset.mem_cons_of_mem hmem) hnext hnextrefs
      rw [show k + (n + 1) = k + 1 + n from by omega]
      exact ⟨t, .cons hstep hrun, ht⟩

/-- With `2 ^ 31` references the counter is negative, and the first release of one of them
gives the task back to the pool. -/
theorem reference_overflow :
    ¬∀ (ls : List Op) (t : State), Transition.Run references State.start ls t → t.Exact := by
  intro h
  obtain ⟨u, hcreate, hfirst, hone, hsingle⟩ : ∃ u, Transition.Run references State.start
      [.taskCreate 0 (some 7), .proceed (.taskInit 0 7) true] u ∧
      (.party 0, 7) ∈ u.taskRefs ∧ u.refCount 7 = BitVec.ofNat 32 1 ∧
      u.tasks.refs.count 7 = 1 :=
    ⟨_, .cons rfl (.cons rfl (.nil _)), by decide, rfl, rfl⟩
  obtain ⟨t, hrun, hmem, hcounter, hrefs⟩ :=
    exists_run_taskRef hfirst hone hsingle (2 ^ 31 - 1)
  have hstep : t.step (.taskUnref 0 7) = some (t.unrefTask (.party 0) 7 none) := if_pos hmem
  have hexact := h _ _ ((hcreate.append hrun).snoc hstep)
  have hlow : ¬1 < (t.refCount 7).toInt := by
    rw [hcounter]
    decide
  refine hexact.tasks.last 7 ?_ ?_ <;> rw [tasks_unrefTask hmem]
  · have hended : (t.tasks.release 7).ended = 7 ::ₘ t.tasks.ended := if_neg hlow
    rw [hended]
    exact Multiset.mem_cons_self _ _
  · refine Multiset.count_pos.mp ?_
    rw [Ledger.release, Multiset.count_erase_self, hrefs]
    decide

end References

end ModernPool

end ProcessThreadPool
