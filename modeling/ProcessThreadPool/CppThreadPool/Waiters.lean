import ProcessThreadPool.CppThreadPool.Completion

/-!
# Who wakes the callers of `wait_for_completion`

A caller blocks on `finished` only while its predicate is false, and a worker that
makes the predicate true notifies all of them. `shutdown_now` can make it true as
well, by clearing a queue from which no worker has taken anything yet, and it
notifies only `condition`.
-/

namespace ProcessThreadPool

namespace CppThreadPool

section

variable {n : ℕ} {ι τ : Type*} {s t : State n ι τ}

/-- No caller of `wait_for_completion(0)` is blocked on `finished` without a
notification while its predicate holds. -/
def NoneStranded (s : State n ι τ) : Prop :=
  s.pool.done = true → ∀ c, s.clients c ≠ .blocked false false

/-- The operations so far have issued all their notifications. -/
def Notified (s : State n ι τ) : Prop :=
  ∀ c, s.clients c ≠ .notifyOne ∧ s.clients c ≠ .notifyAll

/-- A `shutdown_now` that clears a queue while no task is running finds no caller of
`wait_for_completion(0)` blocked on `finished`. -/
def ClearsUnwatched (s : State n ι τ) (l : Action n ι τ) : Prop :=
  ∀ c wake, l = .client c wake → s.clients c = .shutdown true → s.pool.stop = false →
    s.pool.tasks ≠ [] → s.pool.activeThreads = 0 →
      ∀ c', s.clients c' ≠ .blocked false false

theorem Client.notify_ne_blocked {c : Client τ} {timed : Bool} :
    c.notify ≠ .blocked timed false := by
  cases c <;> simp [Client.notify]

namespace NoneStranded

theorem of_done_eq_false (h : s.pool.done = false) : NoneStranded s := by
  intro hdone
  rw [h] at hdone
  cases hdone

theorem setClient [DecidableEq ι] (h : NoneStranded s) {c : ι} {p : Client τ}
    (hp : s.pool.done = true → p ≠ .blocked false false) :
    NoneStranded (s.setClient c p) := by
  intro hdone c' hc'
  simp only [State.setClient, Function.update_apply] at hc'
  split_ifs at hc'
  · exact hp hdone hc'
  · exact h hdone c' hc'

end NoneStranded

theorem done_iff {p : Pool τ} : p.done = true ↔ p.tasks = [] ∧ p.activeThreads = 0 := by
  rw [Pool.done, Bool.and_eq_true, List.isEmpty_iff, decide_eq_true_iff]

/-- The second critical section of a worker notifies whenever the predicate holds
after it. -/
theorem noneStranded_finishSection (s : State n ι τ) (i : Fin n) (task : τ) :
    NoneStranded (finishSection s i task) := by
  intro hdone c
  simp only [finishSection, State.setWorker] at hdone ⊢
  rw [if_pos hdone]
  exact Client.notify_ne_blocked

/-- A worker that takes a task makes the predicate false. -/
theorem done_take (hbooks : Books s) (rest : List τ) :
    Pool.done { s.pool with tasks := rest, activeThreads := s.pool.activeThreads + 1 } = false := by
  have hactive := hbooks.activeThreads
  rw [Bool.eq_false_iff]
  intro hdone
  have hzero : s.pool.activeThreads + 1 = 0 := (done_iff.mp hdone).2
  omega

variable [DecidableEq ι]

/-- The section of `shutdown_now` strands the threads blocked on `finished` exactly when it
makes the predicate true by itself. -/
theorem NoneStranded.stopNow_iff (h : NoneStranded s) {c : ι} {wake : Option (Fin n)}
    (hc : s.clients c = .shutdown true) (hstop : s.pool.stop = false) :
    NoneStranded (State.setClient { s with
        pool := { s.pool with stop := true, tasks := [] }
        discarded := s.discarded ++ s.pool.tasks } c .notifyAll) ↔
      ClearsUnwatched s (.client c wake) := by
  constructor
  · rintro ht - - - - - htasks hactive c' hc'
    have hne : c' ≠ c := by
      rintro rfl
      rw [hc] at hc'
      cases hc'
    refine ht (done_iff.mpr ⟨rfl, hactive⟩) c' ?_
    rw [State.setClient_of_ne _ hne]
    exact hc'
  · intro hclears
    refine NoneStranded.setClient (fun hdone c' hc' => ?_) fun _ => by simp
    have hactive : s.pool.activeThreads = 0 := (done_iff.mp hdone).2
    by_cases htasks : s.pool.tasks = []
    · exact h (done_iff.mpr ⟨htasks, hactive⟩) c' hc'
    · exact hclears c wake rfl hc hstop htasks hactive c' hc'

/-- A step strands somebody exactly when it is a `shutdown_now` that clears the queue
under the eyes of a waiting thread. -/
theorem NoneStranded.step_iff (h : NoneStranded s) (hbooks : Books s) {l : Action n ι τ}
    (hstep : s.step l = some t) : NoneStranded t ↔ ClearsUnwatched s l := by
  have hclient : ∀ {c : ι} {wake : Option (Fin n)}, s.clients c ≠ .shutdown true →
      ClearsUnwatched s (.client c wake) := by
    rintro c wake hne c' wake' hl hc'
    cases hl
    exact absurd hc' hne
  cases step_moves hstep with
  | stopNow hc hstop => exact h.stopNow_iff hc hstop
  | stopped hc hstop =>
      refine iff_of_true (h.setClient fun _ => by simp) ?_
      intro c' wake' _ _ hrunning
      rw [hstop] at hrunning
      cases hrunning
  | accept hc hstop =>
      refine iff_of_true ?_ (hclient (by simp [hc]))
      exact (NoneStranded.of_done_eq_false (by simp [Pool.done])).setClient fun _ => by simp
  | throw hc | notifyNobody hc | join hc | joined hc =>
      exact iff_of_true (h.setClient fun _ => by simp) (hclient (by simp [hc]))
  | notifyAsleep hc | stop hc | notifyAll hc =>
      refine iff_of_true ?_ (hclient (by simp [hc]))
      exact NoneStranded.setClient (fun hdone => h hdone) fun _ => by simp
  | test hc =>
      refine iff_of_true ?_ (hclient (by rcases hc with hc | hc <;> simp [hc]))
      rw [waitTest]
      exact h.setClient fun hdone => by simp [hdone]
  | take hw htasks =>
      refine iff_of_true (NoneStranded.of_done_eq_false (done_take hbooks _)) ?_
      exact fun _ _ hl => by cases hl
  | finish hw => exact iff_of_true (noneStranded_finishSection _ _ _) fun _ _ hl => by cases hl
  | sleep | exit | execute | wakeWorker => exact iff_of_true h fun _ _ hl => by cases hl
  | @call c op hfree =>
      exact iff_of_true (h.setClient fun _ => by cases op <;> simp [Op.enter])
        fun _ _ hl => by cases hl
  | timeout hc => exact iff_of_true (h.setClient fun _ => by simp) fun _ _ hl => by cases hl
  | wakeClient =>
      exact iff_of_true (h.setClient fun _ => Client.notify_ne_blocked) fun _ _ hl => by cases hl

/-- A run strands no thread in `wait_for_completion(0)` exactly when no `shutdown_now`
clears a queue while no task is running and such a thread is blocked on `finished`. -/
theorem none_stranded_iff (ls : List (Action n ι τ)) (s : State n ι τ) :
    Transition.Run ((threadPool n).filter fun _ _ t => NoneStranded t) (State.start n) ls s ↔
      Transition.Run ((threadPool n).restrict ClearsUnwatched) (State.start n) ls s := by
  apply Transition.run_filter_iff_restrict (I := fun s => Books s ∧ NoneStranded s)
  · intro s l t h hclears hstep
    exact ⟨h.1.step hstep, (h.2.step_iff h.1 hstep).mpr hclears⟩
  · intro s l t h hstep
    exact h.2.step_iff h.1 hstep
  · exact ⟨Books.start, fun _ _ => by simp [State.start]⟩

end

/-- One task is queued, a thread waits for completion, and `shutdown_now` clears the
queue: the predicate holds, everything has been notified, and the thread stays
blocked. -/
theorem stranded_by_shutdownNow : ¬ ∀ (n : ℕ) (s : State n (Fin 3) ℕ),
    Transition.Reachable (threadPool n) s → s.pool.done = true → Notified s →
      ∀ c, s.clients c ≠ .blocked false false := by
  intro hclaim
  refine hclaim 1 _ (Transition.reachable_ofFun_iff.mpr
    ⟨[.call 0 (.enqueue 7), .client 0 none, .client 0 none, .call 1 (.wait false),
      .client 1 none, .call 2 (.shutdown true), .client 2 none, .client 2 none], rfl⟩)
    ?_ ?_ 1 ?_
  · decide
  · unfold Notified
    decide
  · decide

end CppThreadPool

end ProcessThreadPool
