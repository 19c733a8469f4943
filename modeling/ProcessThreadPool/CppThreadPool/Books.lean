import ProcessThreadPool.CppThreadPool.Moves
import ProcessThreadPool.Lib.ThreadFamily
import Mathlib.Algebra.Order.Group.Multiset

/-!
# The books of the C++ thread pool

Each accepted task is queued, held by one worker, completed or discarded, and
the counters agree with that: `active_threads` is the number of held tasks and
`completed_tasks` the number of completed ones up to its width. After `stop` nothing is accepted,
so a worker that returned saw the last of the queue.
-/

namespace ProcessThreadPool

namespace CppThreadPool

open ThreadFamily

/-- Where the accepted tasks are, and what the counters say about them. -/
structure Books {n : ℕ} {ι τ : Type*} (s : State n ι τ) : Prop where
  accepted : s.accepted = s.taken ++ s.discarded ++ s.pool.tasks
  discarded : s.discarded ≠ [] → s.pool.stop = true ∧ s.pool.tasks = []
  taken : (s.taken : Multiset τ) = s.completed + total Worker.held s.workers
  executed : (s.executed : Multiset τ) = s.completed + total Worker.done s.workers
  activeThreads : s.pool.activeThreads = (total Worker.held s.workers).card
  completedTasks : s.pool.completedTasks = UInt64.ofNat s.completed.length
  exited : ∀ i, s.workers i = .exited → s.pool.stop = true ∧ s.pool.tasks = []

@[simp] theorem Worker.held_notify {τ : Type*} (w : Worker τ) : w.notify.held = w.held := by
  cases w <;> rfl

@[simp] theorem Worker.done_notify {τ : Type*} (w : Worker τ) : w.notify.done = w.done := by
  cases w <;> rfl

/-- A worker in front of its first critical section holds nothing. -/
theorem Worker.held_of_testing {τ : Type*} {w : Worker τ} (h : w.testing = true) :
    w.held = 0 := by
  cases w <;> first | rfl | cases h

theorem Worker.done_of_testing {τ : Type*} {w : Worker τ} (h : w.testing = true) :
    w.done = 0 := by
  cases w <;> first | rfl | cases h

theorem Worker.eq_exited_of_notify {τ : Type*} {w : Worker τ} (h : w.notify = .exited) :
    w = .exited := by
  cases w <;> simp_all [Worker.notify]

namespace Books

section

variable {n : ℕ} {ι τ : Type*} {s : State n ι τ}

theorem start : Books (State.start (ι := ι) (τ := τ) n) where
  accepted := rfl
  discarded := by simp [State.start]
  taken := by simp [State.start, total, Worker.held]
  executed := by simp [State.start, total, Worker.done]
  activeThreads := by simp [State.start, total, Worker.held]
  completedTasks := rfl
  exited := by simp [State.start]

/-- The books do not look at the clients. -/
theorem setClients (h : Books s) (clients : ι → Client τ) :
    Books { s with clients := clients } :=
  ⟨h.accepted, h.discarded, h.taken, h.executed, h.activeThreads, h.completedTasks, h.exited⟩

theorem setClient [DecidableEq ι] (h : Books s) (c : ι) (p : Client τ) :
    Books (s.setClient c p) :=
  h.setClients _

/-- A worker moves without touching a task. -/
theorem setWorker (h : Books s) {i : Fin n} {w : Worker τ}
    (hheld : w.held = (s.workers i).held) (hdone : w.done = (s.workers i).done)
    (hexited : w = .exited → s.pool.stop = true ∧ s.pool.tasks = []) :
    Books (s.setWorker i w) where
  accepted := h.accepted
  discarded := h.discarded
  taken := by
    simp only [State.setWorker]
    rw [total_update_of_eq _ _ hheld, h.taken]
  executed := by
    simp only [State.setWorker]
    rw [total_update_of_eq _ _ hdone, h.executed]
  activeThreads := by
    simp only [State.setWorker]
    rw [total_update_of_eq _ _ hheld, h.activeThreads]
  completedTasks := h.completedTasks
  exited := forall_update (P := fun _ v => v = Worker.exited → s.pool.stop = true ∧
    s.pool.tasks = []) h.exited hexited

theorem notifyAll (h : Books s) :
    Books { s with workers := fun i => (s.workers i).notify } where
  accepted := h.accepted
  discarded := h.discarded
  taken := by
    simp only
    rw [total_map_of_eq Worker.held_notify, h.taken]
  executed := by
    simp only
    rw [total_map_of_eq Worker.done_notify, h.executed]
  activeThreads := by
    simp only
    rw [total_map_of_eq Worker.held_notify, h.activeThreads]
  completedTasks := h.completedTasks
  exited := fun i hi => h.exited i (Worker.eq_exited_of_notify hi)

/-- A task is accepted while `stop` is not set. -/
theorem accept (h : Books s) (hstop : s.pool.stop = false) (task : τ) :
    Books { s with
      pool := { s.pool with tasks := s.pool.tasks ++ [task] }
      accepted := s.accepted ++ [task] } := by
  have hrunning : s.pool.stop ≠ true := Bool.eq_false_iff.mp hstop
  refine ⟨?_, ?_, h.taken, h.executed, h.activeThreads, h.completedTasks, ?_⟩
  · simp only
    rw [h.accepted, List.append_assoc]
  · intro hne
    exact absurd (h.discarded hne).1 hrunning
  · intro i hi
    exact absurd (h.exited i hi).1 hrunning

theorem stop (h : Books s) (hstop : s.pool.stop = false) :
    Books { s with pool := { s.pool with stop := true } } := by
  have hrunning : s.pool.stop ≠ true := Bool.eq_false_iff.mp hstop
  exact ⟨h.accepted, fun hne => absurd (h.discarded hne).1 hrunning, h.taken, h.executed,
    h.activeThreads, h.completedTasks, fun i hi => absurd (h.exited i hi).1 hrunning⟩

/-- The queue is discarded. -/
theorem stopNow (h : Books s) :
    Books { s with
      pool := { s.pool with stop := true, tasks := [] }
      discarded := s.discarded ++ s.pool.tasks } := by
  refine ⟨?_, fun _ => ⟨rfl, rfl⟩, h.taken, h.executed, h.activeThreads,
    h.completedTasks, fun _ _ => ⟨rfl, rfl⟩⟩
  simp only
  rw [h.accepted, List.append_assoc, List.append_nil]

theorem notifyWorker (h : Books s) {i : Fin n} (hw : s.workers i = .waiting false) :
    Books (s.setWorker i (.waiting true)) :=
  h.setWorker (by rw [hw]; rfl) (by rw [hw]; rfl) (by simp)

/-- A worker that holds nothing takes the oldest task. -/
theorem take (h : Books s) {i : Fin n} {task : τ} {rest : List τ}
    (hw : (s.workers i).testing = true) (htasks : s.pool.tasks = task :: rest) :
    Books (State.setWorker { s with
      pool := { s.pool with
        tasks := rest
        activeThreads := s.pool.activeThreads + 1 }
      taken := s.taken ++ [task] } i (.running task)) := by
  have hsum := total_update_of_zero Worker.held s.workers (.running task)
    (Worker.held_of_testing hw)
  have hnone : s.discarded = [] := by
    by_contra hne
    rw [(h.discarded hne).2] at htasks
    cases htasks
  refine ⟨?_, ?_, ?_, ?_, ?_, h.completedTasks, ?_⟩
  · simp only [State.setWorker]
    rw [h.accepted, htasks, hnone]
    simp
  · intro hne
    exact absurd hnone hne
  · simp only [State.setWorker]
    rw [hsum, ← Multiset.coe_add, h.taken, add_assoc]
    rfl
  · simp only [State.setWorker]
    rw [total_update_of_eq _ _ (by rw [Worker.done_of_testing hw]; rfl), h.executed]
  · simp only [State.setWorker]
    rw [hsum, Multiset.card_add, h.activeThreads]
    simp [Worker.held]
  · refine forall_update (P := fun _ v => v = Worker.exited → s.pool.stop = true ∧
      rest = []) (fun j hj => ?_) (by simp)
    have hempty := (h.exited j hj).2
    rw [htasks] at hempty
    cases hempty

theorem execute (h : Books s) {i : Fin n} {task : τ} (hw : s.workers i = .running task) :
    Books (State.setWorker { s with executed := s.executed ++ [task] } i (.finishing task)) := by
  have hdone := total_update_of_zero Worker.done s.workers (i := i) (.finishing task)
    (by rw [hw]; rfl)
  refine ⟨h.accepted, h.discarded, ?_, ?_, ?_, h.completedTasks, ?_⟩
  · simp only [State.setWorker]
    rw [total_update_of_eq _ _ (by rw [hw]; rfl), h.taken]
  · simp only [State.setWorker]
    rw [hdone, ← Multiset.coe_add, h.executed, add_assoc]
    rfl
  · simp only [State.setWorker]
    rw [total_update_of_eq _ _ (by rw [hw]; rfl), h.activeThreads]
  · exact forall_update (P := fun _ v => v = Worker.exited → s.pool.stop = true ∧
      s.pool.tasks = []) h.exited (by simp)

theorem finishSection (h : Books s) {i : Fin n} {task : τ}
    (hw : s.workers i = .finishing task) :
    Books (CppThreadPool.finishSection s i task) := by
  have hheld := total_update_to_zero Worker.held s.workers i (a := .top) rfl
  have hdone := total_update_to_zero Worker.done s.workers i (a := .top) rfl
  rw [hw] at hheld hdone
  simp only [Worker.held, Worker.done] at hheld hdone
  refine ⟨h.accepted, h.discarded, ?_, ?_, ?_, ?_, ?_⟩
  · simp only [CppThreadPool.finishSection, State.setWorker]
    rw [h.taken, ← hheld, ← Multiset.coe_add, Multiset.coe_singleton, add_assoc,
      add_comm (total _ _)]
  · simp only [CppThreadPool.finishSection, State.setWorker]
    rw [h.executed, ← hdone, ← Multiset.coe_add, Multiset.coe_singleton, add_assoc,
      add_comm (total _ _)]
  · simp only [CppThreadPool.finishSection, State.setWorker]
    rw [h.activeThreads, ← hheld, Multiset.card_add]
    simp
  · simp only [CppThreadPool.finishSection, State.setWorker]
    rw [h.completedTasks, List.length_append, List.length_singleton, UInt64.ofNat_add]
    rfl
  · exact forall_update (P := fun _ v => v = Worker.exited → s.pool.stop = true ∧
      s.pool.tasks = []) h.exited (by simp)

theorem step [DecidableEq ι] (h : Books s) {l : Action n ι τ} {t : State n ι τ}
    (hstep : s.step l = some t) : Books t := by
  cases step_moves hstep with
  | accept hc hstop => exact (h.accept hstop _).setClient _ _
  | stop hc hstop => exact (h.stop hstop).setClient _ _
  | stopNow hc hstop => exact h.stopNow.setClient _ _
  | notifyAsleep hc hw => exact (h.notifyWorker hw).setClient _ _
  | notifyAll hc => exact h.notifyAll.setClient _ _
  | sleep hw hstop htasks =>
      exact h.setWorker (Worker.held_of_testing hw).symm (Worker.done_of_testing hw).symm (by simp)
  | exit hw hstop htasks =>
      exact h.setWorker (Worker.held_of_testing hw).symm (Worker.done_of_testing hw).symm
        fun _ => ⟨hstop, htasks⟩
  | take hw htasks => exact h.take hw htasks
  | execute hw => exact h.execute hw
  | finish hw => exact h.finishSection hw
  | wakeWorker hw => exact h.notifyWorker hw
  | _ => exact h.setClient _ _

end

end Books

theorem inductive_threadPool {n : ℕ} {ι τ : Type*} [DecidableEq ι] :
    Transition.Inductive (threadPool (ι := ι) (τ := τ) n) Books where
  init := by
    rintro s rfl
    exact Books.start
  step := fun _ _ _ h hstep => h.step hstep

section

variable {n : ℕ} {ι τ : Type*} {s t : State n ι τ}

/-- Nothing is queued and nothing is held, so everything accepted is completed
or discarded. -/
theorem Books.perm_of_done (h : Books s) (hdone : s.pool.done = true) :
    s.accepted.Perm (s.completed ++ s.discarded) := by
  rw [Pool.done, Bool.and_eq_true, List.isEmpty_iff, decide_eq_true_iff,
    h.activeThreads, Int.natCast_eq_zero, Multiset.card_eq_zero] at hdone
  obtain ⟨htasks, hheld⟩ := hdone
  have htaken : s.taken.Perm s.completed := by
    rw [← Multiset.coe_eq_coe, h.taken, hheld, add_zero]
  rw [h.accepted, htasks, List.append_nil]
  exact htaken.append_right _

theorem Books.accepted_length (h : Books s) : (s.accepted.length : ℤ) =
    s.pool.tasks.length + s.pool.activeThreads + s.completed.length + s.discarded.length := by
  have htaken := congrArg Multiset.card h.taken
  rw [Multiset.card_add, Multiset.coe_card, Multiset.coe_card] at htaken
  rw [h.accepted, h.activeThreads, List.length_append, List.length_append, htaken]
  push_cast
  omega

theorem Books.completedTasks_toNat (h : Books s) :
    s.pool.completedTasks.toNat = s.completed.length % 2 ^ 64 := by
  rw [h.completedTasks, UInt64.toNat_ofNat']

theorem Worker.card_held_le_one (w : Worker τ) : w.held.card ≤ 1 := by
  cases w <;> simp [Worker.held]

theorem Books.activeThreads_le (h : Books s) : s.pool.activeThreads ≤ n := by
  have hle := total_le_card Worker.card_held_le_one s.workers
  rw [Fintype.card_fin, total, ← Multiset.card_sum] at hle
  rw [h.activeThreads]
  exact Int.ofNat_le.mpr hle

end

end CppThreadPool

end ProcessThreadPool
