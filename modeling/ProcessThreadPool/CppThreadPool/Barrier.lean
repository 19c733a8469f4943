import ProcessThreadPool.CppThreadPool.Completion
import Mathlib.Tactic.Abel

/-!
# What has been executed when `shutdown` returns

The call that sets `stop` joins every worker, and a worker returns only when the queue is
empty, so when that call returns everything accepted has been executed. A call that finds
`stop` set returns at once, whatever the workers are doing.
-/

namespace ProcessThreadPool

namespace CppThreadPool

open ThreadFamily

section

variable {n : ℕ} {ι τ : Type*} {s t : State n ι τ}

/-- The task that a worker is running. -/
def Worker.current {τ : Type*} : Worker τ → Multiset τ
  | .running task => {task}
  | _ => 0

/-- The step with which a call of `shutdown` returns: it has found `stop` set, or it has
joined the last worker. -/
def ShutdownReturns (s : State n ι τ) (l : Action n ι τ) (t : State n ι τ) : Prop :=
  ∃ c wake, l = .client c wake ∧ (s.clients c = .shutdown false ∨ ∃ i, s.clients c = .join i) ∧
    t.clients c = .idle

/-- When a `shutdown` returns, every accepted task has finished executing. -/
def Barrier (s : State n ι τ) (l : Action n ι τ) (t : State n ι τ) : Prop :=
  ShutdownReturns s l t → t.executed.Perm t.accepted

/-- A call of `shutdown` that finds `stop` set also finds the queue empty and no worker
running a task. -/
def FindsAllDone (s : State n ι τ) (l : Action n ι τ) : Prop :=
  ∀ c wake, l = .client c wake → s.clients c = .shutdown false → s.pool.stop = true →
    s.pool.tasks = [] ∧ ∀ i task, s.workers i ≠ .running task

/-- The workers that a call of `shutdown` has joined have returned. -/
def Joined (s : State n ι τ) : Prop :=
  ∀ c i, s.clients c = .join i → ∀ j : Fin n, (j : ℕ) < i → s.workers j = .exited

theorem Worker.held_eq {τ : Type*} (w : Worker τ) : w.held = w.current + w.done := by
  cases w <;> simp [Worker.held, Worker.current, Worker.done]

theorem Client.eq_join_of_notify {c : Client τ} {i : ℕ} (h : c.notify = .join i) :
    c = .join i := by
  cases c <;> simp_all [Client.notify]

/-- What is accepted has been executed, is being run, is queued or was discarded. -/
theorem Books.coe_accepted (h : Books s) : (s.accepted : Multiset τ) =
    s.executed + (total Worker.current s.workers + s.discarded + s.pool.tasks) := by
  have hheld : total Worker.held s.workers =
      total Worker.current s.workers + total Worker.done s.workers := by
    rw [total, total, total, ← Finset.sum_add_distrib]
    exact Finset.sum_congr rfl fun i _ => Worker.held_eq _
  rw [h.accepted, ← Multiset.coe_add, ← Multiset.coe_add, h.taken, h.executed, hheld]
  abel

/-- Everything accepted has been executed exactly when nothing is queued or running. -/
theorem Books.executed_perm_iff (h : Books s) (hdiscarded : s.discarded = []) :
    s.executed.Perm s.accepted ↔ s.pool.tasks = [] ∧ ∀ i task, s.workers i ≠ .running task := by
  have hcurrent : total Worker.current s.workers = 0 ↔
      ∀ i task, s.workers i ≠ .running task := by
    rw [total, Finset.sum_eq_zero_iff]
    refine forall_congr' fun i => ?_
    cases s.workers i <;> simp [Worker.current]
  rw [← Multiset.coe_eq_coe, h.coe_accepted, hdiscarded, eq_comm, add_eq_left, add_eq_zero,
    add_eq_zero, hcurrent, Multiset.coe_eq_zero, Multiset.coe_eq_zero, and_comm]
  simp

/-- When a call of `shutdown` has joined all workers, everything accepted has been
executed. -/
theorem Joined.executed_perm (h : Joined s) (hbooks : Books s) (hdiscarded : s.discarded = [])
    (hn : 0 < n) {c : ι} {i : ℕ} (hc : s.clients c = .join i) (hi : n ≤ i) :
    s.executed.Perm s.accepted := by
  have hexited : ∀ j, s.workers j = .exited := fun j => h c i hc j (j.isLt.trans_le hi)
  refine (hbooks.executed_perm_iff hdiscarded).mpr ⟨(hbooks.exited _ (hexited ⟨0, hn⟩)).2, ?_⟩
  intro j task hj
  rw [hexited j] at hj
  cases hj

variable [DecidableEq ι]

/-- A worker that has returned stays so. -/
theorem step_exited {l : Action n ι τ} (hstep : s.step l = some t) {j : Fin n}
    (hj : s.workers j = .exited) : t.workers j = .exited := by
  have hset : ∀ {u : State n ι τ} {i : Fin n} {w : Worker τ}, s.workers i ≠ .exited →
      u.workers j = .exited → (u.setWorker i w).workers j = .exited := by
    intro u i w hi hu
    have hne : j ≠ i := by
      rintro rfl
      exact hi hj
    exact (u.setWorker_of_ne hne w).trans hu
  have htesting : ∀ {i}, (s.workers i).testing = true → s.workers i ≠ .exited := by
    rintro i hi hexited
    rw [hexited] at hi
    cases hi
  cases step_moves hstep with
  | notifyAsleep hc hw => exact hset (by simp [hw]) hj
  | wakeWorker hw => exact hset (by simp [hw]) hj
  | sleep hw hstop htasks => exact hset (htesting hw) hj
  | exit hw hstop htasks => exact hset (htesting hw) hj
  | take hw htasks => exact hset (htesting hw) hj
  | execute hw => exact hset (by simp [hw]) hj
  | finish hw => exact hset (by simp [hw]) hj
  | notifyAll hc =>
      exact congrArg Worker.notify hj
  | _ => exact hj

/-- A client comes to `join` from its `notify_all`, or from the `join` of a worker that has
returned. -/
theorem step_join {l : Action n ι τ} (hstep : s.step l = some t) {c : ι} {i : ℕ}
    (hi : t.clients c = .join i) :
    s.clients c = .join i ∨ i = 0 ∨
      ∃ k : Fin n, i = k + 1 ∧ s.clients c = .join k ∧ s.workers k = .exited := by
  have hset : ∀ {u : State n ι τ} {c' : ι} {p : Client τ}, u.clients = s.clients →
      (u.setClient c' p).clients c = .join i → s.clients c = .join i ∨ p = .join i ∧ c = c' := by
    intro u c' p hu hjoin
    by_cases heq : c = c'
    · subst heq
      rw [State.setClient_self] at hjoin
      exact Or.inr ⟨hjoin, rfl⟩
    · rw [State.setClient_of_ne u heq, hu] at hjoin
      exact Or.inl hjoin
  have hother : ∀ {u : State n ι τ} {c' : ι} {p : Client τ}, u.clients = s.clients →
      p ≠ .join i → (u.setClient c' p).clients c = .join i → s.clients c = .join i :=
    fun hu hp hjoin => (hset hu hjoin).resolve_right fun h => hp h.1
  cases step_moves hstep with
  | @call _ op hfree => exact Or.inl (hother rfl (by cases op <;> simp [Op.enter]) hi)
  | notifyAll hc =>
      rcases hset rfl hi with hold | ⟨heq, -⟩
      · exact Or.inl hold
      · exact Or.inr (Or.inl (Client.join.inj heq).symm)
  | @join _ _ k hc hw =>
      rcases hset rfl hi with hold | ⟨heq, rfl⟩
      · exact Or.inl hold
      · exact Or.inr (Or.inr ⟨k, (Client.join.inj heq).symm, hc, hw⟩)
  | test hc =>
      rw [waitTest] at hi
      exact Or.inl (hother rfl (by split_ifs <;> simp) hi)
  | @wakeClient c' =>
      rcases hset rfl hi with hold | ⟨heq, rfl⟩
      · exact Or.inl hold
      · exact Or.inl (Client.eq_join_of_notify heq)
  | finish hw =>
      simp only [finishSection, State.setWorker] at hi
      split_ifs at hi
      · exact Or.inl (Client.eq_join_of_notify hi)
      · exact Or.inl hi
  | sleep hw hstop htasks | exit hw hstop htasks | take hw htasks | execute hw | wakeWorker hw =>
      exact Or.inl hi
  | _ => exact Or.inl (hother rfl (by simp) hi)

theorem Joined.step (h : Joined s) {l : Action n ι τ} (hstep : s.step l = some t) :
    Joined t := by
  intro c i hi j hj
  apply step_exited hstep
  rcases step_join hstep hi with hold | rfl | ⟨k, rfl, hc, hexited⟩
  · exact h c i hold j hj
  · exact absurd hj (Nat.not_lt_zero _)
  · rcases Nat.lt_succ_iff_lt_or_eq.mp hj with hlt | heq
    · exact h c k hc j hlt
    · rwa [Fin.ext heq]

/-- A step is a barrier exactly when it is no early return from `shutdown` with work left. -/
theorem barrier_iff (hn : 0 < n) (hbooks : Books s) (hgraceful : Graceful s)
    (hjoined : Joined s) {l : Action n ι τ} (hstep : s.step l = some t) :
    Barrier s l t ↔ FindsAllDone s l := by
  by_cases hearly : ∃ c wake, l = .client c wake ∧ s.clients c = .shutdown false ∧
      s.pool.stop = true
  · obtain ⟨c, wake, rfl, hc, hstop⟩ := hearly
    have ht : t = s.setClient c .idle := by
      simp only [State.step, clientStep, hc, shutdownSection, hstop, if_true,
        Option.some.injEq] at hstep
      exact hstep.symm
    have hdone := hbooks.executed_perm_iff hgraceful.2
    subst ht
    constructor
    · rintro hbarrier c' wake' hl - -
      exact hdone.mp (hbarrier ⟨c, wake, rfl, Or.inl hc, State.setClient_self _ _ _⟩)
    · intro hfinds _
      exact hdone.mpr (hfinds c wake rfl hc hstop)
  · refine iff_of_true ?_ fun c wake hl hc hstop =>
      absurd ⟨c, wake, hl, hc, hstop⟩ hearly
    rintro ⟨c, wake, rfl, hc, hidle⟩
    cases step_moves hstep with
    | @stopped _ _ now hc' hstop =>
        rcases hc with hc | ⟨i, hc⟩
        · exact absurd ⟨c, wake, rfl, hc, hstop⟩ hearly
        · rw [hc] at hc'
          cases hc'
    | joined hc' hi => exact hjoined.executed_perm hbooks hgraceful.2 hn hc' hi
    | stop hc' hstop | stopNow hc' hstop | join hc' hw =>
        rw [State.setClient_self] at hidle
        cases hidle
    | test hc' => rcases hc with hc | ⟨i, hc⟩ <;> rcases hc' with hc' | hc' <;>
        exact absurd (hc.symm.trans hc') (by simp)
    | accept hc' | throw hc' | notifyAsleep hc' | notifyNobody hc' | notifyAll hc' =>
        rcases hc with hc | ⟨i, hc⟩ <;> exact absurd (hc.symm.trans hc') (by simp)

/-- In a run without `shutdown_now` every return from `shutdown` comes after the end of all
accepted tasks exactly when every call that finds `stop` set finds nothing queued and
nothing running. -/
theorem barrier_run_iff (hn : 0 < n) (ls : List (Action n ι τ)) (s : State n ι τ) :
    Transition.Run (((threadPool n).restrict GracefulStep).filter Barrier) (State.start n) ls s ↔
      Transition.Run (((threadPool n).restrict GracefulStep).restrict FindsAllDone)
        (State.start n) ls s := by
  apply Transition.run_filter_iff_restrict (I := fun s => (Books s ∧ Graceful s) ∧ Joined s)
  · intro s l t h _ hstep
    exact ⟨inductive_graceful.step s l t h.1 hstep, h.2.step hstep.2⟩
  · intro s l t h hstep
    exact barrier_iff hn h.1.1 h.1.2 h.2 hstep.2
  · exact ⟨inductive_graceful.init _ rfl, fun c i hi => by cases hi⟩

/-- The only task has been executed when a second call finds `stop` set. -/
theorem barrier_run_two : ∃ s : State 1 (Fin 2) ℕ,
    Transition.Run (((threadPool 1).restrict GracefulStep).filter Barrier) (State.start 1)
      [.call 0 (.enqueue 7), .client 0 none, .client 0 none, .worker 0 false, .worker 0 false,
        .call 0 (.shutdown false), .client 0 none, .call 1 (.shutdown false), .client 1 none] s ∧
      s.clients 1 = .idle ∧ s.clients 0 = .notifyAll ∧ s.accepted = [7] := by
  have hnever : ∀ {u : State 1 (Fin 2) ℕ} {l : Action 1 (Fin 2) ℕ},
      (∀ c wake, l = .client c wake → u.clients c ≠ .shutdown false ∨ u.pool.stop = false) →
        FindsAllDone u l := by
    rintro u l hl c wake rfl hc hstop
    rcases hl c wake rfl with hne | hrun
    · exact absurd hc hne
    · rw [hstop] at hrun
      cases hrun
  have hgraceful : ∀ {u : State 1 (Fin 2) ℕ} {l : Action 1 (Fin 2) ℕ},
      (∀ c, l ≠ .call c (.shutdown true)) → GracefulStep u l := fun h => h
  refine ⟨_, (barrier_run_iff (by decide) _ _).mpr
    (.cons ⟨hnever (by decide), hgraceful (by decide), rfl⟩
    (.cons ⟨hnever (by decide), hgraceful (by decide), rfl⟩
    (.cons ⟨hnever (by decide), hgraceful (by decide), rfl⟩
    (.cons ⟨hnever (by decide), hgraceful (by decide), rfl⟩
    (.cons ⟨hnever (by decide), hgraceful (by decide), rfl⟩
    (.cons ⟨hnever (by decide), hgraceful (by decide), rfl⟩
    (.cons ⟨hnever (by decide), hgraceful (by decide), rfl⟩
    (.cons ⟨hnever (by decide), hgraceful (by decide), rfl⟩
    (.cons ⟨?_, hgraceful (by decide), rfl⟩ (.nil _)))))))))), rfl, rfl, rfl⟩
  rintro - - - - -
  refine ⟨rfl, fun i task hrunning => ?_⟩
  rw [Fin.fin_one_eq_zero i] at hrunning
  cases hrunning

/-- A thread closes the pool while a task is queued, and a second call returns at once. -/
theorem shutdown_returns_early :
    ¬ ∀ (n : ℕ) (s t : State n (Fin 2) ℕ) (l : Action n (Fin 2) ℕ), 0 < n →
      Transition.Reachable ((threadPool n).restrict GracefulStep) s → s.step l = some t →
        ShutdownReturns s l t → t.executed.Perm t.accepted := by
  intro hclaim
  have hrun : Transition.Run (threadPool (ι := Fin 2) (τ := ℕ) 1) (State.start 1)
      [.call 0 (.enqueue 7), .client 0 none, .client 0 none, .call 0 (.shutdown false),
        .client 0 none, .call 1 (.shutdown false)] _ := Transition.run_ofFun_iff.mpr rfl
  have hperm := hclaim 1 _ _ (.client 1 none) (by decide)
    ⟨_, _, rfl, hrun.restrict (by simp [GracefulStep])⟩ rfl
    ⟨1, none, rfl, Or.inl rfl, rfl⟩
  exact absurd hperm.length_eq (by decide)

end

end CppThreadPool

end ProcessThreadPool
