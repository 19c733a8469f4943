import ProcessThreadPool.CppThreadPool.Waiters

/-!
# Whether a queued task finds a worker

A worker falls asleep on `condition` only when the queue is empty and returns only when
it is empty for good, so a task that is queued beside sleeping workers was pushed after
they fell asleep. Its `enqueue` has then still to issue its `notify_one`, or that
notification has reached a worker, which goes on until it finds the queue empty. A worker
that is awake may take the task meant for one that was notified: what counts is that
somebody is awake.
-/

namespace ProcessThreadPool

namespace CppThreadPool

section

variable {n : ℕ} {ι τ : Type*} {s t : State n ι τ}

/-- The worker will test the queue again without a notification. -/
def Worker.awake : Worker τ → Bool
  | .waiting false | .exited => false
  | _ => true

/-- A task is queued, nobody is about to notify, and every worker that has not returned
is blocked on `condition` without a notification. -/
def Unattended (s : State n ι τ) : Prop :=
  s.pool.tasks ≠ [] ∧ Notified s ∧
    ∀ i, (s.workers i).hasExited = false → (s.workers i).asleep = true

/-- When a task is queued and somebody sleeps, somebody else is awake or about to notify. -/
def Attended (s : State n ι τ) : Prop :=
  s.pool.tasks ≠ [] → (∃ i, (s.workers i).asleep = true) →
    (∃ i, (s.workers i).awake = true) ∨ ∃ c, s.clients c = .notifyOne

theorem Worker.awake_eq_false_of_asleep {w : Worker τ} (h : w.asleep = true) :
    w.awake = false := by
  rw [Worker.eq_waiting_of_asleep h]
  rfl

theorem Worker.not_asleep_notify (w : Worker τ) : w.notify.asleep = false := by
  cases w <;> rfl

namespace Attended

theorem start : Attended (State.start (ι := ι) (τ := τ) n) := fun htasks _ =>
  absurd rfl htasks

theorem of_tasks_eq_nil (h : s.pool.tasks = []) : Attended s := fun htasks _ =>
  absurd h htasks

theorem of_awake {i : Fin n} (h : (s.workers i).awake = true) : Attended s := fun _ _ =>
  Or.inl ⟨i, h⟩

/-- The worker that steps is awake afterwards. -/
theorem setWorker (s : State n ι τ) {i : Fin n} {w : Worker τ} (h : w.awake = true) :
    Attended (s.setWorker i w) := by
  apply of_awake (i := i)
  rw [State.setWorker_self]
  exact h

theorem not_unattended (h : Attended s) (hbooks : Books s) (hn : 0 < n) : ¬Unattended s := by
  rintro ⟨htasks, hnotified, hblocked⟩
  have hasleep : ∀ i, (s.workers i).asleep = true := by
    intro i
    cases hw : s.workers i with
    | exited => exact absurd (hbooks.exited i hw).2 htasks
    | _ => exact hw ▸ hblocked i (by rw [hw]; rfl)
  rcases h htasks ⟨⟨0, hn⟩, hasleep _⟩ with ⟨i, hi⟩ | ⟨c, hc⟩
  · rw [Worker.awake_eq_false_of_asleep (hasleep i)] at hi
    cases hi
  · exact (hnotified c).1 hc

variable [DecidableEq ι]

/-- A client moves that was not about to notify. -/
theorem setClient (h : Attended s) {c : ι} {p : Client τ} (hc : s.clients c ≠ .notifyOne) :
    Attended (s.setClient c p) := by
  intro htasks hasleep
  rcases h htasks hasleep with hawake | ⟨c', hc'⟩
  · exact Or.inl hawake
  · have hne : c' ≠ c := fun heq => hc (heq ▸ hc')
    exact Or.inr ⟨c', (s.setClient_of_ne hne p).trans hc'⟩

theorem step (h : Attended s) {l : Action n ι τ} (hstep : s.step l = some t) :
    Attended t := by
  cases step_moves hstep with
  | accept hc hstop => exact fun _ _ => Or.inr ⟨_, State.setClient_self _ _ _⟩
  | notifyAsleep hc hw =>
      apply of_awake
      exact congrArg Worker.awake (State.setWorker_self _ _ _)
  | notifyNobody hc hnone =>
      rintro - ⟨i, hi⟩
      exact absurd hi (by rw [State.setClient, hnone i]; exact Bool.false_ne_true)
  | notifyAll hc =>
      rintro - ⟨i, hi⟩
      rw [State.setClient, Worker.not_asleep_notify] at hi
      cases hi
  -- A worker sleeps or returns only where the queue is empty.
  | sleep hw hstop htasks => exact of_tasks_eq_nil htasks
  | exit hw hstop htasks => exact of_tasks_eq_nil htasks
  | take hw htasks => exact setWorker _ rfl
  | execute hw => exact setWorker _ rfl
  | finish hw => exact setWorker _ rfl
  | wakeWorker hw => exact setWorker _ rfl
  | stopNow hc hstop => exact of_tasks_eq_nil rfl
  | stop hc hstop =>
      exact setClient (s := { s with pool := { s.pool with stop := true } }) h (by simp [hc])
  | call hfree =>
      refine h.setClient fun hc => ?_
      rw [hc] at hfree
      cases hfree
  | test hc => exact h.setClient (by rcases hc with hc | hc <;> simp [hc])
  | @wakeClient c =>
      by_cases hc : s.clients c = .notifyOne
      · exact fun _ _ => Or.inr ⟨c, by rw [State.setClient_self, hc]; rfl⟩
      · exact h.setClient hc
  | throw hc | stopped hc | join hc | joined hc | timeout hc => exact h.setClient (by simp [hc])

end Attended

variable [DecidableEq ι]

theorem inductive_attended : Transition.Inductive (threadPool n)
    (fun s : State n ι τ => Books s ∧ Attended s) where
  init := by
    rintro s rfl
    exact ⟨Books.start, Attended.start⟩
  step := fun _ _ _ h hstep => ⟨h.1.step hstep, h.2.step hstep⟩

/-- No reachable state of a pool with a worker has a queued task, nobody about to notify,
and only workers that have returned or are blocked on `condition` without a notification. -/
theorem never_unattended (hn : 0 < n) (hs : Transition.Reachable (threadPool n) s) :
    ¬Unattended s := by
  obtain ⟨hbooks, hattended⟩ := inductive_attended.reachable hs
  exact hattended.not_unattended hbooks hn

/-- The only worker sleeps and a task is pushed and notified: the worker has been woken. -/
theorem never_unattended_one : ∃ s : State 1 Unit ℕ,
    Transition.exec State.step (State.start 1)
      [.worker 0 false, .call () (.enqueue 7), .client () none, .client () (some 0)] = some s ∧
      s.pool.tasks = [7] ∧ ¬Unattended s := by
  refine ⟨_, rfl, rfl, ?_⟩
  exact never_unattended (by decide) (Transition.reachable_ofFun_iff.mpr
    ⟨[.worker 0 false, .call () (.enqueue 7), .client () none, .client () (some 0)], rfl⟩)

end

end CppThreadPool

end ProcessThreadPool
