import ProcessThreadPool.CppThreadPool.Books
import Mathlib.Data.Int.ModEq

/-!
# Completion and graceful shutdown of the C++ thread pool

A client's step changes its own position and, in one critical section, the pool.
From what each step does to the clients and to `stop` follow the two promises of
the interface: `wait_for_completion` returns `true` only when everything accepted
is completed or discarded, and after `shutdown` the workers leave with the queue
drained.
-/

namespace ProcessThreadPool

namespace CppThreadPool

open ThreadFamily

section

variable {n : ℕ} {ι τ : Type*} {s t : State n ι τ}

theorem Client.eq_waited_of_notify {c : Client τ} {result : Bool}
    (h : c.notify = .waited result) : c = .waited result := by
  cases c <;> simp_all [Client.notify]

variable [DecidableEq ι]

theorem eq_of_setClient_waited {c c' : ι} {p : Client τ}
    (hold : s.clients c ≠ .waited true)
    (hnew : (s.setClient c' p).clients c = .waited true) : c = c' ∧ p = .waited true := by
  simp only [State.setClient, Function.update_apply] at hnew
  split_ifs at hnew with heq
  · exact ⟨heq, hnew⟩
  · exact absurd hnew hold

/-- A `wait_for_completion` that returns `true` saw its predicate hold in the
critical section it returns from. -/
theorem step_waited {l : Action n ι τ} {c : ι} (hstep : s.step l = some t)
    (hold : s.clients c ≠ .waited true) (hnew : t.clients c = .waited true) :
    s.pool.done = true ∧ t.accepted = s.accepted ∧ t.completed = s.completed ∧
      t.discarded = s.discarded := by
  have hother : ∀ {c' : ι} {p : Client τ}, p ≠ .waited true →
      (s.setClient c' p).clients c ≠ .waited true :=
    fun hp hp' => hp (eq_of_setClient_waited hold hp').2
  cases step_moves hstep with
  | @test c' _ timed hc =>
      rw [waitTest] at hnew ⊢
      have hp := (eq_of_setClient_waited hold hnew).2
      split_ifs at hp with hdone
      exact ⟨hdone, rfl, rfl, rfl⟩
  | timeout hc =>
      have hp := (eq_of_setClient_waited hold hnew).2
      exact ⟨Client.waited.inj hp, rfl, rfl, rfl⟩
  | @wakeClient c' =>
      obtain ⟨rfl, hp⟩ := eq_of_setClient_waited hold hnew
      exact absurd (Client.eq_waited_of_notify hp) hold
  | finish hw =>
      simp only [finishSection, State.setWorker] at hnew
      split_ifs at hnew
      · exact absurd (Client.eq_waited_of_notify hnew) hold
      · exact absurd hnew hold
  | @call c' op hfree => exact absurd hnew (hother (by cases op <;> simp [Op.enter]))
  | sleep | exit | take | execute | wakeWorker => exact absurd hnew hold
  | _ => exact absurd hnew (hother (by simp))

/-- After `stop` nothing is accepted, and `stop` stays set. -/
theorem step_stopped {l : Action n ι τ} (hstop : s.pool.stop = true)
    (hstep : s.step l = some t) : t.pool.stop = true ∧ t.accepted = s.accepted := by
  cases step_moves hstep with
  | accept hc hrunning =>
      rw [hstop] at hrunning
      cases hrunning
  | stop hc hrunning => exact ⟨rfl, rfl⟩
  | stopNow hc hrunning => exact ⟨rfl, rfl⟩
  | _ => exact ⟨hstop, rfl⟩

/-- An `enqueue` that acquires the lock after `stop` throws and adds nothing. -/
theorem enqueue_stopped {c : ι} {task : τ} {wake : Option (Fin n)}
    (hstop : s.pool.stop = true) (hc : s.clients c = .enqueue task)
    (hstep : s.step (.client c wake) = some t) :
    t.clients c = .threw ∧ t.pool = s.pool ∧ t.accepted = s.accepted := by
  simp only [State.step, clientStep, hc, enqueueSection, hstop, if_true,
    Option.some.injEq] at hstep
  subst hstep
  exact ⟨Function.update_self _ _ _, rfl, rfl⟩

/-- In every state, the accepted tasks are queued, active, completed or
discarded, where `completed_tasks` counts as a 64-bit number, and
`wait_for_completion` returns `true` only when all of them are completed or
discarded. -/
theorem accounting (hs : Transition.Reachable (threadPool n) s) :
    ((s.accepted.length : ℤ) ≡ s.pool.tasks.length + s.pool.activeThreads +
      s.pool.completedTasks.toNat + s.discarded.length [ZMOD 2 ^ 64]) ∧
    (s.completed.length < 2 ^ 64 →
      (s.accepted.length : ℤ) = s.pool.tasks.length + s.pool.activeThreads +
        s.pool.completedTasks.toNat + s.discarded.length) ∧
    0 ≤ s.pool.activeThreads ∧ s.pool.activeThreads ≤ n ∧
    (∀ l t c, s.step l = some t → s.clients c ≠ .waited true → t.clients c = .waited true →
      t.accepted.Perm (t.completed ++ t.discarded)) := by
  have hbooks : Books s := inductive_threadPool.reachable hs
  have hactive := hbooks.activeThreads
  have hcount := hbooks.completedTasks_toNat
  refine ⟨?_, fun hfew => ?_, by omega, hbooks.activeThreads_le, ?_⟩
  · rw [hbooks.accepted_length, hcount]
    push_cast
    exact ((Int.ModEq.refl _).add (Int.mod_modEq _ _).symm).add_right _
  · rw [hbooks.accepted_length, hcount, Nat.mod_eq_of_lt hfew]
  intro l t c hstep hold hnew
  obtain ⟨hdone, haccepted, hcompleted, hdiscarded⟩ := step_waited hstep hold hnew
  rw [haccepted, hcompleted, hdiscarded]
  exact hbooks.perm_of_done hdone

theorem accounting_one_running : ∃ s : State 1 Unit ℕ,
    Transition.exec State.step (State.start 1)
      [.call () (.enqueue 7), .client () none, .client () none, .call () (.enqueue 8),
        .client () none, .worker 0 false] = some s ∧
      s.accepted = [7, 8] ∧ s.pool.activeThreads = 1 ∧
      (s.accepted.length : ℤ) = s.pool.tasks.length + s.pool.activeThreads +
        s.pool.completedTasks.toNat + s.discarded.length := by
  refine ⟨_, rfl, rfl, rfl, ?_⟩
  exact (accounting (Transition.reachable_ofFun_iff.mpr
    ⟨[.call () (.enqueue 7), .client () none, .client () none, .call () (.enqueue 8),
      .client () none, .worker 0 false], rfl⟩)).2.1 (by decide)

/-- Nobody is in a critical section of a running pool, and nothing is queued. -/
structure Quiet (s : State 1 Unit τ) : Prop where
  workers : s.workers = fun _ => .top
  clients : s.clients = fun _ => .idle
  tasks : s.pool.tasks = []
  stop : s.pool.stop = false
  activeThreads : s.pool.activeThreads = 0
  discarded : s.discarded = []

/-- A task is enqueued and executed. -/
theorem Quiet.round {s : State 1 Unit τ} (h : Quiet s) (task : τ) :
    ∃ t, Transition.exec State.step s [.call () (.enqueue task), .client () none,
        .client () none, .worker 0 false, .worker 0 false, .worker 0 false] = some t ∧
      Quiet t ∧ t.accepted.length = s.accepted.length + 1 := by
  obtain ⟨⟨stop, tasks, activeThreads, completedTasks⟩, workers, clients, accepted, taken, executed,
    completed, discarded⟩ := s
  obtain ⟨rfl, rfl, rfl, rfl, rfl, rfl⟩ := h
  refine ⟨_, rfl, ⟨?_, ?_, rfl, rfl, rfl, rfl⟩, List.length_append⟩
  · funext i
    rw [Subsingleton.elim i 0]
    rfl
  · rfl

/-- After `2 ^ 64` tasks `completed_tasks` is not their number. -/
theorem completedTasks_wraps : ¬ ∀ s : State 1 Unit ℕ, Transition.Reachable (threadPool 1) s →
    (s.accepted.length : ℤ) = s.pool.tasks.length + s.pool.activeThreads +
      s.pool.completedTasks.toNat + s.discarded.length := by
  intro hclaim
  have hmany : ∀ k, ∃ s : State 1 Unit ℕ, Transition.Reachable (threadPool 1) s ∧
      Quiet s ∧ s.accepted.length = k := by
    intro k
    induction k with
    | zero => exact ⟨_, ⟨_, [], rfl, .nil _⟩, ⟨rfl, rfl, rfl, rfl, rfl, rfl⟩, rfl⟩
    | succ k ih =>
        obtain ⟨s, ⟨s₀, ls, hinit, hrun⟩, hquiet, hlength⟩ := ih
        obtain ⟨t, hexec, ht, haccepted⟩ := hquiet.round 7
        exact ⟨t, ⟨s₀, _, hinit, hrun.append (Transition.run_ofFun_iff.mpr hexec)⟩, ht,
          by rw [haccepted, hlength]⟩
  obtain ⟨s, hs, hquiet, hlength⟩ := hmany (2 ^ 64)
  have hcount := hclaim s hs
  have hlt := UInt64.toNat_lt s.pool.completedTasks
  rw [hlength, hquiet.tasks, hquiet.activeThreads, hquiet.discarded] at hcount
  simp only [List.length_nil] at hcount
  omega

/-- Nobody calls `shutdown_now`. -/
def GracefulStep (_ : State n ι τ) (l : Action n ι τ) : Prop :=
  ∀ c, l ≠ .call c (.shutdown true)

/-- No `shutdown_now` is under way or has been. -/
def Graceful (s : State n ι τ) : Prop :=
  (∀ c, s.clients c ≠ .shutdown true) ∧ s.discarded = []

theorem Graceful.setClient (h : Graceful s) {c : ι} {p : Client τ}
    (hp : p ≠ .shutdown true) : Graceful (s.setClient c p) :=
  ⟨forall_update (P := fun _ v => v ≠ Client.shutdown true) h.1 hp, h.2⟩

theorem Client.notify_ne_shutdown {c : Client τ} {now : Bool} (h : c ≠ .shutdown now) :
    c.notify ≠ .shutdown now := by
  cases c <;> simp_all [Client.notify]

theorem Graceful.step {l : Action n ι τ} (h : Graceful s) (hl : GracefulStep s l)
    (hstep : s.step l = some t) : Graceful t := by
  have hclient : ∀ {u : State n ι τ} {c : ι} {p : Client τ}, u.clients = s.clients →
      u.discarded = s.discarded → p ≠ .shutdown true → Graceful (u.setClient c p) := by
    intro u c p hclients hdiscarded hp
    have hu : Graceful u := ⟨fun c => hclients ▸ h.1 c, hdiscarded.trans h.2⟩
    exact hu.setClient hp
  cases step_moves hstep with
  | @call c op hfree =>
      refine h.setClient fun hop => ?_
      cases op <;> simp only [Op.enter, reduceCtorEq, Client.shutdown.injEq] at hop
      subst hop
      exact hl c rfl
  | stopNow hc hstop => exact absurd hc (h.1 _)
  | wakeClient => exact h.setClient (Client.notify_ne_shutdown (h.1 _))
  | finish hw =>
      refine ⟨fun c => ?_, h.2⟩
      simp only [finishSection, State.setWorker]
      split_ifs
      · exact Client.notify_ne_shutdown (h.1 c)
      · exact h.1 c
  | test hc =>
      rw [waitTest]
      exact h.setClient (by split_ifs <;> simp)
  | sleep | exit | take | execute | wakeWorker => exact h
  | _ => exact hclient rfl rfl (by simp)

theorem inductive_graceful :
    Transition.Inductive ((threadPool n).restrict GracefulStep)
      (fun s : State n ι τ => Books s ∧ Graceful s) := by
  refine .restrict ?_ fun _ _ _ h hl hstep => ⟨h.1.step hstep, h.2.step hl hstep⟩
  rintro s rfl
  exact ⟨Books.start, by simp [State.start], rfl⟩

/-- Without `shutdown_now`: the tasks are taken in the order of acceptance, once
all workers have returned every accepted task has been executed once and the
queue is empty, and after `stop` every `enqueue` throws and nothing is accepted. -/
theorem shutdown_drains (hn : 0 < n)
    (hs : Transition.Reachable ((threadPool n).restrict GracefulStep) s) :
    s.taken <+: s.accepted ∧
    ((∀ i, s.workers i = .exited) →
      s.executed.Perm s.accepted ∧ s.taken = s.accepted ∧ s.pool.tasks = []) ∧
    (s.pool.stop = true →
      (∀ ls t, Transition.Run (threadPool n) s ls t →
        t.pool.stop = true ∧ t.accepted = s.accepted) ∧
      ∀ c task wake t, s.clients c = .enqueue task → s.step (.client c wake) = some t →
        t.clients c = .threw ∧ t.pool = s.pool ∧ t.accepted = s.accepted) := by
  obtain ⟨hbooks, -, hdiscarded⟩ := inductive_graceful.reachable hs
  have haccepted := hbooks.accepted
  rw [hdiscarded, List.append_nil] at haccepted
  refine ⟨⟨_, haccepted.symm⟩, ?_, ?_⟩
  · intro hexited
    have htasks := (hbooks.exited ⟨0, hn⟩ (hexited _)).2
    rw [htasks, List.append_nil] at haccepted
    have hheld : total Worker.held s.workers = 0 :=
      total_eq_zero fun i => by rw [hexited i]; rfl
    have hdone : total Worker.done s.workers = 0 :=
      total_eq_zero fun i => by rw [hexited i]; rfl
    refine ⟨?_, haccepted.symm, htasks⟩
    rw [← Multiset.coe_eq_coe, hbooks.executed, haccepted, hbooks.taken, hheld, hdone]
  · intro hstop
    refine ⟨fun ls t hrun => ?_, fun c task wake t hc hstep => enqueue_stopped hstop hc hstep⟩
    exact hrun.preserves (I := fun t => t.pool.stop = true ∧ t.accepted = s.accepted)
      (fun u l v hu hv => by
        obtain ⟨hstop', hsame⟩ := step_stopped hu.1 hv
        exact ⟨hstop', hsame.trans hu.2⟩) ⟨hstop, rfl⟩

theorem shutdown_drains_one : ∃ s : State 1 Unit ℕ,
    Transition.exec State.step (State.start 1)
      [.call () (.enqueue 7), .client () none, .client () none, .call () (.shutdown false),
        .client () none, .client () none, .worker 0 false, .worker 0 true, .worker 0 false,
        .worker 0 false] = some s ∧
      s.accepted = [7] ∧ s.executed.Perm s.accepted ∧ s.pool.tasks = [] := by
  refine ⟨_, rfl, rfl, ?_⟩
  have hrun : Transition.Run (threadPool (ι := Unit) (τ := ℕ) 1) (State.start 1)
      [.call () (.enqueue 7), .client () none, .client () none, .call () (.shutdown false),
        .client () none, .client () none, .worker 0 false, .worker 0 true, .worker 0 false,
        .worker 0 false] _ := Transition.run_ofFun_iff.mpr rfl
  have hdrained := (shutdown_drains (by decide) ⟨_, _, rfl, hrun.restrict (by
    simp [GracefulStep])⟩).2.1 (by
      intro i
      rw [Fin.fin_one_eq_zero i]
      rfl)
  exact ⟨hdrained.1, hdrained.2.2⟩

end

end CppThreadPool

end ProcessThreadPool
