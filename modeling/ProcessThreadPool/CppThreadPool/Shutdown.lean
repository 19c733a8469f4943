import ProcessThreadPool.CppThreadPool.Attendance
import ProcessThreadPool.CppThreadPool.Barrier
import ProcessThreadPool.Lib.Progress

/-!
# `shutdown` and `shutdown_now` come to an end

The call that sets `stop` notifies all workers and joins them. From then on no worker falls
asleep, nothing is accepted, and every step of a worker brings it nearer to its return, so the
call returns after boundedly many steps of its own and of the workers, whatever the other
clients do. A task is taken to return or to throw at some time, which is a step of its worker.
-/

namespace ProcessThreadPool

namespace CppThreadPool

open ThreadFamily

section

variable {n : ℕ} {ι τ : Type*} {s t : State n ι τ}

/-- The client is in the part of `shutdown` behind the critical section. -/
def Client.closing : Client τ → Bool
  | .notifyAll | .join _ => true
  | _ => false

/-- The steps that a worker has in front of it, when the queue is empty. -/
def Worker.left : Worker τ → ℕ
  | .top | .waiting _ => 1
  | .running _ => 3
  | .finishing _ => 2
  | .exited => 0

/-- The steps that a closing client has in front of it, with `n` workers to join. -/
def Client.left (n : ℕ) : Client τ → ℕ
  | .notifyAll => n + 2
  | .join i => n + 1 - i
  | _ => 0

/-- The steps left until client `c` returns from its `shutdown`. -/
def State.left (c : ι) (s : State n ι τ) : ℕ :=
  3 * s.pool.tasks.length + total Worker.left s.workers + (s.clients c).left n

/-- The steps of the workers and of client `c`. -/
def ownStep [DecidableEq ι] (c : ι) : Action n ι τ → Bool
  | .worker _ _ => true
  | .client c' _ => decide (c' = c)
  | _ => false

/-- The call of `shutdown` has returned. -/
def Returned (c : ι) (s : State n ι τ) : Prop := (s.clients c).closing = false

/-- A client is closing only behind `stop`, and while it joins nobody sleeps. -/
structure Closing (s : State n ι τ) : Prop where
  joined : Joined s
  bounded : ∀ c i, s.clients c = .join i → i ≤ n
  stopped : ∀ c, (s.clients c).closing = true → s.pool.stop = true
  awake : ∀ c i, s.clients c = .join i → ∀ j, (s.workers j).asleep = false

@[simp] theorem Client.closing_notify (p : Client τ) : p.notify.closing = p.closing := by
  cases p <;> rfl

@[simp] theorem Client.left_notify (p : Client τ) : p.notify.left n = p.left n := by
  cases p <;> rfl

@[simp] theorem Worker.left_notify (w : Worker τ) : w.notify.left = w.left := by
  cases w <;> rfl

theorem Worker.left_of_testing {w : Worker τ} (h : w.testing = true) : w.left = 1 := by
  cases w <;> first | rfl | cases h

theorem Closing.start : Closing (State.start (ι := ι) (τ := τ) n) where
  joined := nofun
  bounded := nofun
  stopped := nofun
  awake := nofun

theorem of_finishSection (P : Client τ → Prop) (hP : ∀ p : Client τ, P p.notify → P p)
    {i : Fin n} {task : τ} {c : ι} (h : P ((finishSection s i task).clients c)) :
    P (s.clients c) := by
  simp only [finishSection, State.setWorker] at h
  split_ifs at h
  · exact hP _ h
  · exact h

variable [DecidableEq ι]

/-- What a client is after its step it was before, when the step does not make it so. -/
theorem of_setClient (P : Client τ → Prop) {u : State n ι τ} {c c' : ι} {p : Client τ}
    (hu : u.clients = s.clients) (hp : P p → P (s.clients c'))
    (h : P ((u.setClient c' p).clients c)) : P (s.clients c) := by
  by_cases heq : c = c'
  · subst heq
    rw [State.setClient_self] at h
    exact hp h
  · rwa [State.setClient_of_ne u heq, hu] at h

/-- A client that closes after a step did so before, or the pool has been stopped. -/
theorem step_closing {l : Action n ι τ} (hstep : s.step l = some t) {c : ι}
    (hc : (t.clients c).closing = true) :
    (s.clients c).closing = true ∨ t.pool.stop = true := by
  have hset := @of_setClient n ι τ s _ fun p => p.closing = true
  cases step_moves hstep with
  | stop | stopNow => exact Or.inr rfl
  | sleep | exit | take | execute | wakeWorker => exact Or.inl hc
  | @call _ op => exact Or.inl (hset rfl (by cases op <;> simp [Op.enter, Client.closing]) hc)
  | notifyAll hold => exact Or.inl (hset rfl (fun _ => by rw [hold]; rfl) hc)
  | join hold => exact Or.inl (hset rfl (fun _ => by rw [hold]; rfl) hc)
  | test hold =>
      rw [waitTest] at hc
      exact Or.inl (hset rfl (by split_ifs <;> simp [Client.closing]) hc)
  | wakeClient => exact Or.inl (hset rfl (by rw [Client.closing_notify]; exact id) hc)
  | finish hw =>
      exact Or.inl (of_finishSection (fun p => p.closing = true)
        (fun p hp => by rwa [Client.closing_notify] at hp) hc)
  | _ => exact Or.inl (hset rfl (by simp [Client.closing]) hc)

/-- A client that joins after a step did so before, or the step has notified all workers. -/
theorem step_joining {l : Action n ι τ} (hstep : s.step l = some t) {c : ι}
    (hc : ∃ i, t.clients c = .join i) :
    (∃ i, s.clients c = .join i) ∨ ∀ j, (t.workers j).asleep = false := by
  have hset := @of_setClient n ι τ s _ fun p => ∃ i, p = .join i
  cases step_moves hstep with
  | notifyAll => exact Or.inr fun _ => Worker.not_asleep_notify _
  | sleep | exit | take | execute | wakeWorker => exact Or.inl hc
  | @call _ op => exact Or.inl (hset rfl (by cases op <;> simp [Op.enter]) hc)
  | join hold => exact Or.inl (hset rfl (fun _ => ⟨_, hold⟩) hc)
  | test hold =>
      rw [waitTest] at hc
      exact Or.inl (hset rfl (by split_ifs <;> simp) hc)
  | wakeClient =>
      exact Or.inl (hset rfl (Exists.imp fun _ => Client.eq_join_of_notify) hc)
  | finish hw =>
      exact Or.inl (of_finishSection (fun p => ∃ i, p = .join i)
        (fun _ => Exists.imp fun _ => Client.eq_join_of_notify) hc)
  | _ => exact Or.inl (hset rfl (by simp) hc)

/-- A worker falls asleep only in a running pool. -/
theorem step_asleep {l : Action n ι τ} (hstep : s.step l = some t) (hstop : s.pool.stop = true)
    {j : Fin n} (hj : (s.workers j).asleep = false) : (t.workers j).asleep = false := by
  have hset : ∀ {i : Fin n} {w : Worker τ}, w.asleep = false →
      (Function.update s.workers i w j).asleep = false := by
    intro i w hw
    by_cases heq : j = i
    · rw [heq, Function.update_self]
      exact hw
    · rw [Function.update_of_ne heq]
      exact hj
  cases step_moves hstep with
  | sleep hw hrunning =>
      rw [hstop] at hrunning
      cases hrunning
  | notifyAll => exact Worker.not_asleep_notify _
  | notifyAsleep | exit | take | execute | finish | wakeWorker => exact hset rfl
  | _ => exact hj

namespace Closing

theorem step (h : Closing s) {l : Action n ι τ} (hstep : s.step l = some t) : Closing t where
  joined := h.joined.step hstep
  bounded := by
    intro c i hi
    rcases step_join hstep hi with hold | rfl | ⟨k, rfl, -, -⟩
    · exact h.bounded c i hold
    · exact Nat.zero_le n
    · exact k.isLt
  stopped := by
    intro c hc
    rcases step_closing hstep hc with hold | hstop
    · exact (step_stopped (h.stopped c hold) hstep).1
    · exact hstop
  awake := by
    intro c i hi j
    rcases step_joining hstep ⟨i, hi⟩ with ⟨k, hk⟩ | hawake
    · exact step_asleep hstep (h.stopped c (by rw [hk]; rfl)) (h.awake c k hk j)
    · exact hawake j

end Closing

/-! ## The steps that are left -/

theorem left_setClient_of_ne {c c' : ι} (h : c' ≠ c) (s : State n ι τ) (p : Client τ) :
    (s.setClient c' p).left c = s.left c := by
  rw [State.left, State.setClient_of_ne s (Ne.symm h)]
  rfl

theorem left_setClient (s : State n ι τ) (c : ι) (p : Client τ) :
    (s.setClient c p).left c + (s.clients c).left n = s.left c + p.left n := by
  simp only [State.left, State.setClient_self]
  simp only [State.setClient]
  omega

omit [DecidableEq ι] in
theorem left_setWorker (s : State n ι τ) (c : ι) (i : Fin n) (w : Worker τ) :
    (s.setWorker i w).left c + (s.workers i).left = s.left c + w.left := by
  have htotal := total_update_add Worker.left s.workers i w
  simp only [State.left, State.setWorker]
  omega

omit [DecidableEq ι] in
theorem left_finishSection (s : State n ι τ) (c : ι) (i : Fin n) (task : τ) :
    (finishSection s i task).left c + (s.workers i).left = s.left c + 1 := by
  have htotal := total_update_add Worker.left s.workers i .top
  have hclient : ((finishSection s i task).clients c).left n = (s.clients c).left n := by
    simp only [finishSection, State.setWorker]
    split_ifs
    · exact Client.left_notify _
    · rfl
  simp only [State.left, hclient]
  simp only [finishSection, State.setWorker, Worker.left] at htotal ⊢
  omega

/-- A step of a client, which is an own one only when it brings client `c` nearer to its
return. -/
theorem spend_client {c c' : ι} {u : State n ι τ} (hu : u.left c = s.left c)
    (hclients : u.clients = s.clients) {p : Client τ} {wake : Option (Fin n)}
    (hp : c' = c → p.left n + 1 ≤ (s.clients c).left n) :
    (u.setClient c' p).left c + (ownStep (n := n) (τ := τ) c (.client c' wake)).toNat ≤
      s.left c := by
  by_cases heq : c' = c
  · subst heq
    have hleft := left_setClient u c' p
    have hspend := hp rfl
    rw [hclients] at hleft
    rw [ownStep, decide_eq_true rfl, Bool.toNat_true]
    omega
  · rw [left_setClient_of_ne heq, hu, ownStep, decide_eq_false heq]
    exact le_rfl

/-- A step of a worker, which comes nearer to its return. -/
theorem spend_worker {c : ι} {u : State n ι τ} {i : Fin n} {w : Worker τ} {throws : Bool}
    (hworkers : u.workers = s.workers)
    (hu : u.left c + w.left + 1 ≤ s.left c + (s.workers i).left) :
    (u.setWorker i w).left c + (ownStep (τ := τ) c (.worker i throws)).toNat ≤ s.left c := by
  have hleft := left_setWorker u c i w
  rw [hworkers] at hleft
  simp only [ownStep, Bool.toNat_true]
  omega

theorem spend {c : ι} (h : Closing s) (hc : ¬ Returned c s) {l : Action n ι τ}
    (hstep : s.step l = some t) : t.left c + (ownStep c l).toNat ≤ s.left c := by
  have hstop : s.pool.stop ≠ false := by
    rw [h.stopped c (by simpa [Returned] using hc)]
    exact Bool.true_eq_false_eq_False.elim
  have hother : ∀ {c' : ι} {p : Client τ}, (s.clients c').closing = false →
      c' = c → p.left n + 1 ≤ (s.clients c).left n :=
    fun hopen heq => absurd (heq ▸ hopen) hc
  cases step_moves hstep with
  | accept _ hfalse | stop _ hfalse | stopNow _ hfalse | sleep _ hfalse =>
      exact absurd hfalse hstop
  | @call c' op hfree =>
      have hopen : (s.clients c').closing = false := by
        cases hp : s.clients c' <;> first | rfl | (rw [hp] at hfree; cases hfree)
      have hne : c' ≠ c := fun heq => hc (heq ▸ hopen)
      rw [left_setClient_of_ne hne]
      exact le_rfl
  | throw hold => exact spend_client rfl rfl (hother (by rw [hold]; rfl))
  | stopped hold => exact spend_client rfl rfl (hother (by rw [hold]; rfl))
  | notifyNobody hold => exact spend_client rfl rfl (hother (by rw [hold]; rfl))
  | @notifyAsleep c' i hold hw =>
      have hleft := left_setWorker s c i (.waiting true)
      rw [hw] at hleft
      exact spend_client (Nat.add_right_cancel hleft) rfl (hother (by rw [hold]; rfl))
  | notifyAll hold =>
      have hleft : State.left c { s with workers := fun i => (s.workers i).notify } =
          s.left c := by simp only [State.left, total_map_of_eq Worker.left_notify]
      refine spend_client hleft rfl fun heq => ?_
      rw [← heq, hold]
      exact le_rfl
  | join hold hw =>
      refine spend_client rfl rfl fun heq => ?_
      have hi := h.bounded _ _ hold
      rw [← heq, hold]
      simp only [Client.left]
      omega
  | joined hold hi =>
      refine spend_client rfl rfl fun heq => ?_
      have hi' := h.bounded _ _ hold
      rw [← heq, hold]
      simp only [Client.left]
      omega
  | test hold =>
      exact spend_client rfl rfl (hother (by rcases hold with hold | hold <;> rw [hold] <;> rfl))
  | @timeout c' notified hold =>
      have hne : c' ≠ c := fun heq => hc (heq ▸ by rw [Returned, hold]; rfl)
      rw [left_setClient_of_ne hne]
      exact le_rfl
  | exit hw =>
      refine spend_worker rfl ?_
      rw [Worker.left_of_testing hw]
      exact le_rfl
  | take hw htasks =>
      refine spend_worker rfl ?_
      rw [Worker.left_of_testing hw]
      simp only [State.left, htasks, List.length_cons, Worker.left]
      omega
  | execute hw =>
      refine spend_worker rfl ?_
      rw [hw]
      exact le_rfl
  | @finish i throws task hw =>
      have hleft := left_finishSection s c i task
      rw [hw] at hleft
      simp only [ownStep, Bool.toNat_true, Worker.left] at hleft ⊢
      omega
  | @wakeWorker i hw =>
      have hleft := left_setWorker s c i (.waiting true)
      rw [hw] at hleft
      exact (Nat.add_right_cancel hleft).le
  | @wakeClient c' =>
      have hleft : (s.setClient c' (s.clients c').notify).left c = s.left c := by
        by_cases heq : c' = c
        · have hsame := left_setClient s c (s.clients c).notify
          rw [Client.left_notify] at hsame
          subst heq
          exact Nat.add_right_cancel hsame
        · exact left_setClient_of_ne heq s _
      exact hleft.le

/-- A worker that neither sleeps nor has returned goes on. -/
theorem worker_enabled {i : Fin n} (hexited : s.workers i ≠ .exited)
    (hawake : (s.workers i).asleep = false) : ∃ t, s.step (.worker i false) = some t := by
  simp only [State.step, workerStep]
  cases hw : s.workers i with
  | exited => exact absurd hw hexited
  | waiting notified =>
      cases notified with
      | false =>
          rw [hw] at hawake
          cases hawake
      | true => exact ⟨_, rfl⟩
  | _ => exact ⟨_, rfl⟩

theorem enabled {c : ι} (h : Closing s) (hc : ¬ Returned c s) :
    ∃ l t, ownStep c l = true ∧ s.step l = some t := by
  have hclient : ∀ {t : State n ι τ}, clientStep s c none = some t →
      ∃ l t, ownStep c l = true ∧ s.step l = some t :=
    fun hstep => ⟨.client c none, _, decide_eq_true rfl, hstep⟩
  cases hp : s.clients c with
  | notifyAll =>
      apply hclient
      simp only [clientStep, hp]
      rfl
  | join i =>
      by_cases hi : i < n
      · by_cases hexited : s.workers ⟨i, hi⟩ = .exited
        · apply hclient
          simp only [clientStep, hp, dif_pos hi, hexited, Worker.hasExited, if_true]
          rfl
        · obtain ⟨t, ht⟩ := worker_enabled hexited (h.awake c i hp _)
          exact ⟨.worker ⟨i, hi⟩ false, t, rfl, ht⟩
      · apply hclient
        simp only [clientStep, hp, dif_neg hi]
        rfl
  | _ => exact absurd (by rw [Returned, hp]; rfl) hc

theorem progress (c : ι) : Transition.Progress (threadPool n) (ownStep c) (Returned c)
    (fun s : State n ι τ => Books s ∧ Closing s) (State.left c) where
  keep := fun _ _ _ h _ hstep => ⟨h.1.step hstep, h.2.step hstep⟩
  spend := fun _ _ _ h hc hstep => spend h.2 hc hstep
  enabled := fun _ h hc => enabled h.2 hc

theorem inductive_closing : Transition.Inductive (threadPool n)
    (fun s : State n ι τ => Books s ∧ Closing s) where
  init := by
    rintro s rfl
    exact ⟨Books.start, Closing.start⟩
  step := fun _ _ _ h hstep => ⟨h.1.step hstep, h.2.step hstep⟩

/-- The step with which the call returns has joined all workers. -/
theorem step_returned {l : Action n ι τ} (hstep : s.step l = some t) {c : ι}
    (hc : ¬ Returned c s) (ht : Returned c t) :
    ∃ i, s.clients c = .join i ∧ n ≤ i ∧ t = s.setClient c .idle := by
  have hset := @of_setClient n ι τ s _ fun p => p.closing = false
  have hnot : ∀ {u : State n ι τ} {c' : ι} {p : Client τ}, u.clients = s.clients →
      (p.closing = false → (s.clients c').closing = false) →
        ¬ ((u.setClient c' p).clients c).closing = false :=
    fun hu hp h => hc (hset hu hp h)
  cases step_moves hstep with
  | @joined c' _ i hold hi =>
      by_cases heq : c = c'
      · subst heq
        exact ⟨i, hold, hi, rfl⟩
      · rw [Returned, State.setClient_of_ne s heq] at ht
        exact absurd ht hc
  | sleep | exit | take | execute | wakeWorker => exact absurd ht hc
  | @call c' op hfree =>
      refine absurd ht (hnot rfl fun _ => ?_)
      cases hp : s.clients c' <;> first | rfl | (rw [hp] at hfree; cases hfree)
  | accept hold | throw hold | stop hold | stopNow hold | stopped hold | notifyNobody hold =>
      exact absurd ht (hnot rfl fun _ => by rw [hold]; rfl)
  | timeout hold | notifyAsleep hold => exact absurd ht (hnot rfl fun _ => by rw [hold]; rfl)
  | notifyAll | join => exact absurd ht (hnot rfl nofun)
  | test hold =>
      rw [waitTest] at ht
      exact absurd ht (hnot rfl fun _ => by rcases hold with hold | hold <;> rw [hold] <;> rfl)
  | wakeClient => exact absurd ht (hnot rfl (by rw [Client.closing_notify]; exact id))
  | finish hw =>
      exact absurd (of_finishSection (fun p => p.closing = false)
        (fun p hp => by rwa [Client.closing_notify] at hp) ht) hc

/-- A call of `shutdown` or `shutdown_now` that has set `stop` returns, whatever the other
clients do, and then every worker has returned, nothing is queued, and everything that was
accepted has been completed or discarded. -/
theorem shutdown_finishes (hn : 0 < n) (hs : Transition.Reachable (threadPool n) s) (c : ι) :
    Transition.Finishes (threadPool n) (ownStep c) (Returned c) s ∧
      ∀ ls t l u, Transition.Run ((threadPool n).before (Returned c)) s ls t →
        ¬ Returned c t → t.step l = some u → Returned c u →
          (∀ i, u.workers i = .exited) ∧ u.pool.tasks = [] ∧
            u.accepted.Perm (u.completed ++ u.discarded) := by
  have hinv := inductive_closing.reachable hs
  refine ⟨(progress c).finishes hinv, fun ls t l u hrun ht hstep hu => ?_⟩
  obtain ⟨⟨hbooks, hclosing⟩, -⟩ := (progress c).run hrun hinv
  obtain ⟨i, hi, hni, rfl⟩ := step_returned hstep ht hu
  have hexited : ∀ j, t.workers j = .exited :=
    fun j => hclosing.joined c i hi j (j.isLt.trans_le hni)
  have htasks := (hbooks.exited _ (hexited ⟨0, hn⟩)).2
  have hheld : total Worker.held t.workers = 0 :=
    total_eq_zero fun i => by rw [hexited i]; rfl
  have hactive := hbooks.activeThreads
  rw [hheld, Multiset.card_zero] at hactive
  exact ⟨hexited, htasks, hbooks.perm_of_done (done_iff.mpr ⟨htasks, hactive⟩)⟩

/-- `shutdown` finds a queued task and a sleeping worker. -/
theorem shutdown_finishes_one : ∃ s : State 1 Unit ℕ,
    Transition.exec State.step (State.start 1)
      [.worker 0 false, .call () (.enqueue 7), .client () none, .client () (some 0),
        .call () (.shutdown false), .client () none] = some s ∧
      (s.clients ()).closing = true ∧
        Transition.Finishes (threadPool 1) (ownStep ()) (Returned ()) s := by
  refine ⟨_, rfl, rfl, ?_⟩
  exact (shutdown_finishes (by decide) (Transition.reachable_ofFun_iff.mpr
    ⟨[.worker 0 false, .call () (.enqueue 7), .client () none, .client () (some 0),
      .call () (.shutdown false), .client () none], rfl⟩) ()).1

end

end CppThreadPool

end ProcessThreadPool
