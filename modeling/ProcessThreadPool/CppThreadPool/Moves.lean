import ProcessThreadPool.CppThreadPool.Pool

/-!
# The steps of the C++ thread pool one by one

`State.Moves` lists the steps, what each needs and what it leaves. An invariant is proved by
going through the list once.
-/

namespace ProcessThreadPool

namespace CppThreadPool

section

variable {n : ℕ} {ι τ : Type*}

theorem Worker.eq_waiting_of_asleep {τ : Type*} {w : Worker τ} (h : w.asleep = true) :
    w = .waiting false := by
  cases w with
  | waiting notified =>
      cases notified
      · rfl
      · cases h
  | _ => cases h

theorem Worker.eq_exited_of_hasExited {τ : Type*} {w : Worker τ} (h : w.hasExited = true) :
    w = .exited := by
  cases w <;> first | rfl | cases h

@[simp] theorem State.setWorker_self (s : State n ι τ) (i : Fin n) (w : Worker τ) :
    (s.setWorker i w).workers i = w := Function.update_self _ _ _

theorem State.setWorker_of_ne (s : State n ι τ) {i j : Fin n} (h : j ≠ i) (w : Worker τ) :
    (s.setWorker i w).workers j = s.workers j := Function.update_of_ne h _ _

variable [DecidableEq ι]

@[simp] theorem State.setClient_self (s : State n ι τ) (c : ι) (p : Client τ) :
    (s.setClient c p).clients c = p := Function.update_self _ _ _

theorem State.setClient_of_ne (s : State n ι τ) {c c' : ι} (h : c' ≠ c) (p : Client τ) :
    (s.setClient c p).clients c' = s.clients c' := Function.update_of_ne h _ _

/-- The worker is in front of its first critical section. -/
def Worker.testing : Worker τ → Bool
  | .top | .waiting true => true
  | _ => false

/-- The steps one by one: what each needs and what it leaves. -/
inductive State.Moves (s : State n ι τ) : Action n ι τ → State n ι τ → Prop
  | call {c : ι} {op : Op τ} (hfree : (s.clients c).free = true) :
      Moves s (.call c op) (s.setClient c op.enter)
  | accept {c : ι} {wake : Option (Fin n)} {task : τ} (hc : s.clients c = .enqueue task)
      (hstop : s.pool.stop = false) : Moves s (.client c wake) (State.setClient { s with
        pool := { s.pool with tasks := s.pool.tasks ++ [task] }
        accepted := s.accepted ++ [task] } c .notifyOne)
  | throw {c : ι} {wake : Option (Fin n)} {task : τ} (hc : s.clients c = .enqueue task)
      (hstop : s.pool.stop = true) : Moves s (.client c wake) (s.setClient c .threw)
  | notifyAsleep {c : ι} {i : Fin n} (hc : s.clients c = .notifyOne)
      (hw : s.workers i = .waiting false) :
      Moves s (.client c (some i)) ((s.setWorker i (.waiting true)).setClient c .idle)
  | notifyNobody {c : ι} (hc : s.clients c = .notifyOne)
      (hnone : ∀ i, (s.workers i).asleep = false) : Moves s (.client c none) (s.setClient c .idle)
  | stop {c : ι} {wake : Option (Fin n)} (hc : s.clients c = .shutdown false)
      (hstop : s.pool.stop = false) : Moves s (.client c wake) (State.setClient { s with
        pool := { s.pool with stop := true } } c .notifyAll)
  | stopNow {c : ι} {wake : Option (Fin n)} (hc : s.clients c = .shutdown true)
      (hstop : s.pool.stop = false) : Moves s (.client c wake) (State.setClient { s with
        pool := { s.pool with stop := true, tasks := [] }
        discarded := s.discarded ++ s.pool.tasks } c .notifyAll)
  | stopped {c : ι} {wake : Option (Fin n)} {now : Bool} (hc : s.clients c = .shutdown now)
      (hstop : s.pool.stop = true) : Moves s (.client c wake) (s.setClient c .idle)
  | notifyAll {c : ι} {wake : Option (Fin n)} (hc : s.clients c = .notifyAll) :
      Moves s (.client c wake)
        (State.setClient { s with workers := fun i => (s.workers i).notify } c (.join 0))
  | join {c : ι} {wake : Option (Fin n)} {i : Fin n} (hc : s.clients c = .join i)
      (hw : s.workers i = .exited) : Moves s (.client c wake) (s.setClient c (.join (i + 1)))
  | joined {c : ι} {wake : Option (Fin n)} {i : ℕ} (hc : s.clients c = .join i) (hi : n ≤ i) :
      Moves s (.client c wake) (s.setClient c .idle)
  | test {c : ι} {wake : Option (Fin n)} {timed : Bool}
      (hc : s.clients c = .wait timed ∨ s.clients c = .blocked timed true) :
      Moves s (.client c wake) (waitTest s c timed)
  | timeout {c : ι} {notified : Bool} (hc : s.clients c = .blocked true notified) :
      Moves s (.timeout c) (s.setClient c (.waited s.pool.done))
  | sleep {i : Fin n} {throws : Bool} (hw : (s.workers i).testing = true)
      (hstop : s.pool.stop = false) (htasks : s.pool.tasks = []) :
      Moves s (.worker i throws) (s.setWorker i (.waiting false))
  | exit {i : Fin n} {throws : Bool} (hw : (s.workers i).testing = true)
      (hstop : s.pool.stop = true) (htasks : s.pool.tasks = []) :
      Moves s (.worker i throws) (s.setWorker i .exited)
  | take {i : Fin n} {throws : Bool} {task : τ} {rest : List τ}
      (hw : (s.workers i).testing = true) (htasks : s.pool.tasks = task :: rest) :
      Moves s (.worker i throws) (State.setWorker { s with
        pool := { s.pool with
          tasks := rest
          activeThreads := s.pool.activeThreads + 1 }
        taken := s.taken ++ [task] } i (.running task))
  | execute {i : Fin n} {throws : Bool} {task : τ} (hw : s.workers i = .running task) :
      Moves s (.worker i throws)
        (State.setWorker { s with executed := s.executed ++ [task] } i (.finishing task))
  | finish {i : Fin n} {throws : Bool} {task : τ} (hw : s.workers i = .finishing task) :
      Moves s (.worker i throws) (finishSection s i task)
  | wakeWorker {i : Fin n} (hw : s.workers i = .waiting false) :
      Moves s (.spuriousWorker i) (s.setWorker i (.waiting true))
  | wakeClient {c : ι} : Moves s (.spuriousClient c) (s.setClient c (s.clients c).notify)

variable {s t : State n ι τ}

theorem workerSection_moves {i : Fin n} {throws : Bool} (hw : (s.workers i).testing = true) :
    s.Moves (.worker i throws) (workerSection s i) := by
  rw [workerSection]
  cases htasks : s.pool.tasks with
  | nil =>
      cases hstop : s.pool.stop with
      | false => exact .sleep hw hstop htasks
      | true => exact .exit hw hstop htasks
  | cons task rest =>
      simp only [List.isEmpty_cons, Bool.not_false, Bool.or_true, Bool.true_eq_false,
        Bool.and_false, Bool.false_eq_true, if_false]
      exact .take hw htasks

theorem workerStep_moves {i : Fin n} {throws : Bool} (hstep : workerStep s i = some t) :
    s.Moves (.worker i throws) t := by
  cases hw : s.workers i with
  | top =>
      simp only [workerStep, hw, Option.some.injEq] at hstep
      subst hstep
      exact workerSection_moves (by rw [hw]; rfl)
  | waiting notified =>
      cases notified <;> simp only [workerStep, hw, Option.some.injEq, reduceCtorEq] at hstep
      subst hstep
      exact workerSection_moves (by rw [hw]; rfl)
  | running task =>
      simp only [workerStep, hw, Option.some.injEq] at hstep
      subst hstep
      exact .execute hw
  | finishing task =>
      simp only [workerStep, hw, Option.some.injEq] at hstep
      subst hstep
      exact .finish hw
  | exited => simp [workerStep, hw] at hstep

theorem shutdownStep_moves {c : ι} {wake : Option (Fin n)} {now : Bool}
    (hc : s.clients c = .shutdown now) (hstep : clientStep s c wake = some t) :
    s.Moves (.client c wake) t := by
  simp only [clientStep, hc, shutdownSection] at hstep
  split_ifs at hstep with hstop hnow <;> obtain rfl := Option.some.inj hstep
  · exact .stopped hc hstop
  · exact .stopNow (by rw [hc, hnow]) (Bool.eq_false_of_not_eq_true hstop)
  · exact .stop (by rw [hc, Bool.eq_false_of_not_eq_true hnow])
      (Bool.eq_false_of_not_eq_true hstop)

theorem notifyStep_moves {c : ι} {wake : Option (Fin n)} (hc : s.clients c = .notifyOne)
    (hstep : clientStep s c wake = some t) : s.Moves (.client c wake) t := by
  simp only [clientStep, hc, Option.map_eq_some_iff] at hstep
  obtain ⟨u, hu, rfl⟩ := hstep
  cases wake with
  | some i =>
      simp only [notifyOne] at hu
      split_ifs at hu with hasleep
      obtain rfl := Option.some.inj hu
      exact .notifyAsleep hc (Worker.eq_waiting_of_asleep hasleep)
  | none =>
      simp only [notifyOne] at hu
      split_ifs at hu with hnone
      obtain rfl := Option.some.inj hu
      exact .notifyNobody hc hnone

theorem clientStep_moves {c : ι} {wake : Option (Fin n)}
    (hstep : clientStep s c wake = some t) : s.Moves (.client c wake) t := by
  cases hc : s.clients c with
  | enqueue task =>
      simp only [clientStep, hc, enqueueSection] at hstep
      cases hstop : s.pool.stop with
      | true =>
          rw [hstop] at hstep
          obtain rfl := Option.some.inj hstep
          exact .throw hc hstop
      | false =>
          rw [hstop] at hstep
          obtain rfl := Option.some.inj hstep
          have haccept : s.Moves (.client c wake) _ := .accept hc hstop
          simpa [hstop] using haccept
  | notifyOne => exact notifyStep_moves hc hstep
  | shutdown now => exact shutdownStep_moves hc hstep
  | notifyAll =>
      simp only [clientStep, hc, Option.some.injEq] at hstep
      subst hstep
      exact .notifyAll hc
  | join i =>
      simp only [clientStep, hc] at hstep
      split_ifs at hstep with hi hexited <;> obtain rfl := Option.some.inj hstep
      · exact .join (i := ⟨i, hi⟩) hc (Worker.eq_exited_of_hasExited hexited)
      · exact .joined hc (Nat.le_of_not_lt hi)
  | wait timed =>
      simp only [clientStep, hc, Option.some.injEq] at hstep
      subst hstep
      exact .test (Or.inl hc)
  | blocked timed notified =>
      simp only [clientStep, hc] at hstep
      split_ifs at hstep with hnotified
      obtain rfl := Option.some.inj hstep
      exact .test (Or.inr (by rw [hc, hnotified]))
  | _ => simp [clientStep, hc] at hstep

theorem step_moves {l : Action n ι τ} (hstep : s.step l = some t) : s.Moves l t := by
  cases l with
  | call c op =>
      simp only [State.step] at hstep
      split_ifs at hstep with hfree
      obtain rfl := Option.some.inj hstep
      exact .call hfree
  | client c wake => exact clientStep_moves hstep
  | timeout c =>
      cases hc : s.clients c with
      | blocked timed notified =>
          cases timed <;> simp only [State.step, hc, Option.some.injEq, reduceCtorEq] at hstep
          subst hstep
          exact .timeout hc
      | _ => simp [State.step, hc] at hstep
  | worker i throws => exact workerStep_moves hstep
  | spuriousWorker i =>
      simp only [State.step] at hstep
      split_ifs at hstep with hasleep
      obtain rfl := Option.some.inj hstep
      exact .wakeWorker (Worker.eq_waiting_of_asleep hasleep)
  | spuriousClient c =>
      simp only [State.step, Option.some.injEq] at hstep
      subst hstep
      exact .wakeClient

end

end CppThreadPool

end ProcessThreadPool
