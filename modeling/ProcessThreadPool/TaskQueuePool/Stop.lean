import ProcessThreadPool.TaskQueuePool.ThreadPool
import ProcessThreadPool.Lib.Progress

/-!
# `ThreadPool::stop` returns

Once `wakeup` has stored the flag, no thread of the pool comes to a block any more, and each
of its steps brings it nearer to its exit. So `stop` returns when its `notify_all` finds no
thread between its test and its block. A thread that misses the notification sleeps in `pop`
unless it wakes up spuriously, and is never joined.
-/

namespace ProcessThreadPool

namespace TaskQueuePool

open ThreadFamily

/-! ## The holder of the mutex -/

section

variable {m n : ℕ} {τ : Type*} {s t : State m n τ}

/-- The mutex is held by a thread that is inside. -/
def HeldInside (s : State m n τ) : Prop := ∀ x, s.mutex = some x → s.inside x = true

theorem HeldInside.start (capacity : ℕ) : HeldInside (State.start capacity : State m n τ) := by
  intro x hx
  cases hx

/-- A thread goes on where it is, inside or outside. -/
theorem HeldInside.setProducer (h : HeldInside s) {p : Fin m} {a : Producer τ}
    (ha : a.holds = (s.producers p).holds) : HeldInside (s.setProducer p a) := by
  intro x hx
  have hinside : s.inside (.inl p) = (s.producers p).holds := rfl
  rw [inside_setProducer, ha, ← hinside, Function.update_eq_self]
  exact h x hx

theorem HeldInside.setConsumer (h : HeldInside s) {c : Fin n} {a : Consumer τ}
    (ha : a.holds = (s.consumers c).holds) : HeldInside (s.setConsumer c a) := by
  intro x hx
  have hinside : s.inside (.inr c) = (s.consumers c).holds := rfl
  rw [inside_setConsumer, ha, ← hinside, Function.update_eq_self]
  exact h x hx

theorem HeldInside.step (h : HeldInside s) {l : Action m n τ} (hstep : s.step l = some t) :
    HeldInside t := by
  cases l with
  | push p task =>
      obtain ⟨hp, rfl⟩ := push_cases hstep
      exact h.setProducer (by rw [hp]; rfl)
  | producer p wake =>
      rcases producerStep_cases hstep with ⟨task, -, -, rfl⟩ | ⟨task, -, -, rfl⟩ |
        ⟨task, consumers, -, -, -, rfl⟩
      · intro x hx
        obtain rfl := Option.some.inj hx
        rw [inside_setProducer, Function.update_self]
        rfl
      · intro x hx
        cases hx
      · intro x hx
        cases hx
  | pop c =>
      obtain ⟨hc, rfl⟩ := pop_cases hstep
      refine h.setConsumer ?_
      rcases hc with hc | ⟨task, hc⟩ <;> rw [hc] <;> rfl
  | consumer c wake =>
      rcases consumerStep_cases hstep with ⟨-, -, rfl⟩ | ⟨hc, ⟨-, -, rfl⟩ | ⟨-, rfl⟩⟩ |
        ⟨-, rfl⟩ | ⟨-, ⟨task, rest, producers, -, -, -, rfl⟩ | ⟨-, rfl⟩⟩
      · intro x hx
        obtain rfl := Option.some.inj hx
        rw [inside_setConsumer, Function.update_self]
        rfl
      · exact h.setConsumer (by rw [hc]; rfl)
      · exact h.setConsumer (by rw [hc]; rfl)
      · intro x hx
        cases hx
      · intro x hx
        cases hx
      · intro x hx
        cases hx
  | spuriousProducer p =>
      obtain rfl := Option.some.inj hstep
      exact h.setProducer (Producer.holds_notify _)
  | spuriousConsumer c =>
      obtain rfl := Option.some.inj hstep
      exact h.setConsumer (Consumer.holds_notify _)
  | wakeup =>
      rcases wakeupStep_cases hstep with ⟨-, rfl⟩ | ⟨-, rfl⟩
      · exact h
      · intro x hx
        have hkept : State.inside { s with
            consumers := (consumerWaiter τ).notifyAll s.consumers } = s.inside :=
          inside_of_consumers fun c => Consumer.holds_notify (s.consumers c)
        exact (congrFun hkept x).trans (h x hx)

/-- The next step of a call, other than a spurious wakeup. -/
def Action.moves : Action m n τ → Bool
  | .producer _ _ | .consumer _ _ => true
  | _ => false

theorem Action.inner_of_moves {l : Action m n τ} (h : l.moves = true) : l.inner = true := by
  cases l with
  | producer | consumer => rfl
  | _ => cases h

/-- Whoever is inside goes on. -/
theorem inside_enabled (h : Guarded s) {x : Fin m ⊕ Fin n} (hx : s.inside x = true) :
    ∃ l t, Action.moves l = true ∧ s.step l = some t := by
  rcases x with p | c
  · change (s.producers p).holds = true at hx
    cases hp : s.producers p with
    | testing task =>
        cases hfull : s.queue.full with
        | true =>
            refine ⟨.producer p none,
              State.setProducer { s with mutex := none } p (.asleep task), rfl, ?_⟩
            simp only [State.step, producerStep, hp, hfull, if_true]
        | false =>
            obtain ⟨wake, consumers, hwake⟩ := (consumerWaiter τ).exists_notifyOne s.consumers
            refine ⟨.producer p wake, State.setProducer { s with
              queue := { s.queue with que := s.queue.que ++ [task] }
              mutex := none
              consumers := consumers
              pushed := s.pushed ++ [task] } p .outside, rfl, ?_⟩
            simp only [State.step, producerStep, hp, hfull, Bool.false_eq_true, if_false, hwake,
              Option.map_some]
    | _ =>
        rw [hp] at hx
        cases hx
  · change (s.consumers c).holds = true at hx
    have hstep : (∃ t, consumerStep s c none = some t) →
        ∃ l t, Action.moves l = true ∧ s.step l = some t := by
      rintro ⟨t, ht⟩
      exact ⟨.consumer c none, t, rfl, ht⟩
    cases hc : s.consumers c with
    | testing =>
        refine hstep ?_
        simp only [consumerStep, hc]
        split_ifs
        · exact ⟨_, rfl⟩
        · exact ⟨_, rfl⟩
    | blocking =>
        refine hstep ?_
        simp only [consumerStep, hc]
        exact ⟨_, rfl⟩
    | deciding =>
        have hknows := h.knows c
        rw [hc] at hknows
        cases hflag : s.queue.flag with
        | false =>
            refine hstep ?_
            simp only [consumerStep, hc, hflag, Bool.false_eq_true, if_false]
            exact ⟨_, rfl⟩
        | true =>
            -- The thread has seen a task in the queue.
            have hne := hknows.resolve_right (by rw [hflag]; simp)
            obtain ⟨task, rest, hque⟩ := List.exists_cons_of_ne_nil hne
            obtain ⟨wake, producers, hwake⟩ := (producerWaiter τ).exists_notifyOne s.producers
            refine ⟨.consumer c wake, State.setConsumer { s with
              queue := { s.queue with que := rest }
              mutex := none
              producers := producers
              popped := s.popped ++ [task] } c (.returned (some task)), rfl, ?_⟩
            simp only [State.step, consumerStep, hc, hflag, if_true, hque, hwake,
              Option.map_some]
    | _ =>
        rw [hc] at hx
        cases hx

/-- A consumer that does not sleep, or the thread that has the mutex, goes on. -/
theorem calling_enabled (hheld : HeldInside s) (hguarded : Guarded s) {c : Fin n}
    (hcalling : (s.consumers c).calling = true) (hawake : s.consumers c ≠ .asleep) :
    ∃ l t, Action.moves l = true ∧ s.step l = some t := by
  cases hmutex : s.mutex with
  | some x => exact inside_enabled hguarded (hheld x hmutex)
  | none =>
      have hinside : (s.consumers c).holds = true →
          ∃ l t, Action.moves l = true ∧ s.step l = some t :=
        fun hc => inside_enabled hguarded (x := .inr c) hc
      cases hc : s.consumers c with
      | entering | woken =>
          refine ⟨.consumer c none, State.setConsumer { s with mutex := some (.inr c) } c .testing,
            rfl, ?_⟩
          simp only [State.step, consumerStep, hc, hmutex, Option.isSome_none,
            Bool.false_eq_true, if_false]
      | testing | blocking | deciding => exact hinside (by rw [hc]; rfl)
      | asleep => exact absurd hc hawake
      | outside | returned =>
          rw [hc] at hcalling
          cases hcalling

/-- A producer that does not sleep, or the thread that has the mutex, goes on. -/
theorem pushing_enabled (hheld : HeldInside s) (hguarded : Guarded s) {p : Fin m}
    (hcalling : (s.producers p).calling = true) (hawake : ∀ task, s.producers p ≠ .asleep task) :
    ∃ l t, Action.moves l = true ∧ s.step l = some t := by
  cases hmutex : s.mutex with
  | some x => exact inside_enabled hguarded (hheld x hmutex)
  | none =>
      cases hp : s.producers p with
      | entering task | woken task =>
          refine ⟨.producer p none, State.setProducer { s with mutex := some (.inl p) } p
            (.testing task), rfl, ?_⟩
          simp only [State.step, producerStep, hp, hmutex, Option.isSome_none,
            Bool.false_eq_true, if_false]
      | testing =>
          refine inside_enabled hguarded (x := .inl p) ?_
          change (s.producers p).holds = true
          rw [hp]
          rfl
      | asleep task => exact absurd hp (hawake task)
      | outside =>
          rw [hp] at hcalling
          cases hcalling

end

/-! ## The course of `stop` -/

section

variable {n capacity : ℕ} {τ : Type*} {edition : Edition} {tasks : List τ} {s t : Pool n τ}

/-- `stop` has set `m_isExit`. -/
def Controller.stopping : Controller τ → Bool
  | .waking | .joining _ | .stopped => true
  | _ => false

theorem Controller.created_of_stopping {c : Controller τ} (h : c.stopping = true) :
    c.created n = n := by
  cases c with
  | starting => cases h
  | _ => rfl

/-- What `stop` does from the moment it has set `m_isExit`. -/
inductive Stops (s : Pool n τ) : Pool n τ → Prop
  | before {t : Pool n τ} : s.controller.stopping = false →
      t.taskQue.waker = s.taskQue.waker →
      t.controller.stopping = false ∧ t.isExit = s.isExit ∨
        t.controller = .waking ∧ t.isExit = true → Stops s t
  | wakeup {q : State 1 n τ} : s.controller = .waking → wakeupStep s.taskQue = some q →
      Stops s { s with taskQue := q }
  | woken : s.controller = .waking → s.taskQue.waker = .done →
      Stops s { s with controller := .joining 0 }
  | join {k : ℕ} (h : k < n) : s.controller = .joining k → s.workers ⟨k, h⟩ = .exited →
      Stops s { s with controller := .joining (k + 1) }
  | joined {k : ℕ} : s.controller = .joining k → n ≤ k →
      Stops s { s with controller := .stopped }

theorem controllerStep_stops (hstep : controllerStep s = some t) : Stops s t := by
  unfold controllerStep at hstep
  split at hstep
  · next hcontroller =>
      split_ifs at hstep <;> obtain rfl := Option.some.inj hstep
      · exact .before (by rw [hcontroller]; rfl) rfl (Or.inl ⟨rfl, rfl⟩)
      · exact .before (by rw [hcontroller]; rfl) rfl (Or.inl ⟨rfl, rfl⟩)
  · next hcontroller =>
      obtain rfl := Option.some.inj hstep
      exact .before (by rw [hcontroller]; rfl) rfl (Or.inl ⟨rfl, rfl⟩)
  · next hcontroller =>
      obtain ⟨q, hq, rfl⟩ := Option.map_eq_some_iff.mp hstep
      exact .before (by rw [hcontroller]; rfl) ((step_frame hq).2 (by simp)) (Or.inl ⟨rfl, rfl⟩)
  · next hcontroller =>
      split at hstep
      · obtain rfl := Option.some.inj hstep
        exact .before (by rw [hcontroller]; rfl) rfl (Or.inl ⟨rfl, rfl⟩)
      · cases hstep
  · next hcontroller =>
      split_ifs at hstep <;> obtain rfl := Option.some.inj hstep
      · exact .before (by rw [hcontroller]; rfl) rfl (Or.inl ⟨rfl, rfl⟩)
      · exact .before (by rw [hcontroller]; rfl) rfl (Or.inl ⟨by rw [hcontroller]; rfl, rfl⟩)
  · next hcontroller =>
      obtain rfl := Option.some.inj hstep
      exact .before (by rw [hcontroller]; rfl) rfl (Or.inr ⟨rfl, rfl⟩)
  · next hcontroller =>
      split_ifs at hstep with hdone
      · obtain rfl := Option.some.inj hstep
        exact .woken hcontroller hdone
      · obtain ⟨q, hq, rfl⟩ := Option.map_eq_some_iff.mp hstep
        exact .wakeup hcontroller hq
  · next k hcontroller =>
      split_ifs at hstep with hk
      · split at hstep
        · next hexited =>
            obtain rfl := Option.some.inj hstep
            exact .join hk hcontroller hexited
        · cases hstep
      · obtain rfl := Option.some.inj hstep
        exact .joined hcontroller (Nat.le_of_not_lt hk)
  · cases hstep

/-- Before `stop` has set `m_isExit` nobody has called `wakeup`, and it joins the threads
behind its `notify_all`. A thread that was not created is still to be created, and one that is
in `getTask` has called `pop`. -/
structure Course (s : Pool n τ) : Prop where
  exit : s.controller.stopping = true → s.isExit = true
  waker : s.taskQue.waker ≠ .idle → s.controller.stopping = true
  notified : s.controller.stopping = true → s.controller = .waking ∨ s.taskQue.waker = .done
  born : ∀ i : Fin n, s.workers i = .unborn → s.controller.created n ≤ i
  popping : ∀ i, s.workers i = .popping → s.taskQue.consumers i ≠ .outside

/-- Nobody comes out of the queue but with an answer of `pop`. -/
theorem ne_outside_step {m : ℕ} {q r : State m n τ} {l : Action m n τ}
    (hstep : q.step l = some r) {c : Fin n} (hc : q.consumers c ≠ .outside) :
    r.consumers c ≠ .outside := by
  have hset : ∀ {s : State m n τ} {c' : Fin n} {a : Consumer τ}, s.consumers c ≠ .outside →
      a ≠ .outside → (s.setConsumer c' a).consumers c ≠ .outside := by
    intro s c' a hs ha
    simp only [State.setConsumer, Function.update_apply]
    split_ifs
    · exact ha
    · exact hs
  have hnotify : ∀ {a : Consumer τ}, a ≠ .outside → (consumerWaiter τ).notify a ≠ .outside := by
    intro a ha
    cases a with
    | outside => exact absurd rfl ha
    | _ => simp [consumerWaiter]
  cases l with
  | push p task =>
      obtain ⟨-, rfl⟩ := push_cases hstep
      exact hc
  | producer p wake =>
      rcases producerStep_cases hstep with ⟨task, -, -, rfl⟩ | ⟨task, -, -, rfl⟩ |
        ⟨task, consumers, -, -, hwake, rfl⟩
      · exact hc
      · exact hc
      · change consumers c ≠ .outside
        rcases Waiter.notifyOne_apply hwake c with heq | heq <;> rw [heq]
        · exact hc
        · exact hnotify hc
  | pop c' =>
      obtain ⟨-, rfl⟩ := pop_cases hstep
      exact hset hc (by simp)
  | consumer c' wake =>
      rcases consumerStep_cases hstep with ⟨-, -, rfl⟩ | ⟨-, ⟨-, -, rfl⟩ | ⟨-, rfl⟩⟩ |
        ⟨-, rfl⟩ | ⟨-, ⟨task, rest, producers, -, -, -, rfl⟩ | ⟨-, rfl⟩⟩ <;>
          exact hset hc (by simp)
  | spuriousProducer p =>
      obtain rfl := Option.some.inj hstep
      exact hc
  | spuriousConsumer c' =>
      obtain rfl := Option.some.inj hstep
      simp only [State.setConsumer, Function.update_apply]
      split_ifs with heq
      · rw [← heq]
        exact hnotify hc
      · exact hc
  | wakeup =>
      rcases wakeupStep_cases hstep with ⟨-, rfl⟩ | ⟨-, rfl⟩
      · exact hc
      · exact hnotify hc

namespace Course

theorem start (capacity : ℕ) : Course (Pool.start capacity tasks : Pool n τ) where
  exit := fun h => by cases h
  waker := fun h => absurd rfl h
  notified := fun h => by cases h
  born := fun _ _ => Nat.zero_le _
  popping := fun _ h => by cases h

/-- The queue and the threads move, the controller does not. -/
theorem setThreads (h : Course s) {q : State 1 n τ} {workers : Fin n → Worker τ}
    {executed : List τ} (hwaker : q.waker = s.taskQue.waker)
    (hborn : ∀ i, workers i = .unborn → s.workers i = .unborn)
    (hpopping : ∀ i, workers i = .popping → q.consumers i ≠ .outside) :
    Course { s with taskQue := q, workers := workers, executed := executed } where
  exit := h.exit
  waker := by
    rw [hwaker]
    exact h.waker
  notified := by
    rw [hwaker]
    exact h.notified
  born := fun i hi => h.born i (hborn i hi)
  popping := hpopping

theorem controller (h : Course s) (hstep : controllerStep s = some t) : Course t where
  exit := by
    intro ht
    cases controllerStep_stops hstep with
    | before hearly hwaker hexit =>
        rcases hexit with ⟨hnot, -⟩ | ⟨-, hset⟩
        · rw [ht] at hnot
          cases hnot
        · exact hset
    | wakeup hc | woken hc | join _ hc | joined hc => exact h.exit (by rw [hc]; rfl)
  waker := by
    intro ht
    cases controllerStep_stops hstep with
    | before hearly hwaker =>
        rw [hwaker] at ht
        rw [h.waker ht] at hearly
        cases hearly
    | wakeup hc =>
        change s.controller.stopping = true
        rw [hc]
        rfl
    | woken | join | joined => rfl
  notified := by
    intro ht
    cases controllerStep_stops hstep with
    | before hearly hwaker hexit =>
        rcases hexit with ⟨hnot, -⟩ | ⟨hwaking, -⟩
        · rw [ht] at hnot
          cases hnot
        · exact Or.inl hwaking
    | wakeup hc => exact Or.inl hc
    | woken hc hdone => exact Or.inr hdone
    | join _ hc | joined hc =>
        refine Or.inr ((h.notified (by rw [hc]; rfl)).resolve_left ?_)
        rw [hc]
        simp
  born := by
    intro i hi
    rcases controllerStep_cases hstep with ⟨c, isExit, hmoves, rfl⟩ |
      ⟨k, rest, hk, hcontroller, rfl⟩ | ⟨task, rest, q, hcontroller, hq, rfl⟩ | ⟨q, hq, rfl⟩
    · have hold := h.born i hi
      cases hmoves with
      | started hc hk =>
          rw [hc] at hold
          exact hk.trans hold
      | pushed hc | added hc | waited hc | drained hc | exited hc | woken hc | join _ hc
      | joined hc =>
          rw [hc] at hold
          exact hold
    · by_cases hik : i = ⟨k, hk⟩
      · rw [hik] at hi
        simp at hi
      · have hold := h.born i (by simpa [Function.update_of_ne hik] using hi)
        rw [hcontroller] at hold
        exact lt_of_le_of_ne hold fun heq => hik (Fin.ext heq.symm)
    · have hold := h.born i hi
      rw [hcontroller] at hold
      exact hold
    · exact h.born i hi
  popping := by
    intro i hi
    rcases controllerStep_cases hstep with ⟨c, isExit, hmoves, rfl⟩ |
      ⟨k, rest, hk, hcontroller, rfl⟩ | ⟨task, rest, q, hcontroller, hq, rfl⟩ | ⟨q, hq, rfl⟩
    · exact h.popping i hi
    · by_cases hik : i = ⟨k, hk⟩
      · rw [hik] at hi
        simp at hi
      · exact h.popping i (by simpa [Function.update_of_ne hik] using hi)
    · exact ne_outside_step hq (h.popping i hi)
    · exact ne_outside_step hq (h.popping i hi)

theorem step (h : Course s) {l : PoolAction n τ} (hstep : s.step edition l = some t) :
    Course t := by
  cases l with
  | controller => exact h.controller hstep
  | worker i =>
      rcases workerStep_cases hstep with ⟨w, done, hmoves, rfl⟩ | ⟨hw, q, hq, rfl⟩
      · have hw : w ≠ .unborn ∧ w ≠ .popping := by
          cases hmoves with
          | miss _ _ hw => rcases hw with rfl | rfl <;> simp
          | _ => simp
        refine h.setThreads rfl (fun j hj => ?_) fun j hj => ?_
        · simp only [Function.update_apply] at hj
          split_ifs at hj
          · exact absurd hj hw.1
          · exact hj
        · simp only [Function.update_apply] at hj
          split_ifs at hj
          · exact absurd hj hw.2
          · exact h.popping j hj
      · refine h.setThreads ((step_frame hq).2 (by simp)) (fun j hj => ?_) fun j hj => ?_
        · simp only [Function.update_apply] at hj
          split_ifs at hj
          exact hj
        · by_cases hji : j = i
          · obtain ⟨-, rfl⟩ := pop_cases hq
            simp [State.setConsumer, hji]
          · simp only [Function.update_of_ne hji] at hj
            exact ne_outside_step hq (h.popping j hj)
  | queue l =>
      obtain ⟨hl, q, hq, rfl⟩ := queueStep_cases hstep
      refine h.setThreads ((step_frame hq).2 ?_) (fun _ hj => hj) fun j hj =>
        ne_outside_step hq (h.popping j hj)
      rintro rfl
      cases hl

/-- When `start` is over all threads have been created. -/
theorem ne_unborn (h : Course s) (hcreated : s.controller.created n = n) (i : Fin n) :
    s.workers i ≠ .unborn := by
  intro hw
  have hborn := h.born i hw
  rw [hcreated] at hborn
  exact absurd i.isLt (Nat.not_lt.mpr hborn)

/-- The controller pushes nothing any more. -/
theorem producer_outside (h : Course s) (haccounted : Accounted tasks s)
    (hbegun : s.taskQue.waker ≠ .idle) (p : Fin 1) : s.taskQue.producers p = .outside := by
  obtain rfl : p = 0 := Subsingleton.elim p 0
  refine haccounted.pushing ?_
  have hstopping := h.waker hbegun
  cases hc : s.controller with
  | pushing =>
      rw [hc] at hstopping
      cases hstopping
  | _ => rfl

end Course

end

/-! ## The way to the end -/

section

variable {n capacity : ℕ} {τ : Type*} {edition : Edition} {tasks : List τ} {s t : Pool n τ}

/-- The `notify_all` of `stop` finds no thread between its test and its block. -/
def StopsInTime (s : Pool n τ) (l : PoolAction n τ) : Prop :=
  l = .controller → s.taskQue.waker = .stored → ∀ i, s.taskQue.consumers i ≠ .blocking

/-- The runs in which `stop` notifies in time. -/
def stoppingInTime {τ : Type*} (edition : Edition) (n capacity : ℕ) (tasks : List τ) :
    Transition.System (Pool n τ) (PoolAction n τ) :=
  (threadPool edition n capacity tasks).restrict StopsInTime

/-- The step of the controller or of a thread of the pool, other than a spurious wakeup. -/
def PoolAction.own : PoolAction n τ → Bool
  | .controller | .worker _ => true
  | .queue l => l.moves

/-- The steps that are left to a thread in `pop` when the flag is cleared. -/
def Consumer.left : Consumer τ → ℕ
  | .blocking => 5
  | .asleep => 4
  | .entering | .woken => 3
  | .testing => 2
  | .deciding => 1
  | .outside | .returned _ => 0

/-- The steps that are left to a thread in `doTask` when `m_isExit` is set. -/
def Worker.left : Worker τ → ℕ
  | .popping => 3
  | .running _ => 2
  | .looping => 1
  | .unborn | .exited => 0

/-- The steps that are left to a thread. -/
def threadLeft (a : Worker τ × Consumer τ) : ℕ := a.1.left + a.2.left

/-- The steps that are left to `stop` behind its `notify_all`. -/
def Controller.left (n : ℕ) : Controller τ → ℕ
  | .waking => n + 2
  | .joining k => n - k + 1
  | _ => 0

/-- The steps that are left to `wakeup` when the flag is cleared. -/
def Waker.left : Waker → ℕ
  | .stored => 1
  | .idle | .done => 0

/-- The steps that are left to all of them. -/
def Pool.left (s : Pool n τ) : ℕ :=
  total threadLeft s.threads + s.controller.left n + s.taskQue.waker.left

theorem Consumer.left_notify (a : Consumer τ) : ((consumerWaiter τ).notify a).left ≤ a.left := by
  cases a with
  | asleep => exact Nat.le_succ 3
  | _ => exact le_rfl

/-- What the steps of the queue keep is kept by those of the pool. -/
theorem taskQue_preserves {P : State 1 n τ → Prop}
    (hkeep : ∀ {q r : State 1 n τ} {a : Action 1 n τ}, P q → q.step a = some r → P r)
    (h : P s.taskQue) {l : PoolAction n τ} (hstep : s.step edition l = some t) :
    P t.taskQue := by
  rcases taskQue_step hstep with hsame | ⟨a, ha⟩
  · rw [hsame]
    exact h
  · exact hkeep h ha

/-- What holds in every state that is reached in time. -/
structure InTime (tasks : List τ) (s : Pool n τ) : Prop where
  accounted : Accounted tasks s
  guarded : Guarded s.taskQue
  held : HeldInside s.taskQue
  course : Course s
  released : Released s.taskQue

theorem InTime.start (capacity : ℕ) : InTime tasks (Pool.start capacity tasks : Pool n τ) where
  accounted := Accounted.start capacity
  guarded := Guarded.start capacity
  held := HeldInside.start capacity
  course := Course.start capacity
  released := fun h => by cases h

theorem InTime.step (h : InTime tasks s) {l : PoolAction n τ} (hl : StopsInTime s l)
    (hstep : s.step edition l = some t) : InTime tasks t where
  accounted := h.accounted.step hstep
  guarded := taskQue_preserves (fun hq ha => hq.step ha) h.guarded hstep
  held := taskQue_preserves (fun hq ha => hq.step ha) h.held hstep
  course := h.course.step hstep
  released := by
    cases l with
    | controller =>
        cases controllerStep_stops hstep with
        | before hearly hwaker =>
            intro hdone
            rw [hwaker] at hdone
            rw [h.course.waker (by rw [hdone]; simp)] at hearly
            cases hearly
        | wakeup hc hq =>
            exact h.released.step h.guarded (fun _ => hl rfl) (l := .wakeup) hq
        | woken | join | joined => exact h.released
    | worker i =>
        rcases workerStep_cases hstep with ⟨w, done, -, rfl⟩ | ⟨-, q, hq, rfl⟩
        · exact h.released
        · exact h.released.step h.guarded (fun heq => by cases heq) hq
    | queue a =>
        obtain ⟨ha, q, hq, rfl⟩ := queueStep_cases hstep
        refine h.released.step h.guarded (fun heq => ?_) hq
        rw [heq] at ha
        cases ha

/-- `wakeup` does not begin anew. -/
theorem begun_step {m : ℕ} {q r : State m n τ} {l : Action m n τ} (h : q.waker ≠ .idle)
    (hstep : q.step l = some r) : r.waker ≠ .idle := by
  by_cases hwakeup : l = .wakeup
  · subst hwakeup
    rcases wakeupStep_cases hstep with ⟨-, rfl⟩ | ⟨-, rfl⟩
    · simp
    · simp
  · rwa [(step_frame hstep).2 hwakeup]

theorem InTime.flag (h : InTime tasks s) (hbegun : s.taskQue.waker ≠ .idle) :
    s.taskQue.queue.flag = false := by
  rw [← Bool.not_eq_true, h.guarded.flag]
  exact hbegun

/-- One thread moves, in `doTask` or in `pop`. -/
theorem threads_update {q : State 1 n τ} {i : Fin n} {w : Worker τ} {c : Consumer τ} {e : List τ}
    (hconsumers : q.consumers = Function.update s.taskQue.consumers i c) :
    Pool.threads { s with
        taskQue := q, workers := Function.update s.workers i w, executed := e } =
      Function.update s.threads i (w, c) := by
  funext j
  by_cases hji : j = i
  · rw [hji]
    simp [Pool.threads, hconsumers]
  · simp [Pool.threads, hconsumers, hji]

theorem left_update {q : State 1 n τ} {i : Fin n} {w : Worker τ} {c : Consumer τ} {e : List τ}
    (hconsumers : q.consumers = Function.update s.taskQue.consumers i c)
    (hwaker : q.waker = s.taskQue.waker) :
    Pool.left { s with
        taskQue := q, workers := Function.update s.workers i w, executed := e } +
      threadLeft (s.workers i, s.taskQue.consumers i) = s.left + threadLeft (w, c) := by
  have htotal := total_update_add threadLeft s.threads i (w, c)
  rw [Pool.left, Pool.left, threads_update hconsumers, hwaker]
  simp only [Pool.threads] at htotal ⊢
  omega

/-- A thread that moves in `doTask` comes nearer to its exit. -/
theorem Worker.Moves.left_lt {i : Fin n} {w : Worker τ} {done : List τ}
    (h : Worker.Moves s i w done) : w.left + 1 ≤ (s.workers i).left := by
  cases h with
  | leave hw | run hw | take hw =>
      rw [hw]
      exact le_rfl
  | miss hw _ hnext =>
      rw [hw]
      rcases hnext with rfl | rfl
      · exact Nat.le_succ 2
      · exact Nat.le_add_left 1 2

/-- A thread that moves in `pop` comes nearer to its answer when the flag is cleared. -/
theorem consumerStep_left {q r : State 1 n τ} (hflag : q.queue.flag = false) {i : Fin n}
    {wake : Option (Fin 1)} (hstep : consumerStep q i wake = some r) :
    ∃ c, r.consumers = Function.update q.consumers i c ∧ r.waker = q.waker ∧
      c.left + 1 = (q.consumers i).left := by
  rcases consumerStep_cases hstep with ⟨hc, -, rfl⟩ | ⟨hc, ⟨-, hset, -⟩ | ⟨-, rfl⟩⟩ |
    ⟨hc, rfl⟩ | ⟨hc, ⟨-, -, -, hset, -⟩ | ⟨-, rfl⟩⟩
  · refine ⟨_, rfl, rfl, ?_⟩
    rcases hc with hc | hc <;> rw [hc] <;> rfl
  · rw [hflag] at hset
    cases hset
  · exact ⟨_, rfl, rfl, by rw [hc]; rfl⟩
  · exact ⟨_, rfl, rfl, by rw [hc]; rfl⟩
  · rw [hflag] at hset
    cases hset
  · exact ⟨_, rfl, rfl, by rw [hc]; rfl⟩

theorem left_setController (c : Controller τ) : Pool.left { s with controller := c } =
    total threadLeft s.threads + c.left n + s.taskQue.waker.left := rfl

namespace InTime

/-- A step of the controller brings the end nearer. -/
theorem controller_left (h : InTime tasks s) (hbegun : s.taskQue.waker ≠ .idle)
    (hstep : controllerStep s = some t) : t.left + 1 ≤ s.left := by
  cases controllerStep_stops hstep with
  | before hearly =>
      rw [h.course.waker hbegun] at hearly
      cases hearly
  | wakeup hc hq =>
      rcases wakeupStep_cases hq with ⟨hidle, -⟩ | ⟨hstored, rfl⟩
      · exact absurd hidle hbegun
      · have htotal : total threadLeft (fun i => (s.workers i,
            (consumerWaiter τ).notify (s.taskQue.consumers i))) ≤ total threadLeft s.threads :=
          Finset.sum_le_sum fun i _ => Nat.add_le_add_left (Consumer.left_notify _) _
        rw [Pool.left, Pool.left, hstored]
        exact Nat.add_le_add_right (Nat.add_le_add_right htotal _) 1
  | woken hc =>
      rw [left_setController, Pool.left, hc, Controller.left, Controller.left]
      omega
  | join hk hc =>
      rw [left_setController, Pool.left, hc, Controller.left, Controller.left]
      omega
  | joined hc =>
      rw [left_setController, Pool.left, hc, Controller.left, Controller.left]
      · omega
      all_goals simp

/-- A step of a thread in `doTask` brings the end nearer: `m_isExit` is set. -/
theorem worker_left (h : InTime tasks s) (hbegun : s.taskQue.waker ≠ .idle) {i : Fin n}
    (hstep : workerStep edition s i = some t) : t.left + 1 ≤ s.left := by
  have hmove : ∀ {w : Worker τ} {done executed : List τ}, Worker.Moves s i w done →
      Pool.left { s with
        workers := Function.update s.workers i w, executed := executed } + 1 ≤ s.left := by
    intro w done executed hmoves
    have hleft := left_update (s := s) (i := i) (w := w) (q := s.taskQue) (e := executed)
      (c := s.taskQue.consumers i) (Function.update_eq_self _ _).symm rfl
    have hlt := hmoves.left_lt
    simp only [threadLeft] at hleft
    omega
  rcases workerStep_cases hstep with ⟨w, done, hmoves, rfl⟩ | ⟨hw, -⟩
  · exact hmove hmoves
  · -- `m_isExit` is set, so the thread does not call `pop`.
    have hleave : workerStep edition s i =
        some { s with workers := Function.update s.workers i .exited } := by
      simp only [workerStep, hw, h.course.exit (h.course.waker hbegun), if_true]
    obtain rfl := Option.some.inj (hleave.symm.trans hstep)
    exact hmove (.leave hw)

/-- A step inside the queue brings the end nearer, and a spurious wakeup does not put it off. -/
theorem queue_left (h : InTime tasks s) (hbegun : s.taskQue.waker ≠ .idle) {l : Action 1 n τ}
    {q : State 1 n τ} (hl : l.inner = true) (hq : s.taskQue.step l = some q) :
    Pool.left { s with taskQue := q } + (PoolAction.own (.queue l)).toNat ≤ s.left := by
  have hmove : ∀ {r : State 1 n τ} {i : Fin n} {c : Consumer τ} {k : ℕ},
      r.consumers = Function.update s.taskQue.consumers i c → r.waker = s.taskQue.waker →
      c.left + k ≤ (s.taskQue.consumers i).left →
        Pool.left { s with taskQue := r } + k ≤ s.left := by
    intro r i c k hconsumers hwaker hle
    have hleft := left_update (s := s) (w := s.workers i) (e := s.executed) hconsumers hwaker
    rw [Function.update_eq_self] at hleft
    simp only [threadLeft] at hleft
    omega
  cases l with
  | producer p wake =>
      simp only [State.step, producerStep,
        h.course.producer_outside h.accounted hbegun p] at hq
      cases hq
  | consumer i wake =>
      obtain ⟨c, hconsumers, hwaker, hleft⟩ := consumerStep_left (h.flag hbegun) hq
      exact hmove hconsumers hwaker hleft.le
  | spuriousProducer p =>
      obtain rfl := Option.some.inj hq
      exact le_rfl
  | spuriousConsumer i =>
      obtain rfl := Option.some.inj hq
      exact hmove rfl rfl (Consumer.left_notify _)
  | _ => cases hl

/-- A call that has begun goes on in the pool. -/
theorem queue_enabled {l : Action 1 n τ} {q : State 1 n τ} (hl : l.moves = true)
    (hq : s.taskQue.step l = some q) (edition : Edition) :
    ∃ l t, l ≠ .controller ∧ PoolAction.own l = true ∧ s.step edition l = some t := by
  refine ⟨.queue l, { s with taskQue := q }, by simp, hl, ?_⟩
  simp only [Pool.step, Action.inner_of_moves hl, if_true, hq, Option.map_some]

/-- A thread that neither sleeps nor has exited, or the one that has the mutex, goes on. -/
theorem thread_enabled (h : InTime tasks s) {i : Fin n} (hborn : s.workers i ≠ .unborn)
    (hi : s.workers i ≠ .exited) (hawake : s.taskQue.consumers i ≠ .asleep)
    (edition : Edition) :
    ∃ l t, l ≠ .controller ∧ PoolAction.own l = true ∧ s.step edition l = some t := by
  have hworker : (∃ t, workerStep edition s i = some t) →
      ∃ l t, l ≠ .controller ∧ PoolAction.own l = true ∧ s.step edition l = some t := by
    rintro ⟨t, ht⟩
    exact ⟨.worker i, t, by simp, rfl, ht⟩
  cases hw : s.workers i with
  | unborn => exact absurd hw hborn
  | exited => exact absurd hw hi
  | looping =>
      refine hworker ?_
      simp only [workerStep, hw]
      split_ifs
      · exact ⟨_, rfl⟩
      · -- The thread is in no call, so it can call `pop`.
        cases hc : s.taskQue.consumers i with
        | outside | returned =>
            simp only [State.step, hc, Option.map_some]
            exact ⟨_, rfl⟩
        | _ =>
            have hpopping := h.accounted.calling i (by rw [hc]; rfl)
            rw [hw] at hpopping
            cases hpopping
  | running task =>
      refine hworker ?_
      simp only [workerStep, hw]
      exact ⟨_, rfl⟩
  | popping =>
      cases hc : s.taskQue.consumers i with
      | outside => exact absurd hc (h.course.popping i hw)
      | returned answer =>
          refine hworker ?_
          simp only [workerStep, hw, hc]
          cases answer with
          | some task => exact ⟨_, rfl⟩
          | none =>
              simp only
              split_ifs
              · exact ⟨_, rfl⟩
              · exact ⟨_, rfl⟩
      | _ =>
          obtain ⟨l, q, hl, hq⟩ := calling_enabled h.held h.guarded (by rw [hc]; rfl) hawake
          exact queue_enabled hl hq edition

/-- Before `stop` has returned it or one of the threads goes on. -/
theorem enabled (h : InTime tasks s) (hbegun : s.taskQue.waker ≠ .idle)
    (hgoal : s.controller ≠ .stopped) (edition : Edition) :
    ∃ l t, PoolAction.own l = true ∧ StopsInTime s l ∧ s.step edition l = some t := by
  have hstopping := h.course.waker hbegun
  have hjoining : s.taskQue.waker = .done → ∀ {i : Fin n}, s.workers i ≠ .exited →
      ∃ l t, PoolAction.own l = true ∧ StopsInTime s l ∧ s.step edition l = some t := by
    intro hdone i hi
    have hawake : s.taskQue.consumers i ≠ .asleep := by
      intro hasleep
      have hfree := h.released hdone i
      rw [hasleep] at hfree
      cases hfree
    obtain ⟨l, t, hl, hown, ht⟩ :=
      h.thread_enabled (h.course.ne_unborn (Controller.created_of_stopping hstopping) i) hi hawake
        edition
    exact ⟨l, t, hown, fun heq => absurd heq hl, ht⟩
  have hcontroller : (s.taskQue.waker = .stored → ∀ i, s.taskQue.consumers i ≠ .blocking) →
      (∃ t, controllerStep s = some t) →
      ∃ l t, PoolAction.own l = true ∧ StopsInTime s l ∧ s.step edition l = some t := by
    rintro hstored ⟨t, ht⟩
    exact ⟨.controller, t, rfl, fun _ => hstored, ht⟩
  cases hc : s.controller with
  | waking =>
      cases hwaker : s.taskQue.waker with
      | idle => exact absurd hwaker hbegun
      | done =>
          refine hcontroller (fun hstored => ?_) ?_
          · rw [hwaker] at hstored
            cases hstored
          · simp only [controllerStep, hc, hwaker, if_true]
            exact ⟨_, rfl⟩
      | stored =>
          -- `notify_all` waits for the threads that are about to block.
          by_cases hblocking : ∃ i, s.taskQue.consumers i = .blocking
          · obtain ⟨i, hi⟩ := hblocking
            obtain ⟨l, q, hl, hq⟩ := inside_enabled h.guarded (x := .inr i)
              (show (s.taskQue.consumers i).holds = true by rw [hi]; rfl)
            obtain ⟨l', t, hne, hown, ht⟩ := queue_enabled hl hq edition
            exact ⟨l', t, hown, fun heq => absurd heq hne, ht⟩
          · refine hcontroller (fun _ i hi => hblocking ⟨i, hi⟩) ?_
            simp only [controllerStep, hc, hwaker, reduceCtorEq, if_false, State.step, wakeupStep]
            exact ⟨_, rfl⟩
  | joining k =>
      have hdone : s.taskQue.waker = .done := by
        refine (h.course.notified hstopping).resolve_left ?_
        rw [hc]
        simp
      have hnotStored : s.taskQue.waker = .stored → ∀ i, s.taskQue.consumers i ≠ .blocking := by
        intro hstored
        rw [hdone] at hstored
        cases hstored
      by_cases hk : k < n
      · by_cases hexited : s.workers ⟨k, hk⟩ = .exited
        · refine hcontroller hnotStored ?_
          simp only [controllerStep, hc, dif_pos hk, hexited]
          exact ⟨_, rfl⟩
        · exact hjoining hdone hexited
      · refine hcontroller hnotStored ?_
        simp only [controllerStep, hc, dif_neg hk]
        exact ⟨_, rfl⟩
  | stopped => exact absurd hc hgoal
  | _ =>
      rw [hc] at hstopping
      cases hstopping

end InTime

theorem stop_progress : Transition.Progress (stoppingInTime edition n capacity tasks)
    PoolAction.own (fun s => s.controller = .stopped)
    (fun s => InTime tasks s ∧ s.taskQue.waker ≠ .idle) Pool.left where
  keep := by
    rintro s l t ⟨h, hbegun⟩ - ⟨hl, hstep⟩
    exact ⟨h.step hl hstep, taskQue_preserves begun_step hbegun hstep⟩
  spend := by
    rintro s l t ⟨h, hbegun⟩ - ⟨-, hstep⟩
    cases l with
    | controller => exact h.controller_left hbegun hstep
    | worker i => exact h.worker_left hbegun hstep
    | queue l =>
        obtain ⟨hl, q, hq, rfl⟩ := queueStep_cases hstep
        exact h.queue_left hbegun hl hq
  enabled := by
    rintro s ⟨h, hbegun⟩ hgoal
    obtain ⟨l, t, hown, hl, ht⟩ := h.enabled hbegun hgoal edition
    exact ⟨l, t, hown, hl, ht⟩

theorem inductive_inTime :
    Transition.Inductive (stoppingInTime edition n capacity tasks) (InTime tasks) := by
  refine .restrict ?_ ?_
  · rintro s rfl
    exact InTime.start capacity
  · intro s l t h hl hstep
    exact h.step hl hstep

/-- When `stop` has stored the flag, it returns after a bounded number of steps of its own and
of the threads, if its `notify_all` finds no thread between its test and its block. -/
theorem stop_finishes
    (h : Transition.Reachable (stoppingInTime edition n capacity tasks) s)
    (hbegun : s.taskQue.waker ≠ .idle) :
    Transition.Finishes (stoppingInTime edition n capacity tasks) PoolAction.own
      (fun t => t.controller = .stopped) s :=
  stop_progress.finishes ⟨inductive_inTime.reachable h, hbegun⟩

/-- The only thread sleeps in `pop` when the flag is stored. -/
theorem stop_finishes_one : ∃ s : Pool 1 ℕ, s.taskQue.consumers 0 = .asleep ∧
    s.taskQue.waker = .stored ∧
    Transition.Finishes (stoppingInTime .functions 1 1 []) PoolAction.own
      (fun t => t.controller = .stopped) s := by
  have hrun : ∃ s : Pool 1 ℕ, Transition.Run (stoppingInTime .functions 1 1 [])
      (Pool.start 1 []) [.controller, .controller, .controller, .worker 0,
        .queue (.consumer 0 none), .queue (.consumer 0 none), .queue (.consumer 0 none),
        .controller, .controller, .controller] s ∧ s.taskQue.consumers 0 = .asleep ∧
      s.taskQue.waker = .stored := by
    have hearly : ∀ {s : Pool 1 ℕ} {l : PoolAction 1 ℕ}, s.taskQue.waker = .idle →
        StopsInTime s l := by
      intro s l hidle _ hstored
      rw [hidle] at hstored
      cases hstored
    exact ⟨_, .cons ⟨hearly rfl, rfl⟩ (.cons ⟨hearly rfl, rfl⟩ (.cons ⟨hearly rfl, rfl⟩
      (.cons ⟨hearly rfl, rfl⟩ (.cons ⟨hearly rfl, rfl⟩ (.cons ⟨hearly rfl, rfl⟩
      (.cons ⟨hearly rfl, rfl⟩ (.cons ⟨hearly rfl, rfl⟩ (.cons ⟨hearly rfl, rfl⟩
      (.cons ⟨hearly rfl, rfl⟩ (.nil _)))))))))), rfl, rfl⟩
  obtain ⟨s, hrun, hasleep, hstored⟩ := hrun
  exact ⟨s, hasleep, hstored, stop_finishes ⟨_, _, rfl, hrun⟩ (by rw [hstored]; simp)⟩

/-! ## A thread that misses the notification -/

/-- The runs without spurious wakeups. -/
def withoutSpurious {τ : Type*} (edition : Edition) (n capacity : ℕ) (tasks : List τ) :
    Transition.System (Pool n τ) (PoolAction n τ) :=
  (threadPool edition n capacity tasks).restrict fun _ l => ∀ i, l ≠ .queue (.spuriousConsumer i)

/-- `wakeup` is over, and a thread sleeps in `pop`. -/
structure Missing (tasks : List τ) (i : Fin n) (s : Pool n τ) : Prop where
  accounted : Accounted tasks s
  course : Course s
  wakeup : s.taskQue.waker = .done
  asleep : s.taskQue.consumers i = .asleep

theorem Missing.step {i : Fin n} (h : Missing tasks i s) {l : PoolAction n τ}
    (hl : ∀ i, l ≠ .queue (.spuriousConsumer i)) (hstep : s.step edition l = some t) :
    Missing tasks i t := by
  have hbegun : s.taskQue.waker ≠ .idle := by
    rw [h.wakeup]
    simp
  suffices hkept : t.taskQue.waker = .done ∧ t.taskQue.consumers i = .asleep from
    ⟨h.accounted.step hstep, h.course.step hstep, hkept.1, hkept.2⟩
  have hother : ∀ {j : Fin n} {a : Consumer τ}, s.taskQue.consumers j ≠ .asleep →
      Function.update s.taskQue.consumers j a i = .asleep := by
    intro j a hj
    rw [Function.update_of_ne, h.asleep]
    rintro rfl
    exact hj h.asleep
  cases l with
  | controller =>
      cases controllerStep_stops hstep with
      | before hearly =>
          rw [h.course.waker hbegun] at hearly
          cases hearly
      | wakeup hc hq =>
          rw [wakeupStep, h.wakeup] at hq
          cases hq
      | woken | join | joined => exact ⟨h.wakeup, h.asleep⟩
  | worker j =>
      rcases workerStep_cases hstep with ⟨w, done, -, rfl⟩ | ⟨-, q, hq, rfl⟩
      · exact ⟨h.wakeup, h.asleep⟩
      · obtain ⟨hj, rfl⟩ := pop_cases hq
        refine ⟨h.wakeup, hother ?_⟩
        rcases hj with hj | ⟨task, hj⟩ <;> simp [hj]
  | queue a =>
      obtain ⟨ha, q, hq, rfl⟩ := queueStep_cases hstep
      cases a with
      | producer p wake =>
          simp only [State.step, producerStep,
            h.course.producer_outside h.accounted hbegun p] at hq
          cases hq
      | consumer j wake =>
          rcases consumerStep_cases hq with ⟨hj, -, rfl⟩ | ⟨hj, ⟨-, -, rfl⟩ | ⟨-, rfl⟩⟩ |
            ⟨hj, rfl⟩ | ⟨hj, ⟨task, rest, producers, -, -, -, rfl⟩ | ⟨-, rfl⟩⟩
          · refine ⟨h.wakeup, hother ?_⟩
            rcases hj with hj | hj <;> simp [hj]
          · exact ⟨h.wakeup, hother (by simp [hj])⟩
          · exact ⟨h.wakeup, hother (by simp [hj])⟩
          · exact ⟨h.wakeup, hother (by simp [hj])⟩
          · exact ⟨h.wakeup, hother (by simp [hj])⟩
          · exact ⟨h.wakeup, hother (by simp [hj])⟩
      | spuriousProducer p =>
          obtain rfl := Option.some.inj hq
          exact ⟨h.wakeup, h.asleep⟩
      | spuriousConsumer j => exact absurd rfl (hl j)
      | _ => cases ha

/-- A thread that sleeps in `pop` when `wakeup` is over is never joined: without a spurious
wakeup `stop` does not return. -/
theorem missed_blocks_stop (h : Transition.Reachable (threadPool edition n capacity tasks) s)
    {ls : List (PoolAction n τ)} (hmissed : Stranded s.taskQue)
    (hrun : Transition.Run (withoutSpurious edition n capacity tasks) s ls t) :
    t.controller ≠ .stopped := by
  obtain ⟨hdone, i, hasleep⟩ := hmissed
  have hcourse : Course s := by
    refine Transition.Inductive.reachable (I := Course) ⟨?_, ?_⟩ h
    · rintro _ rfl
      exact Course.start capacity
    · intro s l t hs hstep
      exact hs.step hstep
  have hmissing := hrun.preserves (I := Missing tasks i)
    (fun s l t hs hstep => hs.step hstep.1 hstep.2)
    ⟨(reachable_accounted h).1, hcourse, hdone, hasleep⟩
  intro hstopped
  have hexited := hmissing.accounted.joined i (by rw [hstopped]; exact i.isLt)
  have hpopping := hmissing.accounted.calling i (by rw [hmissing.asleep]; rfl)
  rw [hexited] at hpopping
  cases hpopping

/-- `notify_all` finds the only thread between its test and its block. -/
theorem missed_blocks_stop_one : ∃ s : Pool 1 ℕ, Stranded s.taskQue ∧
    ∀ ls t, Transition.Run (withoutSpurious .functions 1 1 []) s ls t →
      t.controller ≠ .stopped := by
  have hreach : Transition.Reachable (threadPool .functions 1 1 ([] : List ℕ)) _ :=
    Transition.reachable_ofFun_iff.mpr ⟨[.controller, .controller, .controller,
      .worker (0 : Fin 1), .queue (.consumer 0 none), .queue (.consumer 0 none), .controller,
      .controller, .controller, .controller, .queue (.consumer 0 none)], rfl⟩
  obtain ⟨s, hs, hmissed⟩ : ∃ s, Transition.Reachable
      (threadPool .functions 1 1 ([] : List ℕ)) s ∧ Stranded s.taskQue :=
    ⟨_, hreach, rfl, 0, rfl⟩
  exact ⟨s, hmissed, fun ls t hrun => missed_blocks_stop hs hmissed hrun⟩

end

end TaskQueuePool

end ProcessThreadPool
