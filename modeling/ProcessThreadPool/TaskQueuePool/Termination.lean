import ProcessThreadPool.TaskQueuePool.Stop

/-!
# The pool comes to its end

While there are tasks to add or in the queue, some thread of the pool or the controller goes on,
and each step brings the moment nearer at which `stop` stores the flag. Only spurious wakeups and
looks of `stop` at a queue with tasks do not, and without them the pool executes all tasks and
`stop` returns after a bounded number of steps, if its `notify_all` is in time.
-/

namespace ProcessThreadPool

namespace TaskQueuePool

open ThreadFamily

section

variable {n capacity : ℕ} {τ : Type*} {edition : Edition} {tasks : List τ} {s t : Pool n τ}

/-- No spurious wakeup, and no look of `stop` at a queue with tasks, after which it sleeps. -/
def Steady (s : Pool n τ) : PoolAction n τ → Prop
  | .controller => s.controller = .polling → s.taskQue.queue.que = []
  | .worker _ => True
  | .queue l => l.moves = true

/-- The runs of such steps in which `stop` notifies in time. -/
def steadyPool {τ : Type*} (edition : Edition) (n capacity : ℕ) (tasks : List τ) :
    Transition.System (Pool n τ) (PoolAction n τ) :=
  (threadPool edition n capacity tasks).restrict fun s l => Steady s l ∧ StopsInTime s l

/-- A thread has exited only when `m_isExit` was set, and only `stop` sets it. -/
structure Working (capacity : ℕ) (tasks : List τ) (s : Pool n τ) : Prop where
  inTime : InTime tasks s
  balanced : Balanced s.taskQue
  capacity : s.taskQue.queue.capacity = capacity
  exit : s.isExit = true → s.controller.stopping = true
  exited : ∀ i, s.workers i = .exited → s.isExit = true

theorem exited_of_workerStep {i j : Fin n} (hstep : workerStep edition s i = some t)
    (hj : t.workers j = .exited) : s.isExit = true ∨ s.workers j = .exited := by
  cases hexit : s.isExit with
  | true => exact Or.inl rfl
  | false =>
      refine Or.inr ?_
      have hset : ∀ {w : Worker τ}, w ≠ .exited →
          Function.update s.workers i w j = .exited → s.workers j = .exited := by
        intro w hw hupdate
        rw [Function.update_apply] at hupdate
        split_ifs at hupdate
        · exact absurd hupdate hw
        · exact hupdate
      rcases workerStep_cases hstep with ⟨w, done, hmoves, rfl⟩ | ⟨hw, q, hq, rfl⟩
      · cases hmoves with
        | leave hw =>
            simp only [workerStep, hw, hexit, Bool.false_eq_true, if_false] at hstep
            obtain ⟨q, -, heq⟩ := Option.map_eq_some_iff.mp hstep
            have hi := congrFun (congrArg Pool.workers heq) i
            simp at hi
        | miss hw hc hnext =>
            simp only [workerStep, hw, hc, hexit, Bool.and_false, Bool.false_eq_true,
              if_false] at hstep
            have heq := congrFun (congrArg Pool.workers (Option.some.inj hstep)) i
            simp only [Function.update_self] at heq
            exact hset (by rw [← heq]; simp) hj
        | take | run => exact hset (by simp) hj
      · exact hset (by simp) hj

namespace Working

theorem start (capacity : ℕ) :
    Working capacity tasks (Pool.start capacity tasks : Pool n τ) where
  inTime := InTime.start capacity
  balanced := Balanced.start capacity
  capacity := rfl
  exit := fun h => by cases h
  exited := fun _ h => by cases h

theorem step (h : Working capacity tasks s) {l : PoolAction n τ} (hl : StopsInTime s l)
    (hstep : s.step edition l = some t) : Working capacity tasks t where
  inTime := h.inTime.step hl hstep
  balanced := by
    rcases taskQue_step hstep with hsame | ⟨a, ha⟩
    · rw [hsame]
      exact h.balanced
    · exact h.balanced.step h.inTime.guarded ha
  capacity := taskQue_preserves (fun hq ha => (step_frame ha).1.trans hq) h.capacity hstep
  exit := by
    intro ht
    cases l with
    | controller =>
        cases controllerStep_stops hstep with
        | before hearly hwaker hexit =>
            rcases hexit with ⟨-, hsame⟩ | ⟨hwaking, -⟩
            · rw [hsame] at ht
              rw [h.exit ht] at hearly
              cases hearly
            · rw [hwaking]
              rfl
        | wakeup hc => exact h.exit ht
        | woken | join | joined => rfl
    | worker i =>
        rcases workerStep_cases hstep with ⟨w, done, -, rfl⟩ | ⟨-, q, -, rfl⟩
        · exact h.exit ht
        · exact h.exit ht
    | queue a =>
        obtain ⟨-, q, -, rfl⟩ := queueStep_cases hstep
        exact h.exit ht
  exited := by
    intro i hi
    cases l with
    | controller =>
        have hexit : s.workers i = .exited := by
          rcases controllerStep_cases hstep with ⟨c, isExit, -, rfl⟩ | ⟨k, rest, hk, -, rfl⟩ |
            ⟨task, rest, q, -, -, rfl⟩ | ⟨q, -, rfl⟩
          · exact hi
          · simp only [Function.update_apply] at hi
            split_ifs at hi
            exact hi
          · exact hi
          · exact hi
        have hset := h.exited i hexit
        cases controllerStep_stops hstep with
        | before hearly =>
            rw [h.exit hset] at hearly
            cases hearly
        | wakeup | woken | join | joined => exact hset
    | worker j =>
        have hexit : t.isExit = s.isExit := by
          rcases workerStep_cases hstep with ⟨w, done, -, rfl⟩ | ⟨-, q, -, rfl⟩
          · rfl
          · rfl
        rw [hexit]
        rcases exited_of_workerStep hstep hi with hset | hold
        · exact hset
        · exact h.exited i hold
    | queue a =>
        obtain ⟨-, q, -, rfl⟩ := queueStep_cases hstep
        exact h.exited i hi

/-- As long as there are tasks in the queue, a thread goes on. -/
theorem taking_enabled (h : Working capacity tasks s) (hidle : s.taskQue.waker = .idle)
    (hne : s.taskQue.queue.que ≠ []) (hborn : ∀ i, s.workers i ≠ .unborn) (i : Fin n)
    (edition : Edition) :
    ∃ l t, l ≠ .controller ∧ PoolAction.own l = true ∧ s.step edition l = some t := by
  have hnotExited : s.workers i ≠ .exited := by
    intro hexited
    have hstopping := h.exit (h.exited i hexited)
    refine hne (h.inTime.accounted.drained ?_)
    cases hc : s.controller with
    | waking | joining | stopped => rfl
    | _ =>
        rw [hc] at hstopping
        cases hstopping
  by_cases hasleep : s.taskQue.consumers i = .asleep
  · -- The queue is served by somebody who is awake.
    obtain ⟨c, hc⟩ := (h.balanced.consumers hidle).exists_awake (List.length_pos_iff.mpr hne)
      ⟨i, by rw [hasleep]; rfl⟩
    have hawake : s.taskQue.consumers c ≠ .asleep := by
      intro hsleeps
      rw [hsleeps] at hc
      cases hc
    obtain ⟨l, q, hl, hq⟩ := calling_enabled h.inTime.held h.inTime.guarded
      (Consumer.calling_iff.mpr (Or.inl hc)) hawake
    exact InTime.queue_enabled hl hq edition
  · exact h.inTime.thread_enabled (hborn i) hnotExited hasleep edition

end Working

end

/-! ## The way to the notification -/

section

variable {n capacity : ℕ} {τ : Type*} {edition : Edition} {tasks : List τ} {s t : Pool n τ}

/-- The steps that are left to a thread until it sleeps in `pop`, if it gets no task. -/
def threadAhead : Worker τ × Consumer τ → ℕ
  | (.unborn, _) => 5
  | (.looping, _) => 4
  | (.running _, _) => 5
  | (.exited, _) => 0
  | (.popping, .returned _) => 6
  | (.popping, .entering) => 3
  | (.popping, .woken) => 3
  | (.popping, .testing) => 2
  | (.popping, .blocking) => 1
  | (.popping, .deciding) => 1
  | (.popping, .asleep) => 0
  | (.popping, .outside) => 0

/-- The steps that are left to a call of `push` until it sleeps, and those that its task costs
once it is in the queue. -/
def Producer.ahead : Producer τ → ℕ
  | .outside => 0
  | .entering _ | .woken _ => 13
  | .testing _ => 12
  | .asleep _ => 11

/-- The steps that are left to the controller outside of its calls. -/
def Controller.ahead : Controller τ → ℕ
  | .starting _ _ => 6
  | .pushing _ => 5
  | .adding _ => 4
  | .polling => 3
  | .exiting => 2
  | .waking => 1
  | .joining _ | .stopped => 0

/-- Whether `wakeup` is still to store the flag. -/
def Waker.ahead : Waker → ℕ
  | .idle => 1
  | .stored | .done => 0

/-- The steps that are left on account of the queue: a task in it costs those of the thread that
takes it and those of a producer that is notified. -/
def State.ahead {p : ℕ} (q : State p n τ) : ℕ :=
  total Producer.ahead q.producers + 8 * q.queue.que.length + q.waker.ahead

/-- The steps that are left until the flag is stored. -/
def Pool.ahead (s : Pool n τ) : ℕ :=
  total threadAhead s.threads + s.taskQue.ahead +
    (15 * s.controller.rest.length + s.controller.ahead)

/-- The controller is the only producer. -/
theorem State.ahead_eq (q : State 1 n τ) :
    q.ahead = (q.producers 0).ahead + 8 * q.queue.que.length + q.waker.ahead := by
  have hproducers : total Producer.ahead q.producers = (q.producers 0).ahead :=
    Fintype.sum_unique fun p => (q.producers p).ahead
  rw [State.ahead, hproducers]

theorem threadAhead_notify (w : Worker τ) (a : Consumer τ) :
    threadAhead (w, (consumerWaiter τ).notify a) ≤ threadAhead (w, a) + 3 := by
  cases w with
  | popping =>
      cases a with
      | asleep => exact le_rfl
      | _ => exact Nat.le_add_right _ 3
  | _ => exact Nat.le_add_right _ 3

theorem Producer.ahead_notify (a : Producer τ) :
    ((producerWaiter τ).notify a).ahead ≤ a.ahead + 2 := by
  cases a with
  | asleep => exact le_rfl
  | _ => exact Nat.le_add_right _ 2

/-- A thread that makes a step, and the queue with it. -/
theorem ahead_update {q : State 1 n τ} {i : Fin n} {w : Worker τ} {c : Consumer τ} {e : List τ}
    (hconsumers : q.consumers = Function.update s.taskQue.consumers i c)
    (hle : threadAhead (w, c) + q.ahead + 1 ≤
      threadAhead (s.workers i, s.taskQue.consumers i) + s.taskQue.ahead) :
    Pool.ahead { s with
        taskQue := q, workers := Function.update s.workers i w, executed := e } + 1 ≤ s.ahead := by
  have htotal := total_update_add threadAhead s.threads i (w, c)
  rw [Pool.ahead, Pool.ahead, threads_update hconsumers]
  simp only [Pool.threads] at htotal ⊢
  omega

theorem threads_controller {q : State 1 n τ} {c : Controller τ} {isExit : Bool}
    (hconsumers : q.consumers = s.taskQue.consumers) :
    Pool.threads { s with taskQue := q, controller := c, isExit := isExit } = s.threads := by
  funext i
  simp only [Pool.threads, hconsumers]

/-- The controller makes a step, and the queue with it. -/
theorem ahead_controller {q : State 1 n τ} {c : Controller τ} {isExit : Bool}
    (hconsumers : q.consumers = s.taskQue.consumers)
    (hle : q.ahead + (15 * c.rest.length + c.ahead) + 1 ≤
      s.taskQue.ahead + (15 * s.controller.rest.length + s.controller.ahead)) :
    Pool.ahead { s with taskQue := q, controller := c, isExit := isExit } + 1 ≤ s.ahead := by
  rw [Pool.ahead, Pool.ahead, threads_controller hconsumers]
  simp only
  omega

/-- A notification sends at most one thread back to its test. -/
theorem threads_notifyOne {q : State 1 n τ} {wake : Option (Fin n)}
    (hwake : (consumerWaiter τ).notifyOne s.taskQue.consumers wake = some q.consumers) :
    total threadAhead (Pool.threads { s with taskQue := q }) ≤ total threadAhead s.threads + 3 := by
  rcases Waiter.notifyOne_cases hwake with ⟨i, -, hconsumers⟩ | ⟨-, hconsumers⟩
  · have hthreads := threads_update (s := s) (w := s.workers i) (e := s.executed) hconsumers
    rw [Function.update_eq_self] at hthreads
    have htotal := total_update_add threadAhead s.threads i
      (s.workers i, (consumerWaiter τ).notify (s.taskQue.consumers i))
    have hnotify := threadAhead_notify (s.workers i) (s.taskQue.consumers i)
    rw [hthreads]
    simp only [Pool.threads] at htotal ⊢
    omega
  · have hthreads : Pool.threads { s with taskQue := q } = s.threads :=
      threads_controller hconsumers
    rw [hthreads]
    exact Nat.le_add_right _ 3

namespace Working

theorem controller_ahead (h : Working capacity tasks s) (hidle : s.taskQue.waker = .idle)
    (hl : Steady s .controller) (hstep : controllerStep s = some t) : t.ahead + 1 ≤ s.ahead := by
  have hnotJoining : ∀ k, s.controller ≠ .joining k := by
    intro k hc
    rcases h.inTime.course.notified (by rw [hc]; rfl) with hwaking | hdone
    · rw [hc] at hwaking
      cases hwaking
    · rw [hidle] at hdone
      cases hdone
  rcases controllerStep_cases hstep with ⟨c, isExit, hmoves, rfl⟩ | ⟨k, rest, hk, hc, rfl⟩ |
    ⟨task, rest, q, hc, hq, rfl⟩ | ⟨q, hq, rfl⟩
  · cases hmoves with
    | waited hc =>
        -- The queue is empty, so `stop` goes on.
        have hempty := hl hc
        simp only [controllerStep, hc, TaskQueue.empty, hempty, List.length_nil, decide_true,
          if_true] at hstep
        have hcontroller := congrArg Pool.controller (Option.some.inj hstep)
        cases hcontroller
    | join _ hc | joined hc => exact absurd hc (hnotJoining _)
    | started hc | pushed hc | added hc | drained hc | exited hc | woken hc =>
        refine ahead_controller rfl ?_
        rw [hc]
        simp only [Controller.rest, Controller.ahead]
        omega
  · have hunborn := h.inTime.accounted.unborn ⟨k, hk⟩ (by rw [hc]; exact le_rfl)
    have htotal := total_update_add threadAhead s.threads ⟨k, hk⟩
      (.looping, s.taskQue.consumers ⟨k, hk⟩)
    have hthreads : Pool.threads { s with
        workers := Function.update s.workers ⟨k, hk⟩ .looping
        controller := .starting (k + 1) rest } =
          Function.update s.threads ⟨k, hk⟩ (.looping, s.taskQue.consumers ⟨k, hk⟩) :=
      threads_update (q := s.taskQue) (e := s.executed) (Function.update_eq_self _ _).symm
    rw [Pool.ahead, Pool.ahead, hthreads, hc]
    simp only [Pool.threads, hunborn, threadAhead, Controller.rest, Controller.ahead] at htotal ⊢
    omega
  · obtain ⟨hout, rfl⟩ := push_cases hq
    refine ahead_controller rfl ?_
    rw [hc]
    simp only [State.ahead_eq, State.setProducer, Function.update_self, hout, Producer.ahead,
      Controller.rest, Controller.ahead, List.length_cons]
    omega
  · rcases wakeupStep_cases hq with ⟨-, rfl⟩ | ⟨hstored, -⟩
    · refine ahead_controller rfl ?_
      simp only [State.ahead_eq, hidle, Waker.ahead]
      omega
    · rw [hidle] at hstored
      cases hstored

theorem worker_ahead {i : Fin n} (hstep : workerStep edition s i = some t) :
    t.ahead + 1 ≤ s.ahead := by
  rcases workerStep_cases hstep with ⟨w, done, hmoves, rfl⟩ | ⟨hw, q, hq, rfl⟩
  · refine ahead_update (Function.update_eq_self _ _).symm ?_
    cases hmoves with
    | leave hw | run hw =>
        rw [hw]
        simp only [threadAhead]
        omega
    | take hw hc =>
        rw [hw, hc]
        simp only [threadAhead]
        omega
    | miss hw hc hnext =>
        rw [hw, hc]
        rcases hnext with rfl | rfl
        · simp only [threadAhead]
          omega
        · simp only [threadAhead]
          omega
  · obtain ⟨hc, rfl⟩ := pop_cases hq
    refine ahead_update rfl ?_
    rw [hw]
    simp only [threadAhead, State.ahead_eq, State.setConsumer]
    omega

theorem consumer_ahead (h : Working capacity tasks s) (hidle : s.taskQue.waker = .idle)
    {i : Fin n} {wake : Option (Fin 1)} {q : State 1 n τ}
    (hq : consumerStep s.taskQue i wake = some q) :
    Pool.ahead { s with taskQue := q } + 1 ≤ s.ahead := by
  have hflag : s.taskQue.queue.flag = true := h.inTime.guarded.flag.mpr hidle
  have hthread : ∀ {q : State 1 n τ} {c : Consumer τ}, s.workers i = .popping →
      q.consumers = Function.update s.taskQue.consumers i c →
      threadAhead (.popping, c) + q.ahead + 1 ≤
        threadAhead (.popping, s.taskQue.consumers i) + s.taskQue.ahead →
      Pool.ahead { s with taskQue := q } + 1 ≤ s.ahead := by
    intro q c hw hconsumers hle
    have hahead := ahead_update (s := s) (w := s.workers i) (e := s.executed) hconsumers
      (by rw [hw]; exact hle)
    rwa [Function.update_eq_self] at hahead
  have hcalling := h.inTime.accounted.calling i
  rcases consumerStep_cases hq with ⟨hc, -, rfl⟩ | ⟨hc, ⟨-, -, rfl⟩ | ⟨-, rfl⟩⟩ | ⟨hc, rfl⟩ |
    ⟨hc, ⟨task, rest, producers, -, hque, hwake, rfl⟩ | ⟨hfalse, -⟩⟩
  · refine hthread (hcalling ?_) rfl ?_
    · rcases hc with hc | hc <;> rw [hc] <;> rfl
    · rcases hc with hc | hc
      · rw [hc]
        simp only [threadAhead, State.ahead_eq, State.setConsumer]
        omega
      · rw [hc]
        simp only [threadAhead, State.ahead_eq, State.setConsumer]
        omega
  · refine hthread (hcalling (by rw [hc]; rfl)) rfl ?_
    rw [hc]
    simp only [threadAhead, State.ahead_eq, State.setConsumer]
    omega
  · refine hthread (hcalling (by rw [hc]; rfl)) rfl ?_
    rw [hc]
    simp only [threadAhead, State.ahead_eq, State.setConsumer]
    omega
  · refine hthread (hcalling (by rw [hc]; rfl)) rfl ?_
    rw [hc]
    simp only [threadAhead, State.ahead_eq, State.setConsumer]
    omega
  · -- The task that is taken pays for its thread and for the producer that is notified.
    refine hthread (hcalling (by rw [hc]; rfl)) rfl ?_
    have hproducer : (producers 0).ahead ≤ (s.taskQue.producers 0).ahead + 2 := by
      rcases Waiter.notifyOne_apply hwake 0 with heq | heq
      · rw [heq]
        exact Nat.le_add_right _ 2
      · rw [heq]
        exact Producer.ahead_notify _
    rw [hc]
    simp only [threadAhead, State.ahead_eq, State.setConsumer, hque, List.length_cons]
    omega
  · rw [hflag] at hfalse
    cases hfalse

theorem producer_ahead {p : Fin 1} {wake : Option (Fin n)} {q : State 1 n τ}
    (hq : producerStep s.taskQue p wake = some q) :
    Pool.ahead { s with taskQue := q } + 1 ≤ s.ahead := by
  obtain rfl : p = 0 := Subsingleton.elim p 0
  rcases producerStep_cases hq with ⟨task, hp, -, rfl⟩ | ⟨task, hp, -, rfl⟩ |
    ⟨task, consumers, hp, -, hwake, rfl⟩
  · refine ahead_controller rfl ?_
    rcases hp with hp | hp
    · simp only [State.ahead_eq, State.setProducer, Function.update_self, hp, Producer.ahead]
      omega
    · simp only [State.ahead_eq, State.setProducer, Function.update_self, hp, Producer.ahead]
      omega
  · refine ahead_controller rfl ?_
    simp only [State.ahead_eq, State.setProducer, Function.update_self, hp, Producer.ahead]
    omega
  · -- The task that is stored pays for the thread that is notified.
    have hthreads := threads_notifyOne (s := s) (q := State.setProducer { s.taskQue with
      queue := { s.taskQue.queue with que := s.taskQue.queue.que ++ [task] }
      mutex := none
      consumers := consumers
      pushed := s.taskQue.pushed ++ [task] } 0 .outside) hwake
    rw [Pool.ahead, Pool.ahead, State.ahead_eq, State.ahead_eq, hp]
    simp only [State.setProducer, Function.update_self, Producer.ahead, List.length_append,
      List.length_singleton] at hthreads ⊢
    omega

end Working

end

/-! ## The whole run -/

section

variable {n capacity : ℕ} {τ : Type*} {edition : Edition} {tasks : List τ} {s t : Pool n τ}

theorem steady_of_own {l : PoolAction n τ} (hne : l ≠ .controller)
    (hown : PoolAction.own l = true) : Steady s l := by
  cases l with
  | controller => exact absurd rfl hne
  | worker => exact trivial
  | queue a => exact hown

namespace Working

/-- A producer that sleeps has found the queue full. -/
theorem full_of_asleep (h : Working capacity tasks s) {task : τ}
    (hasleep : s.taskQue.producers 0 = .asleep task) :
    capacity ≤ s.taskQue.queue.que.length := by
  by_contra hroom
  rw [← h.capacity] at hroom
  obtain ⟨p, hp⟩ := h.balanced.producers.exists_awake (by omega) ⟨0, by rw [hasleep]; rfl⟩
  obtain rfl : p = 0 := Subsingleton.elim p 0
  rw [hasleep] at hp
  cases hp

/-- Until the flag is stored, the controller or one of the threads goes on. -/
theorem enabled (h : Working capacity tasks s) (hn : 0 < n) (hcapacity : 0 < capacity)
    (hidle : s.taskQue.waker = .idle) (edition : Edition) :
    ∃ l t, Steady s l ∧ StopsInTime s l ∧ s.step edition l = some t := by
  have hintime : ∀ l, StopsInTime s l := by
    intro l _ hstored
    rw [hidle] at hstored
    cases hstored
  have hcontroller : (s.controller = .polling → s.taskQue.queue.que = []) →
      (∃ t, controllerStep s = some t) →
      ∃ l t, Steady s l ∧ StopsInTime s l ∧ s.step edition l = some t := by
    rintro hsteady ⟨t, ht⟩
    exact ⟨.controller, t, hsteady, hintime _, ht⟩
  have hthread : (∃ l t, l ≠ .controller ∧ PoolAction.own l = true ∧ s.step edition l = some t) →
      ∃ l t, Steady s l ∧ StopsInTime s l ∧ s.step edition l = some t := by
    rintro ⟨l, t, hne, hown, ht⟩
    exact ⟨l, t, steady_of_own hne hown, hintime _, ht⟩
  have hjoining : s.controller.stopping = true → s.controller = .waking := by
    intro hstopping
    refine (h.inTime.course.notified hstopping).resolve_right ?_
    rw [hidle]
    simp
  cases hc : s.controller with
  | starting k rest =>
      refine hcontroller (by rw [hc]; simp) ?_
      simp only [controllerStep, hc]
      split_ifs
      · exact ⟨_, rfl⟩
      · exact ⟨_, rfl⟩
  | adding rest =>
      refine hcontroller (by rw [hc]; simp) ?_
      cases rest with
      | nil =>
          simp only [controllerStep, hc]
          exact ⟨_, rfl⟩
      | cons task rest =>
          have hout := h.inTime.accounted.pushing (by rw [hc]; rfl)
          simp only [controllerStep, hc, State.step, hout, Option.map_some]
          exact ⟨_, rfl⟩
  | pushing rest =>
      cases hp : s.taskQue.producers 0 with
      | outside =>
          refine hcontroller (by rw [hc]; simp) ?_
          simp only [controllerStep, hc, hp]
          exact ⟨_, rfl⟩
      | asleep task =>
          have hfull := h.full_of_asleep hp
          refine hthread (h.taking_enabled hidle ?_
            (h.inTime.course.ne_unborn (by rw [hc]; rfl)) ⟨0, hn⟩ edition)
          exact List.length_pos_iff.mp (hcapacity.trans_le hfull)
      | _ =>
          obtain ⟨l, q, hl, hq⟩ := pushing_enabled (p := 0) h.inTime.held h.inTime.guarded
            (by rw [hp]; rfl) (by rw [hp]; simp)
          exact hthread (InTime.queue_enabled hl hq edition)
  | polling =>
      by_cases hempty : s.taskQue.queue.que = []
      · refine hcontroller (fun _ => hempty) ?_
        simp only [controllerStep, hc]
        split_ifs
        · exact ⟨_, rfl⟩
        · exact ⟨_, rfl⟩
      · exact hthread (h.taking_enabled hidle hempty
          (h.inTime.course.ne_unborn (by rw [hc]; rfl)) ⟨0, hn⟩ edition)
  | exiting =>
      refine hcontroller (by rw [hc]; simp) ?_
      simp only [controllerStep, hc]
      exact ⟨_, rfl⟩
  | waking =>
      refine hcontroller (by rw [hc]; simp) ?_
      simp only [controllerStep, hc, hidle, reduceCtorEq, if_false, State.step, wakeupStep]
      exact ⟨_, rfl⟩
  | joining | stopped =>
      have hwaking := hjoining (by rw [hc]; rfl)
      rw [hc] at hwaking
      cases hwaking

end Working

theorem notification_progress (hn : 0 < n) (hcapacity : 0 < capacity) :
    Transition.Progress (steadyPool edition n capacity tasks) (fun _ => true)
      (fun s => s.taskQue.waker ≠ .idle) (Working capacity tasks) Pool.ahead where
  keep := fun s l t h _ hstep => h.step hstep.1.2 hstep.2
  spend := by
    rintro s l t h hnot ⟨⟨hl, -⟩, hstep⟩
    rw [not_not] at hnot
    cases l with
    | controller => exact h.controller_ahead hnot hl hstep
    | worker i => exact Working.worker_ahead hstep
    | queue a =>
        obtain ⟨-, q, hq, rfl⟩ := queueStep_cases hstep
        cases a with
        | producer p wake => exact Working.producer_ahead hq
        | consumer i wake => exact h.consumer_ahead hnot hq
        | _ => cases hl
  enabled := by
    intro s h hnot
    rw [not_not] at hnot
    obtain ⟨l, t, hl, hintime, ht⟩ := h.enabled hn hcapacity hnot edition
    exact ⟨l, t, rfl, ⟨hl, hintime⟩, ht⟩

theorem return_progress :
    Transition.Progress (steadyPool edition n capacity tasks) (fun _ => true)
      (fun s => s.controller = .stopped)
      (fun s => InTime tasks s ∧ s.taskQue.waker ≠ .idle) Pool.left where
  keep := by
    rintro s l t ⟨h, hbegun⟩ - ⟨⟨-, hl⟩, hstep⟩
    exact ⟨h.step hl hstep, taskQue_preserves begun_step hbegun hstep⟩
  spend := by
    rintro s l t ⟨h, hbegun⟩ - ⟨⟨hl, -⟩, hstep⟩
    cases l with
    | controller => exact h.controller_left hbegun hstep
    | worker i => exact h.worker_left hbegun hstep
    | queue a =>
        obtain ⟨ha, q, hq, rfl⟩ := queueStep_cases hstep
        have hleft := h.queue_left hbegun ha hq
        rwa [show PoolAction.own (.queue a) = true from hl] at hleft
  enabled := by
    rintro s ⟨h, hbegun⟩ hgoal
    obtain ⟨l, t, hown, hintime, ht⟩ := h.enabled hbegun hgoal edition
    refine ⟨l, t, rfl, ⟨?_, hintime⟩, ht⟩
    by_cases hne : l = .controller
    · rw [hne]
      intro hpolling
      have hstopping := h.course.waker hbegun
      rw [hpolling] at hstopping
      cases hstopping
    · exact steady_of_own hne hown

/-- The steps behind the notification are bounded. -/
theorem left_le (s : Pool n τ) : s.left ≤ n * 8 + (n + 2) + 1 := by
  have hthread : ∀ a : Worker τ × Consumer τ, threadLeft a ≤ 8 := by
    rintro ⟨w, c⟩
    have hw : w.left ≤ 3 := by cases w <;> simp [Worker.left]
    have hc : c.left ≤ 5 := by cases c <;> simp [Consumer.left]
    exact Nat.add_le_add hw hc
  have htotal : total threadLeft s.threads ≤ n * 8 := by
    have hle := Finset.sum_le_card_nsmul Finset.univ (fun i => threadLeft (s.threads i)) 8
      fun i _ => hthread _
    rw [Finset.card_univ, Fintype.card_fin] at hle
    exact hle
  have hcontroller : s.controller.left n ≤ n + 2 := by
    cases s.controller with
    | joining k =>
        simp only [Controller.left]
        omega
    | _ => simp [Controller.left]
  have hwaker : s.taskQue.waker.left ≤ 1 := by
    cases s.taskQue.waker <;> simp [Waker.left]
  exact Nat.add_le_add (Nat.add_le_add htotal hcontroller) hwaker

/-- Without spurious wakeups and looks of `stop` at a queue with tasks, a pool with threads and
room for tasks adds and executes its tasks and `stop` returns after a bounded number of steps, if
its `notify_all` finds no thread between its test and its block. -/
theorem pool_finishes (hn : 0 < n) (hcapacity : 0 < capacity)
    (h : Transition.Reachable (steadyPool edition n capacity tasks) s) :
    Transition.Finishes (steadyPool edition n capacity tasks) (fun _ => true)
      (fun t => t.controller = .stopped) s := by
  have hworking : Working capacity tasks s := by
    refine Transition.Inductive.reachable (I := Working capacity tasks) (.restrict ?_ ?_) h
    · rintro _ rfl
      exact Working.start capacity
    · intro s l t hs hl hstep
      exact hs.step hl.2 hstep
  have hnotification : Transition.Progress (steadyPool edition n capacity tasks) _ _ _ _ :=
    notification_progress hn hcapacity
  have hprogress := hnotification.append return_progress
    (fun _ hs hbegun => ⟨hs.inTime, hbegun⟩) (fun _ hs => hs.2) fun s _ => left_le s
  refine hprogress.finishes ?_
  by_cases hbegun : s.taskQue.waker ≠ .idle
  · exact Or.inr ⟨hworking.inTime, hbegun⟩
  · exact Or.inl ⟨hworking, hbegun⟩

/-- Two threads and two tasks, one of which fits the queue. -/
theorem pool_finishes_two :
    Transition.Finishes (steadyPool .functions 2 1 [7, 8]) (fun _ => true)
      (fun t => t.controller = .stopped) (Pool.start 1 [7, 8] : Pool 2 ℕ) :=
  pool_finishes (by decide) (by decide) ⟨_, [], rfl, .nil _⟩

end

end TaskQueuePool

end ProcessThreadPool
