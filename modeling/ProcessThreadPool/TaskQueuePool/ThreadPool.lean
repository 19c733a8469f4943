import ProcessThreadPool.TaskQueuePool.Wakeup
import Mathlib.Algebra.Order.Group.Multiset

/-!
# The thread pool on the task queue

A controller calls `start`, `addTask` for each task, and `stop`; every thread runs
`doTask`. `stop` polls for an empty queue, sets `m_isExit`, calls `wakeup` and joins all
threads. A task that has left the queue is held by the thread that popped it until that
thread has executed it, and a thread that holds a task has not ended. The two editions of
the pool differ only in what `doTask` does when `pop` returned no task.
-/

namespace ProcessThreadPool

namespace TaskQueuePool

open ThreadFamily

/-- The edition with function objects, whose `doTask` tests `m_isExit` again when there
was no task, and the edition with task classes, which only goes on with its loop. -/
inductive Edition where
  | functions
  | classes
  deriving DecidableEq, Repr

/-- Where the controller stands, with the tasks it has still to add. -/
inductive Controller (τ : Type*) where
  | starting (k : ℕ) (tasks : List τ)
  | adding (tasks : List τ)
  | pushing (tasks : List τ)
  | polling
  | exiting
  | waking
  | joining (k : ℕ)
  | stopped
  deriving DecidableEq, Repr

/-- Where a thread of the pool stands in `doTask`. -/
inductive Worker (τ : Type*) where
  | unborn
  | looping
  | popping
  | running (task : τ)
  | exited
  deriving DecidableEq, Repr

/-- `ThreadPool` with its threads; the controller is the only producer of the queue. -/
structure Pool (n : ℕ) (τ : Type*) where
  taskQue : State 1 n τ
  isExit : Bool
  controller : Controller τ
  workers : Fin n → Worker τ
  executed : List τ

/-- The pool has been constructed, and the controller is about to call `start`. -/
def Pool.start {n : ℕ} {τ : Type*} (capacity : ℕ) (tasks : List τ) : Pool n τ where
  taskQue := State.start capacity
  isExit := false
  controller := .starting 0 tasks
  workers := fun _ => .unborn
  executed := []

/-- What happens next: a step of the controller, of a thread in `doTask`, or inside a
call of the queue. -/
inductive PoolAction (n : ℕ) (τ : Type*) where
  | controller
  | worker (i : Fin n)
  | queue (l : Action 1 n τ)
  deriving DecidableEq, Repr

/-- The step belongs to a call that has begun. -/
def Action.inner {m n : ℕ} {τ : Type*} : Action m n τ → Bool
  | .push _ _ | .pop _ | .wakeup => false
  | _ => true

section Steps

variable {n : ℕ} {τ : Type*}

/-- The next step of the controller: `start`, `addTask` for each task, `stop`. -/
def controllerStep (s : Pool n τ) : Option (Pool n τ) :=
  match s.controller with
  | .starting k tasks =>
      if h : k < n then
        some { s with
          workers := Function.update s.workers ⟨k, h⟩ .looping
          controller := .starting (k + 1) tasks }
      else some { s with controller := .adding tasks }
  | .adding [] => some { s with controller := .polling }
  | .adding (task :: tasks) =>
      (s.taskQue.step (.push 0 task)).map fun q =>
        { s with taskQue := q, controller := .pushing tasks }
  | .pushing tasks =>
      match s.taskQue.producers 0 with
      | .outside => some { s with controller := .adding tasks }
      | _ => none
  | .polling =>
      if s.taskQue.queue.empty then some { s with controller := .exiting } else some s
  | .exiting => some { s with isExit := true, controller := .waking }
  | .waking =>
      if s.taskQue.waker = .done then some { s with controller := .joining 0 }
      else (s.taskQue.step .wakeup).map fun q => { s with taskQue := q }
  | .joining k =>
      if h : k < n then
        match s.workers ⟨k, h⟩ with
        | .exited => some { s with controller := .joining (k + 1) }
        | _ => none
      else some { s with controller := .stopped }
  | .stopped => none

/-- The next step of `doTask`. -/
def workerStep (edition : Edition) (s : Pool n τ) (i : Fin n) : Option (Pool n τ) :=
  match s.workers i with
  | .unborn | .exited => none
  | .looping =>
      if s.isExit then some { s with workers := Function.update s.workers i .exited }
      else
        (s.taskQue.step (.pop i)).map fun q =>
          { s with taskQue := q, workers := Function.update s.workers i .popping }
  | .popping =>
      match s.taskQue.consumers i with
      | .returned (some task) =>
          some { s with workers := Function.update s.workers i (.running task) }
      | .returned none =>
          if decide (edition = .functions) && s.isExit then
            some { s with workers := Function.update s.workers i .exited }
          else some { s with workers := Function.update s.workers i .looping }
      | _ => none
  | .running task =>
      some { s with
        workers := Function.update s.workers i .looping
        executed := s.executed ++ [task] }

/-- One step. -/
def Pool.step (edition : Edition) (s : Pool n τ) : PoolAction n τ → Option (Pool n τ)
  | .controller => controllerStep s
  | .worker i => workerStep edition s i
  | .queue l =>
      if l.inner then (s.taskQue.step l).map fun q => { s with taskQue := q } else none

end Steps

/-- All interleavings of the controller with the threads of a pool. -/
def threadPool {τ : Type*} (edition : Edition) (n capacity : ℕ) (tasks : List τ) :
    Transition.System (Pool n τ) (PoolAction n τ) :=
  Transition.System.ofFun (Pool.start capacity tasks) (Pool.step edition)

/-- The task a producer is pushing. -/
def Producer.task {τ : Type*} : Producer τ → List τ
  | .outside => []
  | .entering task | .testing task | .asleep task | .woken task => [task]

/-- The tasks the controller has still to add. -/
def Controller.rest {τ : Type*} : Controller τ → List τ
  | .starting _ tasks | .adding tasks | .pushing tasks => tasks
  | _ => []

/-- The controller has seen the queue empty. -/
def Controller.drained {τ : Type*} : Controller τ → Bool
  | .exiting | .waking | .joining _ | .stopped => true
  | _ => false

/-- The controller is in `push`. -/
def Controller.inPush {τ : Type*} : Controller τ → Bool
  | .pushing _ => true
  | _ => false

/-- How many threads have been created. -/
def Controller.created {τ : Type*} (n : ℕ) : Controller τ → ℕ
  | .starting k _ => k
  | _ => n

/-- How many threads have been joined. -/
def Controller.joined {τ : Type*} (n : ℕ) : Controller τ → ℕ
  | .joining k => k
  | .stopped => n
  | _ => 0

/-- The task that a thread has popped and not yet executed. -/
def heldTask {τ : Type*} : Worker τ × Consumer τ → Multiset τ
  | (.popping, .returned (some task)) => {task}
  | (.running task, _) => {task}
  | _ => 0

section

variable {n : ℕ} {τ : Type*} {s t : Pool n τ}

/-- Where the threads of the pool stand in `doTask` and in `pop`. -/
def Pool.threads (s : Pool n τ) : Fin n → Worker τ × Consumer τ :=
  fun i => (s.workers i, s.taskQue.consumers i)

/-- Every given task is still to be added, under way into the queue, in it, held by a
thread, or executed. -/
structure Accounted (tasks : List τ) (s : Pool n τ) : Prop where
  added : s.taskQue.pushed ++ (s.taskQue.producers 0).task ++ s.controller.rest = tasks
  popped : (s.taskQue.popped : Multiset τ) = total heldTask s.threads + s.executed
  calling : ∀ i, (s.taskQue.consumers i).calling = true → s.workers i = .popping
  pushing : s.controller.inPush = false → s.taskQue.producers 0 = .outside
  drained : s.controller.drained = true → s.taskQue.queue.que = []
  unborn : ∀ i : Fin n, s.controller.created n ≤ i → s.workers i = .unborn
  joined : ∀ i : Fin n, (i : ℕ) < s.controller.joined n → s.workers i = .exited

end

/-! ## Steps inside a call of the queue -/

section

variable {n : ℕ} {τ : Type*} {q r : State 1 n τ} {l : Action 1 n τ}

/-- The consumer comes out of no call and holds the same task as before. -/
def Consumer.Keeps (a b : Consumer τ) : Prop :=
  (b.calling = true → a.calling = true) ∧ ∀ w, heldTask (w, b) = heldTask (w, a)

theorem Consumer.Keeps.refl (a : Consumer τ) : a.Keeps a := ⟨id, fun _ => rfl⟩

theorem heldTask_of_calling {w : Worker τ} {a : Consumer τ} (ha : a.calling = true) :
    heldTask (w, a) = heldTask (w, .returned none) := by
  cases w <;> cases a <;> first | rfl | cases ha

/-- A consumer that goes on inside `pop`, or comes back without a task. -/
theorem Consumer.Keeps.of_calling {a b : Consumer τ} (ha : a.calling = true)
    (hb : b.calling = true ∨ b = .returned none) : a.Keeps b := by
  refine ⟨fun _ => ha, fun w => ?_⟩
  rw [heldTask_of_calling ha]
  rcases hb with hb | rfl
  · exact heldTask_of_calling hb
  · rfl

theorem Consumer.Keeps.notify (a : Consumer τ) : a.Keeps ((consumerWaiter τ).notify a) := by
  cases a with
  | asleep => exact Consumer.Keeps.of_calling rfl (Or.inl rfl)
  | _ => exact Consumer.Keeps.refl _

theorem keeps_setConsumer {m : ℕ} {s : State m n τ} {c : Fin n} {a : Consumer τ}
    (h : (s.consumers c).Keeps a) (c' : Fin n) :
    (s.consumers c').Keeps ((s.setConsumer c a).consumers c') :=
  forall_update (P := fun j (b : Consumer τ) => (s.consumers j).Keeps b)
    (fun _ => Consumer.Keeps.refl _) h c'

theorem Producer.task_notify (a : Producer τ) :
    ((producerWaiter τ).notify a).task = a.task := by
  cases a <;> rfl

/-- Inside the calls of the queue a task that is being pushed gets into the queue. -/
theorem inner_push (hl : l.inner = true) (hstep : q.step l = some r) :
    r.pushed ++ (r.producers 0).task = q.pushed ++ (q.producers 0).task ∧
      (q.producers 0 = .outside → r.producers 0 = .outside) := by
  cases l with
  | producer p wake =>
      obtain rfl : p = 0 := Subsingleton.elim p 0
      rcases producerStep_cases hstep with ⟨task, hp, -, rfl⟩ | ⟨task, hp, -, rfl⟩ |
        ⟨task, consumers, hp, -, -, rfl⟩
      · simp only [State.setProducer, Function.update_self]
        rcases hp with hp | hp <;> exact ⟨by rw [hp]; rfl, by simp [hp]⟩
      · simp only [State.setProducer, Function.update_self]
        exact ⟨by rw [hp]; rfl, by simp [hp]⟩
      · simp only [State.setProducer, Function.update_self]
        exact ⟨by rw [hp, List.append_assoc]; rfl, fun _ => trivial⟩
  | consumer c wake =>
      have hnotify : ∀ producers : Fin 1 → Producer τ, (∀ p, producers p = q.producers p ∨
          producers p = (producerWaiter τ).notify (q.producers p)) →
          (producers 0).task = (q.producers 0).task ∧
            (q.producers 0 = .outside → producers 0 = .outside) := by
        intro producers h
        rcases h 0 with heq | heq
        · rw [heq]
          exact ⟨rfl, id⟩
        · rw [heq, Producer.task_notify]
          exact ⟨rfl, fun hout => by rw [hout]; rfl⟩
      rcases consumerStep_cases hstep with ⟨-, -, rfl⟩ | ⟨-, ⟨-, -, rfl⟩ | ⟨-, rfl⟩⟩ |
        ⟨-, rfl⟩ | ⟨-, ⟨task, rest, producers, -, -, hwake, rfl⟩ | ⟨-, rfl⟩⟩
      all_goals first
        | exact ⟨rfl, id⟩
        | obtain ⟨htask, hout⟩ := hnotify producers (Waiter.notifyOne_apply hwake)
          exact ⟨congrArg (q.pushed ++ ·) htask, hout⟩
  | spuriousProducer p =>
      obtain rfl : p = 0 := Subsingleton.elim p 0
      obtain rfl := Option.some.inj hstep
      simp only [State.setProducer, Function.update_self, Producer.task_notify, true_and]
      intro hout
      rw [hout]
      rfl
  | spuriousConsumer c =>
      obtain rfl := Option.some.inj hstep
      exact ⟨rfl, id⟩
  | _ => cases hl

/-- Inside the calls of the queue one consumer at most comes back with a task, which was
the front of the queue. -/
theorem inner_pop (hl : l.inner = true) (hstep : q.step l = some r) :
    (r.popped = q.popped ∧ ∀ c, (q.consumers c).Keeps (r.consumers c)) ∨
      ∃ c task, q.consumers c = .deciding ∧ r.popped = q.popped ++ [task] ∧
        r.consumers = Function.update q.consumers c (.returned (some task)) := by
  cases l with
  | producer p wake =>
      rcases producerStep_cases hstep with ⟨task, -, -, rfl⟩ | ⟨task, -, -, rfl⟩ |
        ⟨task, consumers, -, -, hwake, rfl⟩
      · exact Or.inl ⟨rfl, fun c => Consumer.Keeps.refl _⟩
      · exact Or.inl ⟨rfl, fun c => Consumer.Keeps.refl _⟩
      · refine Or.inl ⟨rfl, fun c => ?_⟩
        rcases Waiter.notifyOne_apply hwake c with heq | heq <;>
          simp only [State.setProducer, heq]
        · exact Consumer.Keeps.refl _
        · exact Consumer.Keeps.notify _
  | consumer c wake =>
      rcases consumerStep_cases hstep with ⟨hc, -, rfl⟩ |
        ⟨hc, ⟨-, -, rfl⟩ | ⟨-, rfl⟩⟩ | ⟨hc, rfl⟩ |
        ⟨hc, ⟨task, rest, producers, -, -, -, rfl⟩ | ⟨-, rfl⟩⟩
      · refine Or.inl ⟨rfl, keeps_setConsumer (Consumer.Keeps.of_calling ?_ (Or.inl rfl))⟩
        rcases hc with hc | hc <;> rw [hc] <;> rfl
      · exact Or.inl ⟨rfl, keeps_setConsumer
          (Consumer.Keeps.of_calling (by rw [hc]; rfl) (Or.inl rfl))⟩
      · exact Or.inl ⟨rfl, keeps_setConsumer
          (Consumer.Keeps.of_calling (by rw [hc]; rfl) (Or.inl rfl))⟩
      · exact Or.inl ⟨rfl, keeps_setConsumer
          (Consumer.Keeps.of_calling (by rw [hc]; rfl) (Or.inl rfl))⟩
      · exact Or.inr ⟨c, task, hc, rfl, rfl⟩
      · exact Or.inl ⟨rfl, keeps_setConsumer
          (Consumer.Keeps.of_calling (by rw [hc]; rfl) (Or.inr rfl))⟩
  | spuriousProducer p =>
      obtain rfl := Option.some.inj hstep
      exact Or.inl ⟨rfl, fun c => Consumer.Keeps.refl _⟩
  | spuriousConsumer c =>
      obtain rfl := Option.some.inj hstep
      exact Or.inl ⟨rfl, keeps_setConsumer (Consumer.Keeps.notify _)⟩
  | _ => cases hl

/-- An empty queue stays empty while nobody pushes. -/
theorem inner_empty (hl : l.inner = true) (hstep : q.step l = some r)
    (hque : q.queue.que = []) (hproducer : q.producers 0 = .outside) :
    r.queue.que = [] := by
  cases l with
  | producer p wake =>
      obtain rfl : p = 0 := Subsingleton.elim p 0
      simp [State.step, producerStep, hproducer] at hstep
  | consumer c wake =>
      rcases consumerStep_cases hstep with ⟨-, -, rfl⟩ | ⟨-, ⟨-, -, rfl⟩ | ⟨-, rfl⟩⟩ |
        ⟨-, rfl⟩ | ⟨-, ⟨task, rest, producers, -, hfront, -, rfl⟩ | ⟨-, rfl⟩⟩
      all_goals first
        | exact hque
        | rw [hque] at hfront
          cases hfront
  | spuriousProducer p =>
      obtain rfl := Option.some.inj hstep
      exact hque
  | spuriousConsumer c =>
      obtain rfl := Option.some.inj hstep
      exact hque
  | _ => cases hl

end

/-! ## What the steps of the pool do -/

section

variable {n : ℕ} {τ : Type*} {edition : Edition} {s t : Pool n τ}

/-- The controller goes on and leaves the queue and the threads alone. -/
inductive Controller.Moves (s : Pool n τ) : Controller τ → Prop
  | started {k : ℕ} {rest : List τ} : s.controller = .starting k rest → n ≤ k →
      Moves s (.adding rest)
  | pushed {rest : List τ} : s.controller = .pushing rest →
      s.taskQue.producers 0 = .outside → Moves s (.adding rest)
  | added : s.controller = .adding [] → Moves s .polling
  | waited : s.controller = .polling → Moves s .polling
  | drained : s.controller = .polling → s.taskQue.queue.que = [] → Moves s .exiting
  | exited : s.controller = .exiting → Moves s .waking
  | woken : s.controller = .waking → Moves s (.joining 0)
  | join {k : ℕ} (h : k < n) : s.controller = .joining k → s.workers ⟨k, h⟩ = .exited →
      Moves s (.joining (k + 1))
  | joined {k : ℕ} : s.controller = .joining k → n ≤ k → Moves s .stopped

theorem controllerStep_cases (hstep : controllerStep s = some t) :
    (∃ c isExit, Controller.Moves s c ∧ t = { s with controller := c, isExit := isExit }) ∨
      (∃ k rest, ∃ h : k < n, s.controller = .starting k rest ∧ t = { s with
        workers := Function.update s.workers ⟨k, h⟩ .looping
        controller := .starting (k + 1) rest }) ∨
      (∃ task rest q, s.controller = .adding (task :: rest) ∧
        s.taskQue.step (.push 0 task) = some q ∧
        t = { s with taskQue := q, controller := .pushing rest }) ∨
      ∃ q, s.taskQue.step .wakeup = some q ∧ t = { s with taskQue := q } := by
  unfold controllerStep at hstep
  split at hstep
  · next k rest hcontroller =>
      split_ifs at hstep with hk <;> obtain rfl := Option.some.inj hstep
      · exact Or.inr (Or.inl ⟨k, rest, hk, hcontroller, rfl⟩)
      · exact Or.inl ⟨_, _, .started hcontroller (Nat.le_of_not_lt hk), rfl⟩
  · next hcontroller =>
      obtain rfl := Option.some.inj hstep
      exact Or.inl ⟨_, _, .added hcontroller, rfl⟩
  · next task rest hcontroller =>
      obtain ⟨q, hq, rfl⟩ := Option.map_eq_some_iff.mp hstep
      exact Or.inr (Or.inr (Or.inl ⟨task, rest, q, hcontroller, hq, rfl⟩))
  · next rest hcontroller =>
      split at hstep
      · next hout =>
          obtain rfl := Option.some.inj hstep
          exact Or.inl ⟨_, _, .pushed hcontroller hout, rfl⟩
      · cases hstep
  · next hcontroller =>
      split_ifs at hstep with hempty <;> obtain rfl := Option.some.inj hstep
      · have hque : s.taskQue.queue.que = [] := by simpa [TaskQueue.empty] using hempty
        exact Or.inl ⟨_, _, .drained hcontroller hque, rfl⟩
      · exact Or.inl ⟨_, _, .waited hcontroller, by rw [← hcontroller]⟩
  · next hcontroller =>
      obtain rfl := Option.some.inj hstep
      exact Or.inl ⟨_, _, .exited hcontroller, rfl⟩
  · next hcontroller =>
      split_ifs at hstep
      · obtain rfl := Option.some.inj hstep
        exact Or.inl ⟨_, _, .woken hcontroller, rfl⟩
      · obtain ⟨q, hq, rfl⟩ := Option.map_eq_some_iff.mp hstep
        exact Or.inr (Or.inr (Or.inr ⟨q, hq, rfl⟩))
  · next k hcontroller =>
      split_ifs at hstep with hk
      · split at hstep
        · next hexited =>
            obtain rfl := Option.some.inj hstep
            exact Or.inl ⟨_, _, .join hk hcontroller hexited, rfl⟩
        · cases hstep
      · obtain rfl := Option.some.inj hstep
        exact Or.inl ⟨_, _, .joined hcontroller (Nat.le_of_not_lt hk), rfl⟩
  · cases hstep

/-- A thread goes on in `doTask` and leaves the queue alone; the list is what it has
executed. -/
inductive Worker.Moves (s : Pool n τ) (i : Fin n) : Worker τ → List τ → Prop
  | leave : s.workers i = .looping → Moves s i .exited []
  | take {task : τ} : s.workers i = .popping →
      s.taskQue.consumers i = .returned (some task) → Moves s i (.running task) []
  | miss {w : Worker τ} : s.workers i = .popping → s.taskQue.consumers i = .returned none →
      w = .looping ∨ w = .exited → Moves s i w []
  | run {task : τ} : s.workers i = .running task → Moves s i .looping [task]

theorem workerStep_cases {i : Fin n} (hstep : workerStep edition s i = some t) :
    (∃ w done, Worker.Moves s i w done ∧ t = { s with
        workers := Function.update s.workers i w
        executed := s.executed ++ done }) ∨
      (s.workers i = .looping ∧ ∃ q, s.taskQue.step (.pop i) = some q ∧ t = { s with
        taskQue := q
        workers := Function.update s.workers i .popping }) := by
  unfold workerStep at hstep
  split at hstep
  · cases hstep
  · cases hstep
  · next hw =>
      split_ifs at hstep
      · obtain rfl := Option.some.inj hstep
        exact Or.inl ⟨_, _, .leave hw, by rw [List.append_nil]⟩
      · obtain ⟨q, hq, rfl⟩ := Option.map_eq_some_iff.mp hstep
        exact Or.inr ⟨hw, q, hq, rfl⟩
  · next hw =>
      split at hstep
      · next task hc =>
          obtain rfl := Option.some.inj hstep
          exact Or.inl ⟨_, _, .take hw hc, by rw [List.append_nil]⟩
      · next hc =>
          split_ifs at hstep <;> obtain rfl := Option.some.inj hstep
          · exact Or.inl ⟨_, _, .miss hw hc (Or.inr rfl), by rw [List.append_nil]⟩
          · exact Or.inl ⟨_, _, .miss hw hc (Or.inl rfl), by rw [List.append_nil]⟩
      · cases hstep
  · next task hw =>
      obtain rfl := Option.some.inj hstep
      exact Or.inl ⟨_, _, .run hw, rfl⟩

theorem queueStep_cases {a : Action 1 n τ} (hstep : s.step edition (.queue a) = some t) :
    a.inner = true ∧ ∃ q, s.taskQue.step a = some q ∧ t = { s with taskQue := q } := by
  simp only [Pool.step] at hstep
  split_ifs at hstep with ha
  obtain ⟨q, hq, rfl⟩ := Option.map_eq_some_iff.mp hstep
  exact ⟨ha, q, hq, rfl⟩

/-- A step of the pool leaves its queue alone or is a step of the queue. -/
theorem taskQue_step {l : PoolAction n τ} (hstep : s.step edition l = some t) :
    t.taskQue = s.taskQue ∨ ∃ a, s.taskQue.step a = some t.taskQue := by
  cases l with
  | controller =>
      rcases controllerStep_cases hstep with ⟨c, isExit, -, rfl⟩ | ⟨k, rest, hk, -, rfl⟩ |
        ⟨task, rest, q, -, hq, rfl⟩ | ⟨q, hq, rfl⟩
      · exact Or.inl rfl
      · exact Or.inl rfl
      · exact Or.inr ⟨_, hq⟩
      · exact Or.inr ⟨_, hq⟩
  | worker i =>
      rcases workerStep_cases hstep with ⟨w, done, -, rfl⟩ | ⟨-, q, hq, rfl⟩
      · exact Or.inl rfl
      · exact Or.inr ⟨_, hq⟩
  | queue a =>
      obtain ⟨-, q, hq, rfl⟩ := queueStep_cases hstep
      exact Or.inr ⟨a, hq⟩

end

/-! ## Steps of the pool -/

namespace Accounted

variable {n : ℕ} {τ : Type*} {tasks : List τ} {s t : Pool n τ}

theorem start (capacity : ℕ) : Accounted tasks (Pool.start capacity tasks : Pool n τ) where
  added := rfl
  popped := by
    have hnone : total heldTask (Pool.start capacity tasks : Pool n τ).threads = 0 :=
      total_eq_zero fun _ => rfl
    rw [hnone]
    rfl
  calling := nofun
  pushing := fun _ => rfl
  drained := nofun
  unborn := fun _ _ => rfl
  joined := fun i hi => absurd hi (Nat.not_lt_zero _)

/-- One thread moves, in `doTask` or in its call of `pop`. `taken` is what goes out of
the queue. -/
theorem setThread (h : Accounted tasks s) {q : State 1 n τ} {i : Fin n} {w : Worker τ}
    {c : Consumer τ} {executed : List τ} {taken : Multiset τ}
    (hconsumers : q.consumers = Function.update s.taskQue.consumers i c)
    (hpopped : (q.popped : Multiset τ) = s.taskQue.popped + taken)
    (hheld : heldTask (w, c) + executed =
      heldTask (s.workers i, s.taskQue.consumers i) + (s.executed + taken))
    (hcalling : c.calling = true → w = .popping)
    (hunborn : s.workers i = .unborn → w = .unborn)
    (hexited : s.workers i = .exited → w = .exited)
    (hadded : q.pushed ++ (q.producers 0).task =
      s.taskQue.pushed ++ (s.taskQue.producers 0).task)
    (hproducer : s.taskQue.producers 0 = .outside → q.producers 0 = .outside)
    (hque : s.controller.drained = true → q.queue.que = []) :
    Accounted tasks { s with
      taskQue := q, workers := Function.update s.workers i w, executed := executed } where
  added := by
    rw [hadded]
    exact h.added
  popped := by
    have hthreads : Pool.threads { s with
        taskQue := q, workers := Function.update s.workers i w, executed := executed } =
          Function.update s.threads i (w, c) := by
      funext j
      by_cases hji : j = i
      · rw [hji]
        simp [Pool.threads, hconsumers]
      · simp [Pool.threads, hconsumers, hji]
    rw [hthreads, total_update_balance heldTask s.threads hheld, hpopped, h.popped, add_assoc]
  calling := by
    intro j hj
    by_cases hji : j = i
    · rw [hji] at hj ⊢
      simp only [hconsumers, Function.update_self] at hj ⊢
      exact hcalling hj
    · simp only [hconsumers, Function.update_of_ne hji] at hj ⊢
      exact h.calling j hj
  pushing := fun hpush => hproducer (h.pushing hpush)
  drained := hque
  unborn := by
    intro j hj
    by_cases hji : j = i
    · rw [hji] at hj ⊢
      simp only [Function.update_self]
      exact hunborn (h.unborn i hj)
    · simp only [Function.update_of_ne hji]
      exact h.unborn j hj
  joined := by
    intro j hj
    by_cases hji : j = i
    · rw [hji] at hj ⊢
      simp only [Function.update_self]
      exact hexited (h.joined i hj)
    · simp only [Function.update_of_ne hji]
      exact h.joined j hj

/-- A thread of the pool moves in `doTask`. -/
theorem setWorker (h : Accounted tasks s) {i : Fin n} {w : Worker τ} {executed : List τ}
    (hheld : heldTask (w, s.taskQue.consumers i) + executed =
      heldTask (s.workers i, s.taskQue.consumers i) + s.executed)
    (hcalling : (s.taskQue.consumers i).calling = true → w = .popping)
    (hunborn : s.workers i = .unborn → w = .unborn)
    (hexited : s.workers i = .exited → w = .exited) :
    Accounted tasks
      { s with workers := Function.update s.workers i w, executed := executed } := by
  refine h.setThread (q := s.taskQue) (Function.update_eq_self i _).symm
    (add_zero _).symm ?_ hcalling hunborn hexited rfl id h.drained
  rwa [add_zero]

/-- The controller moves while no thread and no queue does. -/
theorem setController (h : Accounted tasks s) {c : Controller τ} {isExit : Bool}
    (hrest : c.rest = s.controller.rest)
    (hpush : c.inPush = false → s.taskQue.producers 0 = .outside)
    (hdrained : c.drained = true → s.taskQue.queue.que = [])
    (hcreated : ∀ i : Fin n, c.created n ≤ i → s.controller.created n ≤ i)
    (hjoined : ∀ i : Fin n, (i : ℕ) < c.joined n → s.workers i = .exited) :
    Accounted tasks { s with controller := c, isExit := isExit } where
  added := hrest ▸ h.added
  popped := h.popped
  calling := h.calling
  pushing := hpush
  drained := hdrained
  unborn := fun i hi => h.unborn i (hcreated i hi)
  joined := hjoined

/-- The consumers of the queue move, and none of them comes back with a task. -/
theorem setConsumers (h : Accounted tasks s) {q : State 1 n τ}
    (hkeeps : ∀ c, (s.taskQue.consumers c).Keeps (q.consumers c))
    (hpopped : q.popped = s.taskQue.popped)
    (hadded : q.pushed ++ (q.producers 0).task =
      s.taskQue.pushed ++ (s.taskQue.producers 0).task)
    (hproducer : s.taskQue.producers 0 = .outside → q.producers 0 = .outside)
    (hque : s.controller.drained = true → q.queue.que = []) :
    Accounted tasks { s with taskQue := q } where
  added := by
    rw [hadded]
    exact h.added
  popped := by
    have hsame : total heldTask (Pool.threads { s with taskQue := q }) =
        total heldTask s.threads := total_congr fun i => (hkeeps i).2 (s.workers i)
    rw [hsame, hpopped]
    exact h.popped
  calling := fun i hi => h.calling i ((hkeeps i).1 hi)
  pushing := fun hpush => hproducer (h.pushing hpush)
  drained := hque
  unborn := h.unborn
  joined := h.joined

/-- A step inside a call of the queue. -/
theorem queueStep (h : Accounted tasks s) {l : Action 1 n τ} {q : State 1 n τ}
    (hl : l.inner = true) (hstep : s.taskQue.step l = some q) :
    Accounted tasks { s with taskQue := q } := by
  obtain ⟨hadded, hproducer⟩ := inner_push hl hstep
  have hque : s.controller.drained = true → q.queue.que = [] := by
    intro hdrained
    refine inner_empty hl hstep (h.drained hdrained) (h.pushing ?_)
    cases hc : s.controller <;> rw [hc] at hdrained <;> first | rfl | cases hdrained
  rcases inner_pop hl hstep with ⟨hpopped, hkeeps⟩ | ⟨c, task, hc, hpopped, hconsumers⟩
  · exact h.setConsumers hkeeps hpopped hadded hproducer hque
  · -- the thread that comes back with a task is in its loop's call of pop
    have hworker : s.workers c = .popping := h.calling c (by rw [hc]; rfl)
    have htaken : (q.popped : Multiset τ) = s.taskQue.popped + {task} := by
      rw [hpopped, ← Multiset.coe_add]
      rfl
    have hheld : heldTask (s.workers c, .returned (some task)) + s.executed =
        heldTask (s.workers c, s.taskQue.consumers c) + (s.executed + {task}) := by
      rw [hworker, hc]
      exact (add_comm _ _).trans (zero_add _).symm
    have hstay := h.setThread hconsumers htaken hheld (fun hcalling => by cases hcalling) id id
      hadded hproducer hque
    rwa [Function.update_eq_self] at hstay

/-- A thread moves in `doTask`. -/
theorem moveWorker (h : Accounted tasks s) {i : Fin n} {w : Worker τ} {done : List τ}
    (hmoves : Worker.Moves s i w done) :
    Accounted tasks { s with
      workers := Function.update s.workers i w
      executed := s.executed ++ done } := by
  have hidle : s.workers i ≠ .popping → ¬ (s.taskQue.consumers i).calling = true :=
    fun hw hcalling => hw (h.calling i hcalling)
  cases hmoves with
  | leave hw =>
      refine h.setWorker ?_ (fun hcalling => absurd hcalling (hidle (by simp [hw]))) ?_ ?_ <;>
        rw [hw]
      · rw [List.append_nil]
        rfl
      · simp
      · simp
  | take hw hc =>
      refine h.setWorker ?_ (by simp [hc, Consumer.calling]) ?_ ?_ <;> rw [hw]
      · rw [hc, List.append_nil]
        rfl
      · simp
      · simp
  | miss hw hc hmiss =>
      refine h.setWorker ?_ (by simp [hc, Consumer.calling]) ?_ ?_ <;> rw [hw]
      · rw [hc, List.append_nil]
        rcases hmiss with rfl | rfl <;> rfl
      · simp
      · simp
  | run hw =>
      refine h.setWorker ?_ (fun hcalling => absurd hcalling (hidle (by simp [hw]))) ?_ ?_ <;>
        rw [hw]
      · rw [← Multiset.coe_add]
        exact (zero_add _).trans (add_comm _ _)
      · simp
      · simp

/-- A thread calls `pop`. -/
theorem getTask (h : Accounted tasks s) {i : Fin n} {q : State 1 n τ}
    (hw : s.workers i = .looping) (hstep : s.taskQue.step (.pop i) = some q) :
    Accounted tasks { s with
      taskQue := q
      workers := Function.update s.workers i .popping } := by
  obtain ⟨-, rfl⟩ := pop_cases hstep
  refine h.setThread rfl (add_zero _).symm ?_ (fun _ => rfl) ?_ ?_ rfl id h.drained <;> rw [hw]
  · rw [add_zero]
    rfl
  · simp
  · simp

/-- The controller calls `push` with the first of the tasks it has still to add. -/
theorem addTask (h : Accounted tasks s) {task : τ} {rest : List τ} {q : State 1 n τ}
    (hcontroller : s.controller = .adding (task :: rest))
    (hstep : s.taskQue.step (.push 0 task) = some q) :
    Accounted tasks { s with taskQue := q, controller := .pushing rest } := by
  obtain ⟨hout, rfl⟩ := push_cases hstep
  refine ⟨?_, h.popped, h.calling, by simp [Controller.inPush], by simp [Controller.drained],
    fun i hi => h.unborn i ?_, fun i hi => ?_⟩
  · have hadded := h.added
    rw [hout, hcontroller] at hadded
    simpa [State.setProducer, Producer.task, Controller.rest] using hadded
  · rw [hcontroller]
    exact hi
  · cases hi

/-- `wakeup` takes no task out of the queue and puts none in. -/
theorem wakeup (h : Accounted tasks s) {q : State 1 n τ}
    (hstep : s.taskQue.step .wakeup = some q) : Accounted tasks { s with taskQue := q } := by
  rcases wakeupStep_cases hstep with ⟨-, rfl⟩ | ⟨-, rfl⟩
  · exact h.setConsumers (fun _ => Consumer.Keeps.refl _) rfl rfl id h.drained
  · exact h.setConsumers (fun _ => Consumer.Keeps.notify _) rfl rfl id h.drained

/-- `start` creates the next thread. -/
theorem createThread (h : Accounted tasks s) {k : ℕ} {rest : List τ} (hk : k < n)
    (hcontroller : s.controller = .starting k rest) :
    Accounted tasks { s with
      workers := Function.update s.workers ⟨k, hk⟩ .looping
      controller := .starting (k + 1) rest } := by
  have hunborn : s.workers ⟨k, hk⟩ = .unborn := h.unborn _ (by rw [hcontroller]; exact le_rfl)
  have hidle : (s.taskQue.consumers ⟨k, hk⟩).calling ≠ true := by
    intro hcalling
    have hpopping := h.calling _ hcalling
    rw [hunborn] at hpopping
    cases hpopping
  refine ⟨?_, ?_, ?_, ?_, by simp [Controller.drained], ?_,
    fun i hi => absurd hi (Nat.not_lt_zero _)⟩
  · have hadded := h.added
    rw [hcontroller] at hadded
    exact hadded
  · have hsame : ∀ i, heldTask (Function.update s.workers ⟨k, hk⟩ .looping i,
        s.taskQue.consumers i) = heldTask (s.workers i, s.taskQue.consumers i) := by
      intro i
      by_cases hi : i = ⟨k, hk⟩
      · rw [hi, Function.update_self, hunborn]
        rfl
      · rw [Function.update_of_ne hi]
    rw [h.popped]
    exact congrArg (· + (s.executed : Multiset τ)) (total_congr hsame).symm
  · exact forall_update
      (P := fun i (w : Worker τ) => (s.taskQue.consumers i).calling = true → w = .popping)
      h.calling fun hcalling => absurd hcalling hidle
  · exact fun _ => h.pushing (by rw [hcontroller]; rfl)
  · intro i hi
    have hne : i ≠ ⟨k, hk⟩ := by
      rintro rfl
      exact absurd hi (Nat.not_succ_le_self k)
    simp only [Function.update_of_ne hne]
    exact h.unborn i (by rw [hcontroller]; exact Nat.le_of_succ_le hi)

/-- The controller moves in `start`, `addTask` or `stop`. -/
theorem moveController (h : Accounted tasks s) {c : Controller τ} {isExit : Bool}
    (hmoves : Controller.Moves s c) :
    Accounted tasks { s with controller := c, isExit := isExit } := by
  have hidle := h.pushing
  have hdrained := h.drained
  have hjoined := h.joined
  have hnone : ∀ i : Fin n, (i : ℕ) < 0 → s.workers i = .exited :=
    fun i hi => absurd hi (Nat.not_lt_zero _)
  cases hmoves with
  | started hcontroller hk =>
      rw [hcontroller] at hidle
      exact h.setController (by rw [hcontroller]; rfl) (fun _ => hidle rfl)
        (by simp [Controller.drained]) (fun i hi => absurd hi (Nat.not_le_of_lt i.isLt)) hnone
  | pushed hcontroller hout =>
      exact h.setController (by rw [hcontroller]; rfl) (fun _ => hout)
        (by simp [Controller.drained]) (by rw [hcontroller]; exact fun _ => id) hnone
  | added hcontroller =>
      rw [hcontroller] at hidle
      exact h.setController (by rw [hcontroller]; rfl) (fun _ => hidle rfl)
        (by simp [Controller.drained]) (by rw [hcontroller]; exact fun _ => id) hnone
  | waited hcontroller =>
      rw [hcontroller] at hidle
      exact h.setController (by rw [hcontroller]) (fun _ => hidle rfl)
        (by simp [Controller.drained]) (by rw [hcontroller]; exact fun _ => id) hnone
  | drained hcontroller hque =>
      rw [hcontroller] at hidle
      exact h.setController (by rw [hcontroller]; rfl) (fun _ => hidle rfl) (fun _ => hque)
        (by rw [hcontroller]; exact fun _ => id) hnone
  | exited hcontroller =>
      rw [hcontroller] at hidle hdrained
      exact h.setController (by rw [hcontroller]; rfl) (fun _ => hidle rfl)
        (fun _ => hdrained rfl) (by rw [hcontroller]; exact fun _ => id) hnone
  | woken hcontroller =>
      rw [hcontroller] at hidle hdrained
      exact h.setController (by rw [hcontroller]; rfl) (fun _ => hidle rfl)
        (fun _ => hdrained rfl) (by rw [hcontroller]; exact fun _ => id) hnone
  | @join k hk hcontroller hexited =>
      rw [hcontroller] at hidle hdrained hjoined
      refine h.setController (by rw [hcontroller]; rfl) (fun _ => hidle rfl)
        (fun _ => hdrained rfl) (by rw [hcontroller]; exact fun _ => id) fun i hi => ?_
      rcases Nat.lt_succ_iff_lt_or_eq.mp hi with hlt | heq
      · exact hjoined i hlt
      · obtain rfl : i = ⟨k, hk⟩ := Fin.ext heq
        exact hexited
  | joined hcontroller hk =>
      rw [hcontroller] at hidle hdrained hjoined
      exact h.setController (by rw [hcontroller]; rfl) (fun _ => hidle rfl)
        (fun _ => hdrained rfl) (by rw [hcontroller]; exact fun _ => id)
        fun i _ => hjoined i (lt_of_lt_of_le i.isLt hk)

theorem step (h : Accounted tasks s) {edition : Edition} {l : PoolAction n τ}
    (hstep : s.step edition l = some t) : Accounted tasks t := by
  cases l with
  | controller =>
      rcases controllerStep_cases hstep with ⟨c, isExit, hmoves, rfl⟩ |
        ⟨k, rest, hk, hcontroller, rfl⟩ | ⟨task, rest, q, hcontroller, hq, rfl⟩ | ⟨q, hq, rfl⟩
      · exact h.moveController hmoves
      · exact h.createThread hk hcontroller
      · exact h.addTask hcontroller hq
      · exact h.wakeup hq
  | worker i =>
      rcases workerStep_cases hstep with ⟨w, done, hmoves, rfl⟩ | ⟨hw, q, hq, rfl⟩
      · exact h.moveWorker hmoves
      · exact h.getTask hw hq
  | queue l =>
      obtain ⟨hl, q, hq, rfl⟩ := queueStep_cases hstep
      exact h.queueStep hl hq

end Accounted

section

variable {n capacity : ℕ} {τ : Type*} {edition : Edition} {tasks : List τ} {s t : Pool n τ}

/-- What holds in every reachable state of the pool. -/
theorem reachable_accounted
    (h : Transition.Reachable (threadPool edition n capacity tasks) s) :
    Accounted tasks s ∧ Transition.Reachable (taskQueue 1 n capacity) s.taskQue := by
  refine Transition.Inductive.reachable (I := fun s => Accounted tasks s ∧
    Transition.Reachable (taskQueue 1 n capacity) s.taskQue) ⟨?_, ?_⟩ h
  · rintro _ rfl
    exact ⟨Accounted.start capacity, _, [], rfl, .nil _⟩
  · intro s l t hinv hstep
    refine ⟨hinv.1.step hstep, ?_⟩
    rcases taskQue_step hstep with hsame | ⟨a, ha⟩
    · rw [hsame]
      exact hinv.2
    · exact hinv.2.step ha

/-- When `stop` has returned, each added task has been executed exactly once and none is
left in the queue. -/
theorem stop_waits (h : Transition.Reachable (threadPool edition n capacity tasks) s)
    (hstopped : s.controller = .stopped) :
    s.executed.Perm tasks ∧ s.taskQue.queue.que = [] := by
  obtain ⟨haccounted, hqueue⟩ := reachable_accounted h
  have hempty : s.taskQue.queue.que = [] := haccounted.drained (by rw [hstopped]; rfl)
  have hpushed : s.taskQue.pushed = tasks := by
    have hadded := haccounted.added
    rw [haccounted.pushing (by rw [hstopped]; rfl), hstopped] at hadded
    simpa [Producer.task, Controller.rest] using hadded
  have hpopped : s.taskQue.popped = tasks := by
    have hfifo := (reachable_inv hqueue).2.1.fifo
    rwa [hempty, List.append_nil, hpushed] at hfifo
  -- a joined thread has executed whatever it had popped
  have hheld : total heldTask s.threads = 0 := by
    refine total_eq_zero fun i => ?_
    have hexited : s.workers i = .exited := haccounted.joined i (by rw [hstopped]; exact i.isLt)
    simp only [Pool.threads, hexited]
    rfl
  refine ⟨Multiset.coe_eq_coe.mp ?_, hempty⟩
  have hbalance := haccounted.popped
  rw [hheld, zero_add, hpopped] at hbalance
  exact hbalance.symm

end

/-- The queue is empty and `m_isExit` set while the only thread still executes the task. -/
theorem stop_waits_one : ∃ s : Pool 1 ℕ,
    Transition.Reachable (threadPool .functions 1 1 [7]) s ∧ s.controller = .stopped ∧
    s.executed.Perm [7] ∧ s.taskQue.queue.que = [] := by
  have hreach : Transition.Reachable (threadPool .functions 1 1 [7]) _ :=
    Transition.reachable_ofFun_iff.mpr ⟨[.controller, .controller, .controller,
      .queue (.producer 0 none), .queue (.producer 0 none), .controller, .controller,
      .worker (0 : Fin 1), .queue (.consumer 0 none), .queue (.consumer 0 none),
      .queue (.consumer 0 none), .worker 0, .controller, .controller, .controller,
      .controller, .controller, .worker 0, .worker 0, .controller, .controller], rfl⟩
  exact ⟨_, hreach, rfl, stop_waits hreach rfl⟩

end TaskQueuePool

end ProcessThreadPool
