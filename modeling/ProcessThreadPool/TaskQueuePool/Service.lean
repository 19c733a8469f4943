import ProcessThreadPool.TaskQueuePool.TaskQueue

/-!
# The task queue in service

As long as `wakeup` has not been called, a queue with elements has a consumer on its way
to them, and a queue with room has a producer on its way to it, whenever there is a
thread in `pop` or `push` at all. Each push and each pop notifies one thread, and a thread
that takes an element or a slot without having been notified is itself one of those that
are awake.
-/

namespace ProcessThreadPool

namespace TaskQueuePool

section

variable {m n : ℕ} {τ : Type*} {s t : State m n τ}

/-- Who is inside a critical section of `m_mtx`. -/
def State.inside (s : State m n τ) : Fin m ⊕ Fin n → Bool :=
  Sum.elim (fun p => (s.producers p).holds) fun c => (s.consumers c).holds

/-- What a consumer has seen of the queue is still so. -/
def Consumer.Knows (q : TaskQueue τ) : Consumer τ → Prop
  | .blocking => q.que = []
  | .deciding => q.que ≠ [] ∨ q.flag = false
  | _ => True

/-- The mutex is held by whoever is inside, and what a consumer there has seen is still
so. -/
structure Guarded (s : State m n τ) : Prop where
  exclusive : Exclusive s.inside s.mutex
  knows : ∀ c, (s.consumers c).Knows s.queue
  flag : s.queue.flag = true ↔ s.waker = .idle

/-- The queue is a bounded first-in first-out queue, and on both of its condition
variables the awake threads suffice for what there is. -/
structure Balanced (s : State m n τ) : Prop where
  bounded : s.queue.que.length ≤ s.queue.capacity
  fifo : s.popped ++ s.queue.que = s.pushed
  producers : (producerWaiter τ).Served s.producers (s.queue.capacity - s.queue.que.length)
  consumers : s.waker = .idle → (consumerWaiter τ).Served s.consumers s.queue.que.length

/-- What a step of `push` does. -/
theorem producerStep_cases {p : Fin m} {wake : Option (Fin n)}
    (hstep : producerStep s p wake = some t) :
    (∃ task, (s.producers p = .entering task ∨ s.producers p = .woken task) ∧
        s.mutex = none ∧
        t = State.setProducer { s with mutex := some (.inl p) } p (.testing task)) ∨
      (∃ task, s.producers p = .testing task ∧ s.queue.que.length = s.queue.capacity ∧
        t = State.setProducer { s with mutex := none } p (.asleep task)) ∨
      ∃ task consumers, s.producers p = .testing task ∧
        s.queue.que.length ≠ s.queue.capacity ∧
        (consumerWaiter τ).notifyOne s.consumers wake = some consumers ∧
        t = State.setProducer { s with
          queue := { s.queue with que := s.queue.que ++ [task] }
          mutex := none
          consumers := consumers
          pushed := s.pushed ++ [task] } p .outside := by
  cases hp : s.producers p with
  | entering task =>
      simp only [producerStep, hp] at hstep
      split_ifs at hstep with hmutex
      rw [Option.isSome_iff_ne_none, not_not] at hmutex
      exact Or.inl ⟨task, Or.inl rfl, hmutex, (Option.some.inj hstep).symm⟩
  | woken task =>
      simp only [producerStep, hp] at hstep
      split_ifs at hstep with hmutex
      rw [Option.isSome_iff_ne_none, not_not] at hmutex
      exact Or.inl ⟨task, Or.inr rfl, hmutex, (Option.some.inj hstep).symm⟩
  | testing task =>
      simp only [producerStep, hp, TaskQueue.full, decide_eq_true_eq] at hstep
      split_ifs at hstep with hfull
      · exact Or.inr (Or.inl ⟨task, rfl, hfull, (Option.some.inj hstep).symm⟩)
      · obtain ⟨consumers, hnotify, rfl⟩ := Option.map_eq_some_iff.mp hstep
        exact Or.inr (Or.inr ⟨task, consumers, rfl, hfull, hnotify, rfl⟩)
  | _ => simp [producerStep, hp] at hstep

/-- What a step of `pop` does. -/
theorem consumerStep_cases {c : Fin n} {wake : Option (Fin m)}
    (hstep : consumerStep s c wake = some t) :
    ((s.consumers c = .entering ∨ s.consumers c = .woken) ∧ s.mutex = none ∧
        t = State.setConsumer { s with mutex := some (.inr c) } c .testing) ∨
      (s.consumers c = .testing ∧
        (s.queue.que = [] ∧ s.queue.flag = true ∧ t = s.setConsumer c .blocking ∨
          (s.queue.que ≠ [] ∨ s.queue.flag = false) ∧ t = s.setConsumer c .deciding)) ∨
      (s.consumers c = .blocking ∧
        t = State.setConsumer { s with mutex := none } c .asleep) ∨
      (s.consumers c = .deciding ∧
        ((∃ task rest producers, s.queue.flag = true ∧ s.queue.que = task :: rest ∧
            (producerWaiter τ).notifyOne s.producers wake = some producers ∧
            t = State.setConsumer { s with
              queue := { s.queue with que := rest }
              mutex := none
              producers := producers
              popped := s.popped ++ [task] } c (.returned (some task))) ∨
          s.queue.flag = false ∧
            t = State.setConsumer { s with mutex := none } c (.returned none))) := by
  cases hc : s.consumers c with
  | entering =>
      simp only [consumerStep, hc] at hstep
      split_ifs at hstep with hmutex
      rw [Option.isSome_iff_ne_none, not_not] at hmutex
      exact Or.inl ⟨Or.inl rfl, hmutex, (Option.some.inj hstep).symm⟩
  | woken =>
      simp only [consumerStep, hc] at hstep
      split_ifs at hstep with hmutex
      rw [Option.isSome_iff_ne_none, not_not] at hmutex
      exact Or.inl ⟨Or.inr rfl, hmutex, (Option.some.inj hstep).symm⟩
  | testing =>
      simp only [consumerStep, hc, TaskQueue.empty, Bool.and_eq_true, decide_eq_true_eq,
        List.length_eq_zero_iff] at hstep
      split_ifs at hstep with htest
      · exact Or.inr (Or.inl ⟨rfl, Or.inl ⟨htest.1, htest.2, (Option.some.inj hstep).symm⟩⟩)
      · rw [not_and_or, Bool.not_eq_true] at htest
        exact Or.inr (Or.inl ⟨rfl, Or.inr ⟨htest, (Option.some.inj hstep).symm⟩⟩)
  | blocking =>
      simp only [consumerStep, hc] at hstep
      exact Or.inr (Or.inr (Or.inl ⟨rfl, (Option.some.inj hstep).symm⟩))
  | deciding =>
      simp only [consumerStep, hc] at hstep
      refine Or.inr (Or.inr (Or.inr ⟨rfl, ?_⟩))
      split_ifs at hstep with hflag
      · cases hque : s.queue.que with
        | nil => simp [hque] at hstep
        | cons task rest =>
            simp only [hque] at hstep
            obtain ⟨producers, hnotify, rfl⟩ := Option.map_eq_some_iff.mp hstep
            exact Or.inl ⟨task, rest, producers, hflag, rfl, hnotify, rfl⟩
      · exact Or.inr ⟨Bool.eq_false_of_not_eq_true hflag, (Option.some.inj hstep).symm⟩
  | _ => simp [consumerStep, hc] at hstep

/-- A call of `push` begins. -/
theorem push_cases {p : Fin m} {task : τ} (hstep : s.step (.push p task) = some t) :
    s.producers p = .outside ∧ t = s.setProducer p (.entering task) := by
  cases hp : s.producers p <;> simp only [State.step, hp, reduceCtorEq] at hstep
  exact ⟨rfl, (Option.some.inj hstep).symm⟩

/-- A call of `pop` begins. -/
theorem pop_cases {c : Fin n} (hstep : s.step (.pop c) = some t) :
    (s.consumers c = .outside ∨ ∃ task, s.consumers c = .returned task) ∧
      t = s.setConsumer c .entering := by
  cases hc : s.consumers c <;> simp only [State.step, hc, reduceCtorEq] at hstep
  · exact ⟨Or.inl rfl, (Option.some.inj hstep).symm⟩
  · exact ⟨Or.inr ⟨_, rfl⟩, (Option.some.inj hstep).symm⟩

/-- The two steps of `wakeup`. -/
theorem wakeupStep_cases (hstep : wakeupStep s = some t) :
    s.waker = .idle ∧
        t = { s with queue := { s.queue with flag := false }, waker := .stored } ∨
      s.waker = .stored ∧
        t = { s with consumers := (consumerWaiter τ).notifyAll s.consumers, waker := .done } := by
  cases hw : s.waker with
  | done => simp [wakeupStep, hw] at hstep
  | idle =>
      simp only [wakeupStep, hw, Option.some.injEq] at hstep
      exact Or.inl ⟨rfl, hstep.symm⟩
  | stored =>
      simp only [wakeupStep, hw, Option.some.injEq] at hstep
      exact Or.inr ⟨rfl, hstep.symm⟩

theorem inside_setProducer (p : Fin m) (a : Producer τ) :
    (s.setProducer p a).inside = Function.update s.inside (.inl p) a.holds := by
  funext x
  rcases x with p' | c
  · simp only [State.inside, State.setProducer, Sum.elim_inl, Function.update_apply,
      Sum.inl.injEq]
    split_ifs <;> rfl
  · rfl

theorem inside_setConsumer (c : Fin n) (a : Consumer τ) :
    (s.setConsumer c a).inside = Function.update s.inside (.inr c) a.holds := by
  funext x
  rcases x with p | c'
  · rfl
  · simp only [State.inside, State.setConsumer, Sum.elim_inr, Function.update_apply,
      Sum.inr.injEq]
    split_ifs <;> rfl

theorem Producer.holds_notify (a : Producer τ) :
    ((producerWaiter τ).notify a).holds = a.holds := by
  cases a <;> rfl

theorem Consumer.holds_notify (a : Consumer τ) :
    ((consumerWaiter τ).notify a).holds = a.holds := by
  cases a <;> rfl

theorem inside_of_producers {producers : Fin m → Producer τ}
    (h : ∀ p, (producers p).holds = (s.producers p).holds) :
    State.inside { s with producers := producers } = s.inside := by
  funext x
  rcases x with p | c
  · exact h p
  · rfl

theorem inside_of_consumers {consumers : Fin n → Consumer τ}
    (h : ∀ c, (consumers c).holds = (s.consumers c).holds) :
    State.inside { s with consumers := consumers } = s.inside := by
  funext x
  rcases x with p | c
  · rfl
  · exact h c

namespace Consumer.Knows

variable {q q' : TaskQueue τ} {a : Consumer τ}

theorem of_not_holds (h : a.holds = false) : a.Knows q := by
  cases a <;> trivial

theorem notify (h : a.Knows q) : ((consumerWaiter τ).notify a).Knows q := by
  cases a <;> exact h

theorem clearFlag (h : a.Knows q) : a.Knows { q with flag := false } := by
  cases a <;> first | exact h | exact Or.inr rfl

end Consumer.Knows

namespace Guarded

theorem start (capacity : ℕ) : Guarded (State.start capacity : State m n τ) := by
  refine ⟨?_, fun _ => trivial, iff_of_true rfl rfl⟩
  rintro (p | c) h <;> cases h

/-- While a producer is inside, no consumer is. -/
theorem consumer_outside (h : Guarded s) {p : Fin m} (hp : (s.producers p).holds = true)
    (c : Fin n) : (s.consumers c).holds = false := by
  by_contra hc
  rw [Bool.not_eq_false] at hc
  have hinl : s.inside (.inl p) = true := hp
  have hinr : s.inside (.inr c) = true := hc
  cases h.exclusive.eq hinl hinr

/-- While a consumer is inside, no other one is. -/
theorem other_outside (h : Guarded s) {c c' : Fin n} (hc : (s.consumers c).holds = true)
    (hne : c' ≠ c) : (s.consumers c').holds = false := by
  by_contra hc'
  rw [Bool.not_eq_false] at hc'
  have hin : s.inside (.inr c) = true := hc
  have hin' : s.inside (.inr c') = true := hc'
  exact hne (Sum.inr.inj (h.exclusive.eq hin' hin))

theorem producerStep (h : Guarded s) {p : Fin m} {wake : Option (Fin n)}
    (hstep : TaskQueuePool.producerStep s p wake = some t) : Guarded t := by
  rcases producerStep_cases hstep with ⟨task, hp, hfree, rfl⟩ | ⟨task, hp, -, rfl⟩ |
    ⟨task, consumers, hp, -, hnotify, rfl⟩
  · refine ⟨?_, h.knows, h.flag⟩
    have hexclusive := h.exclusive
    rw [hfree] at hexclusive
    rw [inside_setProducer]
    exact hexclusive.acquire _
  · refine ⟨?_, h.knows, h.flag⟩
    rw [inside_setProducer]
    exact h.exclusive.release (by simp [State.inside, hp, Producer.holds])
  · have hholds : (s.producers p).holds = true := by rw [hp]; rfl
    have hsame : ∀ c, (consumers c).holds = (s.consumers c).holds := by
      intro c
      rcases Waiter.notifyOne_apply hnotify c with heq | heq
      · rw [heq]
      · rw [heq, Consumer.holds_notify]
    refine ⟨?_, fun c => ?_, h.flag⟩
    · rw [inside_setProducer]
      have hexclusive : Exclusive (State.inside { s with consumers := consumers }) s.mutex := by
        rw [inside_of_consumers hsame]
        exact h.exclusive
      exact hexclusive.release hholds
    · exact Consumer.Knows.of_not_holds ((hsame c).trans (h.consumer_outside hholds c))

theorem consumerStep (h : Guarded s) {c : Fin n} {wake : Option (Fin m)}
    (hstep : TaskQueuePool.consumerStep s c wake = some t) : Guarded t := by
  have hrelease : s.inside (.inr c) = true →
      Exclusive (Function.update s.inside (.inr c) false) none := h.exclusive.release
  rcases consumerStep_cases hstep with ⟨-, hfree, rfl⟩ |
    ⟨hc, ⟨hque, hflag, rfl⟩ | ⟨hgo, rfl⟩⟩ | ⟨hc, rfl⟩ |
    ⟨hc, ⟨task, rest, producers, -, -, hnotify, rfl⟩ | ⟨-, rfl⟩⟩
  · refine ⟨?_, ThreadFamily.forall_update h.knows trivial, h.flag⟩
    have hexclusive := h.exclusive
    rw [hfree] at hexclusive
    rw [inside_setConsumer]
    exact hexclusive.acquire _
  · refine ⟨?_, ThreadFamily.forall_update h.knows hque, h.flag⟩
    rw [inside_setConsumer]
    exact h.exclusive.move fun _ => by simp [State.inside, hc, Consumer.holds]
  · refine ⟨?_, ThreadFamily.forall_update h.knows hgo, h.flag⟩
    rw [inside_setConsumer]
    exact h.exclusive.move fun _ => by simp [State.inside, hc, Consumer.holds]
  · refine ⟨?_, ThreadFamily.forall_update h.knows trivial, h.flag⟩
    rw [inside_setConsumer]
    exact hrelease (by simp [State.inside, hc, Consumer.holds])
  · have hholds : (s.consumers c).holds = true := by rw [hc]; rfl
    have hsame : ∀ p, (producers p).holds = (s.producers p).holds := by
      intro p
      rcases Waiter.notifyOne_apply hnotify p with heq | heq
      · rw [heq]
      · rw [heq, Producer.holds_notify]
    refine ⟨?_, fun c' => ?_, h.flag⟩
    · rw [inside_setConsumer]
      have hexclusive : Exclusive (State.inside { s with producers := producers }) s.mutex := by
        rw [inside_of_producers hsame]
        exact h.exclusive
      exact hexclusive.release hholds
    · by_cases hne : c' = c
      · rw [hne, State.setConsumer]
        simp only [Function.update_self]
        trivial
      · simp only [State.setConsumer, Function.update_of_ne hne]
        exact Consumer.Knows.of_not_holds (h.other_outside hholds hne)
  · refine ⟨?_, ThreadFamily.forall_update h.knows trivial, h.flag⟩
    rw [inside_setConsumer]
    exact hrelease (by simp [State.inside, hc, Consumer.holds])

theorem step (h : Guarded s) {l : Action m n τ} (hstep : s.step l = some t) : Guarded t := by
  cases l with
  | push p task =>
      obtain ⟨-, rfl⟩ := push_cases hstep
      refine ⟨?_, h.knows, h.flag⟩
      rw [inside_setProducer]
      exact h.exclusive.move nofun
  | producer p wake => exact h.producerStep hstep
  | pop c =>
      obtain ⟨-, rfl⟩ := pop_cases hstep
      refine ⟨?_, ThreadFamily.forall_update h.knows trivial, h.flag⟩
      rw [inside_setConsumer]
      exact h.exclusive.move nofun
  | consumer c wake => exact h.consumerStep hstep
  | spuriousProducer p =>
      obtain rfl := Option.some.inj hstep
      refine ⟨?_, h.knows, h.flag⟩
      rw [inside_setProducer, Producer.holds_notify]
      exact h.exclusive.move id
  | spuriousConsumer c =>
      obtain rfl := Option.some.inj hstep
      refine ⟨?_, ThreadFamily.forall_update h.knows (h.knows c).notify, h.flag⟩
      rw [inside_setConsumer, Consumer.holds_notify]
      exact h.exclusive.move id
  | wakeup =>
      rcases wakeupStep_cases hstep with ⟨-, rfl⟩ | ⟨hw, rfl⟩
      · exact ⟨h.exclusive, fun c => (h.knows c).clearFlag, iff_of_false nofun nofun⟩
      · refine ⟨?_, fun c => (h.knows c).notify, ?_⟩
        · have hsame : ∀ c, ((consumerWaiter τ).notifyAll s.consumers c).holds =
              (s.consumers c).holds := fun c => Consumer.holds_notify _
          have hexclusive := h.exclusive
          rw [← inside_of_consumers hsame] at hexclusive
          exact hexclusive
        · rw [h.flag, hw]
          exact iff_of_false nofun nofun

end Guarded

namespace Balanced

theorem start (capacity : ℕ) : Balanced (State.start capacity : State m n τ) :=
  ⟨Nat.zero_le _, rfl, Waiter.Served.of_none_asleep fun _ => rfl,
    fun _ => Waiter.Served.of_zero⟩

theorem producerStep (h : Balanced s) {p : Fin m} {wake : Option (Fin n)}
    (hstep : TaskQueuePool.producerStep s p wake = some t) : Balanced t := by
  rcases producerStep_cases hstep with ⟨task, hp, -, rfl⟩ | ⟨task, hp, hfull, rfl⟩ |
    ⟨task, consumers, hp, hroom, hnotify, rfl⟩
  · exact ⟨h.bounded, h.fifo, h.producers.move rfl fun _ => rfl, h.consumers⟩
  · refine ⟨h.bounded, h.fifo, ?_, h.consumers⟩
    have hzero : s.queue.capacity - s.queue.que.length = 0 := by omega
    simp only [State.setProducer, hzero]
    exact Waiter.Served.of_zero
  · have hbounded := h.bounded
    have hlength : (s.queue.que ++ [task]).length = s.queue.que.length + 1 := by simp
    refine ⟨?_, ?_, ?_, fun hidle => ?_⟩
    · simp only [State.setProducer, hlength]
      omega
    · simp only [State.setProducer]
      rw [← List.append_assoc, h.fifo]
    · -- the slot that the producer fills is the one it came for
      have hproducers := h.producers
      have hsupply : s.queue.capacity - s.queue.que.length =
          s.queue.capacity - (s.queue.que.length + 1) + 1 := by omega
      rw [hsupply] at hproducers
      simp only [State.setProducer, hlength]
      exact hproducers.take (by rw [hp]; rfl) rfl
    · simp only [State.setProducer, hlength]
      exact (h.consumers hidle).notifyOne hnotify

theorem consumerStep (h : Balanced s) (hguarded : Guarded s) {c : Fin n}
    {wake : Option (Fin m)} (hstep : TaskQueuePool.consumerStep s c wake = some t) :
    Balanced t := by
  rcases consumerStep_cases hstep with ⟨hc, -, rfl⟩ |
    ⟨hc, ⟨-, -, rfl⟩ | ⟨-, rfl⟩⟩ | ⟨hc, rfl⟩ |
    ⟨hc, ⟨task, rest, producers, -, hque, hnotify, rfl⟩ | ⟨hflag, rfl⟩⟩
  · exact ⟨h.bounded, h.fifo, h.producers, fun hidle =>
      (h.consumers hidle).move rfl fun _ => rfl⟩
  · exact ⟨h.bounded, h.fifo, h.producers, fun hidle =>
      (h.consumers hidle).move rfl fun _ => rfl⟩
  · exact ⟨h.bounded, h.fifo, h.producers, fun hidle =>
      (h.consumers hidle).move rfl fun _ => rfl⟩
  · refine ⟨h.bounded, h.fifo, h.producers, fun _ => ?_⟩
    have hempty := hguarded.knows c
    rw [hc] at hempty
    have hzero : s.queue.que.length = 0 := by rw [show s.queue.que = [] from hempty]; rfl
    simp only [State.setConsumer, hzero]
    exact Waiter.Served.of_zero
  · have hbounded := h.bounded
    have hfifo := h.fifo
    have hproducers := h.producers
    rw [hque, List.length_cons] at hbounded hproducers
    rw [hque] at hfifo
    refine ⟨?_, ?_, ?_, fun hidle => ?_⟩
    · exact (Nat.le_succ _).trans hbounded
    · simpa [State.setConsumer] using hfifo
    · have hsupply : s.queue.capacity - rest.length =
          s.queue.capacity - (rest.length + 1) + 1 := by omega
      simp only [State.setConsumer, hsupply]
      exact hproducers.notifyOne hnotify
    · have hconsumers := h.consumers hidle
      rw [hque, List.length_cons] at hconsumers
      exact hconsumers.take (by rw [hc]; rfl) rfl
  · refine ⟨h.bounded, h.fifo, h.producers, fun hidle => ?_⟩
    rw [hguarded.flag.mpr hidle] at hflag
    cases hflag

theorem step (h : Balanced s) (hguarded : Guarded s) {l : Action m n τ}
    (hstep : s.step l = some t) : Balanced t := by
  cases l with
  | push p task =>
      obtain ⟨-, rfl⟩ := push_cases hstep
      exact ⟨h.bounded, h.fifo, h.producers.move rfl fun _ => rfl, h.consumers⟩
  | producer p wake => exact h.producerStep hstep
  | pop c =>
      obtain ⟨-, rfl⟩ := pop_cases hstep
      exact ⟨h.bounded, h.fifo, h.producers, fun hidle =>
        (h.consumers hidle).move rfl fun _ => rfl⟩
  | consumer c wake => exact h.consumerStep hguarded hstep
  | spuriousProducer p =>
      obtain rfl := Option.some.inj hstep
      exact ⟨h.bounded, h.fifo, h.producers.notify p, h.consumers⟩
  | spuriousConsumer c =>
      obtain rfl := Option.some.inj hstep
      exact ⟨h.bounded, h.fifo, h.producers, fun hidle => (h.consumers hidle).notify c⟩
  | wakeup =>
      rcases wakeupStep_cases hstep with ⟨-, rfl⟩ | ⟨-, rfl⟩
      · exact ⟨h.bounded, h.fifo, h.producers, nofun⟩
      · exact ⟨h.bounded, h.fifo, h.producers, nofun⟩

end Balanced

/-- No step changes the capacity, and only `wakeup` moves its own caller. -/
theorem step_frame {l : Action m n τ} (hstep : s.step l = some t) :
    t.queue.capacity = s.queue.capacity ∧ (l ≠ .wakeup → t.waker = s.waker) := by
  cases l with
  | push p task =>
      obtain ⟨-, rfl⟩ := push_cases hstep
      exact ⟨rfl, fun _ => rfl⟩
  | producer p wake =>
      rcases producerStep_cases hstep with ⟨task, -, -, rfl⟩ | ⟨task, -, -, rfl⟩ |
        ⟨task, consumers, -, -, -, rfl⟩ <;> exact ⟨rfl, fun _ => rfl⟩
  | pop c =>
      obtain ⟨-, rfl⟩ := pop_cases hstep
      exact ⟨rfl, fun _ => rfl⟩
  | consumer c wake =>
      rcases consumerStep_cases hstep with ⟨-, -, rfl⟩ | ⟨-, ⟨-, -, rfl⟩ | ⟨-, rfl⟩⟩ |
        ⟨-, rfl⟩ | ⟨-, ⟨task, rest, producers, -, -, -, rfl⟩ | ⟨-, rfl⟩⟩ <;>
          exact ⟨rfl, fun _ => rfl⟩
  | wakeup =>
      refine ⟨?_, fun hne => absurd rfl hne⟩
      rcases wakeupStep_cases hstep with ⟨-, rfl⟩ | ⟨-, rfl⟩ <;> rfl
  | _ =>
      obtain rfl := Option.some.inj hstep
      exact ⟨rfl, fun _ => rfl⟩

/-- What holds in every reachable state. -/
theorem reachable_inv {capacity : ℕ} (h : Transition.Reachable (taskQueue m n capacity) s) :
    Guarded s ∧ Balanced s ∧ s.queue.capacity = capacity := by
  refine Transition.Inductive.reachable
    (I := fun s => Guarded s ∧ Balanced s ∧ s.queue.capacity = capacity) ⟨?_, ?_⟩ h
  · rintro _ rfl
    exact ⟨Guarded.start capacity, Balanced.start capacity, rfl⟩
  · intro s l t hinv hstep
    exact ⟨hinv.1.step hstep, hinv.2.1.step hinv.1 hstep, (step_frame hstep).1.trans hinv.2.2⟩

/-- The thread is in `push`. -/
def Producer.calling : Producer τ → Bool
  | .outside => false
  | _ => true

/-- The thread is in `pop`. -/
def Consumer.calling : Consumer τ → Bool
  | .outside | .returned _ => false
  | _ => true

/-- The queue is bounded and first-in first-out, and neither the consumers nor the
producers are all blocked un-notified when there is something for them. -/
structure InService (capacity : ℕ) (s : State m n τ) : Prop where
  bounded : s.queue.que.length ≤ capacity
  fifo : s.popped ++ s.queue.que = s.pushed
  consumers : s.queue.que ≠ [] → (∃ c, (s.consumers c).calling = true) →
    ∃ c, (s.consumers c).calling = true ∧ s.consumers c ≠ .asleep
  producers : s.queue.que.length ≠ capacity → (∃ p, (s.producers p).calling = true) →
    ∃ p, (s.producers p).calling = true ∧ ∀ task, s.producers p ≠ .asleep task

theorem Producer.calling_iff {a : Producer τ} : a.calling = true ↔
    (producerWaiter τ).awake a = true ∨ (producerWaiter τ).asleep a = true := by
  cases a <;> simp [Producer.calling, producerWaiter]

theorem Consumer.calling_iff {a : Consumer τ} : a.calling = true ↔
    (consumerWaiter τ).awake a = true ∨ (consumerWaiter τ).asleep a = true := by
  cases a <;> simp [Consumer.calling, consumerWaiter]

/-- A queue in service never deadlocks. -/
theorem in_service {capacity : ℕ} (h : Transition.Reachable (taskQueue m n capacity) s)
    (hidle : s.waker = .idle) : InService capacity s := by
  obtain ⟨-, hbalanced, hcapacity⟩ := reachable_inv h
  have hbounded := hbalanced.bounded
  refine ⟨hcapacity ▸ hbounded, hbalanced.fifo, ?_, ?_⟩
  · rintro hne ⟨c, hc⟩
    have hawake : ∃ c, (consumerWaiter τ).awake (s.consumers c) = true := by
      rcases Consumer.calling_iff.mp hc with hawake | hasleep
      · exact ⟨c, hawake⟩
      · exact (hbalanced.consumers hidle).exists_awake (List.length_pos_iff.mpr hne) ⟨c, hasleep⟩
    obtain ⟨c, hc⟩ := hawake
    refine ⟨c, Consumer.calling_iff.mpr (Or.inl hc), fun hasleep => ?_⟩
    rw [hasleep] at hc
    cases hc
  · rintro hne ⟨p, hp⟩
    have hawake : ∃ p, (producerWaiter τ).awake (s.producers p) = true := by
      rcases Producer.calling_iff.mp hp with hawake | hasleep
      · exact ⟨p, hawake⟩
      · exact hbalanced.producers.exists_awake (by omega) ⟨p, hasleep⟩
    obtain ⟨p, hp⟩ := hawake
    refine ⟨p, Producer.calling_iff.mpr (Or.inl hp), fun task hasleep => ?_⟩
    rw [hasleep] at hp
    cases hp

end

/-- A consumer sleeps, and a push notifies it. -/
theorem in_service_one : ∃ s : State 1 1 ℕ, Transition.Reachable (taskQueue 1 1 1) s ∧
    s.queue.que = [7] ∧ s.consumers 0 = .woken ∧ InService 1 s := by
  have hreach : Transition.Reachable (taskQueue 1 1 1) _ :=
    Transition.reachable_ofFun_iff.mpr ⟨[.pop (0 : Fin 1), .consumer 0 none, .consumer 0 none,
      .consumer 0 none, .push (0 : Fin 1) 7, .producer 0 none, .producer 0 (some 0)], rfl⟩
  exact ⟨_, hreach, rfl, rfl, in_service hreach rfl⟩

end TaskQueuePool

end ProcessThreadPool
