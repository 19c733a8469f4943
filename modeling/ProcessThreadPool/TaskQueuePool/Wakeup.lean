import ProcessThreadPool.TaskQueuePool.Service

/-!
# Whether `wakeup` reaches every consumer

`wakeup` stores `m_flag` and calls `notify_all` without the mutex. A consumer that has
seen an empty queue and the flag set, and has not blocked yet, misses the notification
and sleeps from then on; whoever tests after the store does not block at all.
-/

namespace ProcessThreadPool

namespace TaskQueuePool

section

variable {m n : ℕ} {τ : Type*} {s t : State m n τ} {l : Action m n τ}

/-- `wakeup` has finished and a consumer is blocked on `m_notEmpty` without a
notification. -/
def Stranded (s : State m n τ) : Prop := s.waker = .done ∧ ∃ c, s.consumers c = .asleep

/-- Neither in this state nor after one more step a consumer is stranded. -/
def NobodyStranded (s : State m n τ) : Prop :=
  ¬ Stranded s ∧ ∀ l t, s.step l = some t → ¬ Stranded t

/-- The `notify_all` of `wakeup` finds no consumer between its test and its block. -/
def NotifiesInTime (s : State m n τ) (l : Action m n τ) : Prop :=
  l = .wakeup → s.waker = .stored → ∀ c, s.consumers c ≠ .blocking

/-- The consumer is neither blocked nor about to block. -/
def Consumer.free : Consumer τ → Bool
  | .asleep | .blocking => false
  | _ => true

/-- After `wakeup` nobody is blocked or about to block. -/
def Released (s : State m n τ) : Prop := s.waker = .done → ∀ c, (s.consumers c).free = true

theorem Consumer.free_notify {a : Consumer τ} (h : a.free = true) :
    ((consumerWaiter τ).notify a).free = true := by
  cases a <;> first | exact h | rfl

theorem notify_ne_asleep (a : Consumer τ) : (consumerWaiter τ).notify a ≠ .asleep := by
  cases a <;> nofun

theorem free_setConsumer (hfree : ∀ c, (s.consumers c).free = true) (c' : Fin n)
    {a : Consumer τ} (ha : a.free = true) (c : Fin n) :
    ((s.setConsumer c' a).consumers c).free = true :=
  ThreadFamily.forall_update (P := fun _ (a : Consumer τ) => a.free = true) hfree ha c

/-- With the flag cleared no consumer comes to a block. -/
theorem free_step (hflag : s.queue.flag = false) (hfree : ∀ c, (s.consumers c).free = true)
    (hl : l ≠ .wakeup) (hstep : s.step l = some t) (c : Fin n) :
    (t.consumers c).free = true := by
  cases l with
  | push p task =>
      obtain ⟨-, rfl⟩ := push_cases hstep
      exact hfree c
  | producer p wake =>
      rcases producerStep_cases hstep with ⟨task, -, -, rfl⟩ | ⟨task, -, -, rfl⟩ |
        ⟨task, consumers, -, -, hnotify, rfl⟩
      · exact hfree c
      · exact hfree c
      · rcases Waiter.notifyOne_apply hnotify c with heq | heq
        · simp only [State.setProducer, heq]
          exact hfree c
        · simp only [State.setProducer, heq]
          exact Consumer.free_notify (hfree c)
  | pop c' =>
      obtain ⟨-, rfl⟩ := pop_cases hstep
      exact free_setConsumer hfree c' rfl c
  | consumer c' wake =>
      rcases consumerStep_cases hstep with ⟨-, -, rfl⟩ |
        ⟨-, ⟨-, hset, rfl⟩ | ⟨-, rfl⟩⟩ | ⟨hblocking, rfl⟩ |
        ⟨-, ⟨task, rest, producers, hset, -, -, rfl⟩ | ⟨-, rfl⟩⟩
      · exact free_setConsumer hfree c' rfl c
      · rw [hflag] at hset
        cases hset
      · exact free_setConsumer hfree c' rfl c
      · have hnot := hfree c'
        rw [hblocking] at hnot
        cases hnot
      · rw [hflag] at hset
        cases hset
      · exact free_setConsumer hfree c' rfl c
  | spuriousProducer p =>
      obtain rfl := Option.some.inj hstep
      exact hfree c
  | spuriousConsumer c' =>
      obtain rfl := Option.some.inj hstep
      exact free_setConsumer hfree c' (Consumer.free_notify (hfree c')) c
  | wakeup => exact absurd rfl hl

theorem Released.not_stranded (h : Released s) : ¬ Stranded s := by
  rintro ⟨hdone, c, hc⟩
  have hfree := h hdone c
  rw [hc] at hfree
  cases hfree

theorem Released.step (h : Released s) (hguarded : Guarded s) (hl : NotifiesInTime s l)
    (hstep : s.step l = some t) : Released t := by
  intro hdone
  by_cases hwakeup : l = .wakeup
  · subst hwakeup
    rcases wakeupStep_cases hstep with ⟨-, rfl⟩ | ⟨hstored, rfl⟩
    · cases hdone
    · have htimely := hl rfl hstored
      intro c
      simp only [Waiter.notifyAll]
      cases hc : s.consumers c <;> first | rfl | exact absurd hc (htimely c)
  · have hold := ((step_frame hstep).2 hwakeup).symm.trans hdone
    have hflag : s.queue.flag = false := by
      rw [← Bool.not_eq_true, hguarded.flag, hold]
      nofun
    exact free_step hflag (h hold) hwakeup hstep

/-- A step after which nobody is stranded is one that notifies in time. -/
theorem Released.nobodyStranded_iff (h : Released s) (hguarded : Guarded s)
    (hstep : s.step l = some t) : NobodyStranded t ↔ NotifiesInTime s l := by
  constructor
  · rintro ⟨-, hnext⟩ rfl hstored c hc
    rcases wakeupStep_cases hstep with ⟨hidle, -⟩ | ⟨-, rfl⟩
    · rw [hidle] at hstored
      cases hstored
    · have hblocking : (consumerWaiter τ).notifyAll s.consumers c = .blocking := by
        rw [Waiter.notifyAll, hc]
        rfl
      refine hnext (.consumer c none) (State.setConsumer { s with
        mutex := none
        consumers := (consumerWaiter τ).notifyAll s.consumers
        waker := .done } c .asleep) ?_ ⟨rfl, c, Function.update_self _ _ _⟩
      simp only [State.step, consumerStep, hblocking]
  · intro hl
    have ht := h.step hguarded hl hstep
    refine ⟨ht.not_stranded, fun l' u hnext => ?_⟩
    by_cases hwakeup : l' = .wakeup
    · subst hwakeup
      rintro ⟨hdone, c, hc⟩
      rcases wakeupStep_cases hnext with ⟨-, rfl⟩ | ⟨-, rfl⟩
      · cases hdone
      · exact notify_ne_asleep _ hc
    · exact (ht.step (hguarded.step hstep) (fun heq => absurd heq hwakeup) hnext).not_stranded

/-- A run strands no consumer, neither in its states nor one step later, exactly when its
`wakeup` notifies while no consumer is about to block. -/
theorem nobody_stranded_iff (capacity : ℕ) (ls : List (Action m n τ)) (s : State m n τ) :
    Transition.Run ((taskQueue m n capacity).filter fun _ _ t => NobodyStranded t)
        (State.start capacity) ls s ↔
      Transition.Run ((taskQueue m n capacity).restrict NotifiesInTime)
        (State.start capacity) ls s := by
  apply Transition.run_filter_iff_restrict (I := fun s => Guarded s ∧ Released s)
  · intro s l t h hl hstep
    exact ⟨h.1.step hstep, h.2.step h.1 hl hstep⟩
  · intro s l t h hstep
    exact h.2.nobodyStranded_iff h.1 hstep
  · exact ⟨Guarded.start capacity, nofun⟩

end

/-- One worker tests the empty queue, `wakeup` stores the flag and notifies, and the
worker blocks. -/
theorem stranded_by_wakeup : ¬ ∀ (m n capacity : ℕ) (s : State m n ℕ),
    Transition.Reachable (taskQueue m n capacity) s → ¬ Stranded s := by
  intro hclaim
  exact hclaim 1 1 1 _ (Transition.reachable_ofFun_iff.mpr
    ⟨[.pop 0, .consumer 0 none, .consumer 0 none, .wakeup, .wakeup, .consumer 0 none], rfl⟩)
    ⟨rfl, 0, rfl⟩

end TaskQueuePool

end ProcessThreadPool
