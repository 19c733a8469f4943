import ProcessThreadPool.CThreadPool.Signals

/-!
# `threadpool_destroy` of the C thread pool returns

The thread that sets `shutdown` wakes everybody with one broadcast and then joins the threads
below `thread_count`. Nobody sleeps any more, and whoever has the lock is a worker on its way
out, so each of these steps brings the end of the call nearer and one of them is always
possible. No task is taken once `shutdown` is set.
-/

namespace ProcessThreadPool

namespace CThreadPool

open ThreadFamily

section

variable {n : ℕ} {ι τ : Type*} {s t : Signalled n ι τ}

/-- `threadpool_destroy` is called on a pool that is being destroyed: that call returns with
the lock. -/
def Signalled.destroysAgain (s : Signalled n ι τ) : Event n ι τ → Bool
  | .act (.destroy _ _ _ _) _ => s.base.pool.shutdown
  | _ => false

/-- The runs in which the `pthread` calls succeed and the pool is destroyed once. -/
def destroying (n : ℕ) (queueSize : ℤ) :
    Transition.System (Signalled n ι τ) (Event n ι τ) :=
  (signalled n queueSize).restrict fun s l => l.succeeds = true ∧ s.destroysAgain l = false

/-- The step of a worker or of the thread in `threadpool_destroy`. -/
def Event.byPool : Event n ι τ → Bool
  | .act (.worker _) _ | .act (.destroyer _) _ => true
  | _ => false

/-- `threadpool_destroy` has returned. -/
def Returned (s : Signalled n ι τ) : Prop := ∃ err, s.base.destroyer = .returned err

/-- The steps that are left to a worker of a pool that is shut down. -/
def Worker.left : Worker τ → ℕ
  | .running _ => 4
  | .top | .waiting => 3
  | .leaving => 2
  | .unlocking => 1
  | .exited => 0

/-- The steps that are left to `threadpool_destroy` with `n` threads. -/
def Destroyer.left (n : ℕ) : Destroyer → ℕ
  | .test i _ => 2 * (n - i) + 3
  | .join i _ => 2 * (n - i) + 2
  | .freeTest => 2
  | .freePool => 1
  | .idle | .returned _ => 0

/-- The steps that are left to the workers and to `threadpool_destroy`. -/
def Signalled.left (s : Signalled n ι τ) : ℕ :=
  total Worker.left s.base.workers + s.base.destroyer.left n

theorem Worker.left_of_testing {w : Worker τ} (h : w.testing = true) : w.left = 3 := by
  cases w <;> first | rfl | cases h

theorem TeardownInv.lt_of_lt_threadCount {s : State n ι τ} (h : TeardownInv s) {i : ℕ}
    (hlt : (i : ℤ) < s.pool.threadCount) : i < n := by
  have hle := total_le_card Worker.counted_le_one s.workers
  rw [Fintype.card_fin] at hle
  have hcount := h.threadCount
  omega

/-- `threadpool_destroy` is on its way or has returned, and the lock is not with a client. -/
structure Closing (s : State n ι τ) : Prop where
  shutdown : s.pool.shutdown = true
  begun : s.destroyer ≠ .idle
  joins : ∀ i err, s.destroyer = .join i err → i < n
  lock : ∀ c, s.lock ≠ some (.client c)

namespace Closing

theorem of_frame {s t : State n ι τ} (h : Closing s)
    (hshutdown : t.pool.shutdown = s.pool.shutdown) (hdestroyer : t.destroyer = s.destroyer)
    (hlock : ∀ c, t.lock ≠ some (.client c)) : Closing t where
  shutdown := hshutdown.trans h.shutdown
  begun := by
    rw [hdestroyer]
    exact h.begun
  joins := by
    rw [hdestroyer]
    exact h.joins
  lock := hlock

theorem step {s t : State n ι τ} (h : Closing s) (hinv : TeardownInv s) {a : Action n ι τ}
    (hok : a.succeeds = true)
    (honce : ∀ c lockOk broadcastOk unlockOk, a ≠ .destroy c lockOk broadcastOk unlockOk)
    (hstep : s.step a = some t) : Closing t := by
  cases step_moves hstep with
  | @add client task lockOk signalOk unlockOk hlock =>
      simp only [Action.succeeds, Bool.and_eq_true] at hok
      obtain ⟨⟨rfl, rfl⟩, rfl⟩ := hok
      refine h.of_frame (threadpoolAdd_frame _ _ _ _ _).2 rfl fun c => ?_
      simp [addStep, lockAfter, hlock]
  | notLocked | destroyAgain | destroyFails | destroy => exact absurd rfl (honce _ _ _ _)
  | joinNext hd hlt =>
      refine ⟨h.shutdown, by simp, fun i err heq => ?_, h.lock⟩
      obtain ⟨rfl, rfl⟩ := Destroyer.join.inj heq
      exact hinv.lt_of_lt_threadCount hlt
  | joinedAll | joinedNotAll | joinFails | join | refuse | freeArrays | freePool =>
      exact ⟨h.shutdown, by simp, by simp, h.lock⟩
  | leave | unlock => exact h.of_frame rfl rfl (by simp)
  | _ => exact h.of_frame rfl rfl h.lock

/-- Each step of the pool's threads brings the end nearer, and the others do not put it off. -/
theorem spend {s t : State n ι τ} (h : Closing s) {a : Action n ι τ}
    (hstep : s.step a = some t) {wake : Option (Fin n)} :
    total Worker.left t.workers + t.destroyer.left n + (Event.byPool (.act a wake)).toNat ≤
      total Worker.left s.workers + s.destroyer.left n := by
  have hworker : ∀ {i : Fin n} {w : Worker τ}, w.left + 1 ≤ (s.workers i).left →
      total Worker.left (Function.update s.workers i w) + s.destroyer.left n + 1 ≤
        total Worker.left s.workers + s.destroyer.left n := by
    intro i w hw
    have htotal := total_update_add Worker.left s.workers i w
    omega
  cases step_moves hstep with
  | wait hw hlock hwait =>
      have hopen := (Pool.mustWait_iff.mp hwait).2
      rw [h.shutdown] at hopen
      cases hopen
  | leave hw => exact hworker (Worker.left_of_testing hw).ge
  | take hw hlock hwait hshutdown =>
      rw [h.shutdown] at hshutdown
      cases hshutdown
  | run hw => exact hworker (by rw [hw]; exact le_rfl)
  | decrement hw => exact hworker (by rw [hw]; exact le_rfl)
  | unlock hw => exact hworker (by rw [hw]; exact le_rfl)
  | destroy hlock hshutdown | destroyFails hlock hshutdown =>
      rw [h.shutdown] at hshutdown
      cases hshutdown
  | joinNext hd hlt =>
      rw [hd]
      exact le_rfl
  | joinFails hd =>
      rw [hd]
      have hi := h.joins _ _ hd
      simp only [Destroyer.left, Event.byPool, Bool.toNat_true]
      omega
  | join hd hw =>
      rw [hd]
      have hi := h.joins _ _ hd
      simp only [Destroyer.left, Event.byPool, Bool.toNat_true]
      omega
  | joinedAll hd | joinedNotAll hd | refuse hd | freeArrays hd | freePool hd =>
      rw [hd]
      simp only [Destroyer.left, Event.byPool, Bool.toNat_true]
      omega
  | _ => exact le_rfl

/-- Whoever has the lock is a worker that gives it back. -/
theorem lock_enabled {s : State n ι τ} (h : Closing s) (hinv : TeardownInv s)
    (hlock : s.lock ≠ none) : ∃ j u, s.step (.worker j) = some u := by
  cases hholder : s.lock with
  | none => exact absurd hholder hlock
  | some holder =>
      cases holder with
      | client c => exact absurd hholder (h.lock c)
      | worker j =>
          have hholds := (hinv.lock_iff j).mpr hholder
          refine ⟨j, ?_⟩
          simp only [State.step, workerStep]
          cases hw : s.workers j with
          | leaving | unlocking => exact ⟨_, rfl⟩
          | _ =>
              rw [hw] at hholds
              cases hholds

/-- While a worker has not exited, it or the one that has the lock goes on. -/
theorem worker_enabled {s : State n ι τ} (h : Closing s) (hinv : TeardownInv s) {i : Fin n}
    (hi : s.workers i ≠ .exited) : ∃ j u, s.step (.worker j) = some u := by
  by_cases hlock : s.lock = none
  · refine ⟨i, ?_⟩
    simp only [State.step, workerStep]
    cases hw : s.workers i with
    | top | waiting =>
        have hwait : s.pool.mustWait = false := by
          rw [Bool.eq_false_iff]
          intro hwait
          have hopen := (Pool.mustWait_iff.mp hwait).2
          rw [h.shutdown] at hopen
          cases hopen
        simp only [hlock, hwait, h.shutdown, Option.isSome_none, Bool.false_eq_true, if_false,
          if_true]
        exact ⟨_, rfl⟩
    | exited => exact absurd hw hi
    | _ => exact ⟨_, rfl⟩
  · exact h.lock_enabled hinv hlock

/-- Before `threadpool_destroy` returns, it or one of the workers goes on. -/
theorem enabled {s : State n ι τ} (h : Closing s) (hinv : TeardownInv s)
    (hgoal : ∀ err, s.destroyer ≠ .returned err) :
    (∃ u, s.step (.destroyer true) = some u) ∨ ∃ j u, s.step (.worker j) = some u := by
  cases hd : s.destroyer with
  | idle => exact absurd hd h.begun
  | returned err => exact absurd hd (hgoal err)
  | test i err =>
      refine Or.inl ?_
      simp only [State.step, destroyerStep, hd]
      split_ifs <;> exact ⟨_, rfl⟩
  | join i err =>
      have hi := h.joins i err hd
      by_cases hexited : s.workers ⟨i, hi⟩ = .exited
      · refine Or.inl ?_
        simp only [State.step, destroyerStep, hd, dif_pos hi, hexited, Worker.hasExited,
          Bool.true_eq_false, if_false, if_true]
        exact ⟨_, rfl⟩
      · exact Or.inr (h.worker_enabled hinv hexited)
  | freeTest =>
      refine Or.inl ?_
      simp only [State.step, destroyerStep, hd]
      split_ifs <;> exact ⟨_, rfl⟩
  | freePool =>
      by_cases hlock : s.lock = none
      · refine Or.inl ?_
        simp only [State.step, destroyerStep, hd, hlock, Option.isSome_none,
          Bool.false_eq_true, if_false]
        exact ⟨_, rfl⟩
      · exact Or.inr (h.lock_enabled hinv hlock)

/-- The same for the pool with its condition. -/
theorem event {s t : Signalled n ι τ} (h : Closing s.base) (hinv : TeardownInv s.base)
    {l : Event n ι τ} (hok : l.succeeds = true) (honce : s.destroysAgain l = false)
    (hstep : s.step l = some t) : Closing t.base := by
  rcases step_cases hstep with ⟨i, -, rfl⟩ | ⟨a, wake, rfl, -, ha, -⟩
  · exact h
  · refine h.step hinv hok ?_ ha
    rintro c lockOk broadcastOk unlockOk rfl
    rw [Signalled.destroysAgain, h.shutdown] at honce
    cases honce

end Closing

theorem destroy_progress {size : ℕ} (hsize : 1 ≤ size) :
    Transition.Progress (destroying (ι := ι) (τ := τ) n size) Event.byPool Returned
      (fun s => SignalledInv size s ∧ Closing s.base) Signalled.left where
  keep := by
    rintro s l t ⟨hinv, h⟩ - ⟨⟨hok, honce⟩, hstep⟩
    exact ⟨hinv.step hsize hok hstep, h.event hinv.teardown hok honce hstep⟩
  spend := by
    rintro s l t ⟨hinv, h⟩ - ⟨-, hstep⟩
    rcases step_cases hstep with ⟨i, rfl, rfl⟩ | ⟨a, wake, rfl, -, ha, -⟩
    · exact le_rfl
    · exact h.spend ha
  enabled := by
    rintro s ⟨hinv, h⟩ hgoal
    rcases h.enabled hinv.teardown fun err herr => hgoal ⟨err, herr⟩ with ⟨u, hu⟩ | ⟨j, hj⟩
    · refine ⟨.act (.destroyer true) none, ⟨u, s.asleep⟩, rfl, ⟨rfl, rfl⟩, ?_⟩
      change s.step _ = _
      simp only [Signalled.step, Signalled.blocks, hu, Signalled.sleepers, Option.bind_some,
        Option.map_some, Bool.false_eq_true, if_false]
    · obtain ⟨t, ht⟩ := worker_enabled (hinv.woken.closed h.shutdown j) hj
      exact ⟨_, t, rfl, ⟨rfl, rfl⟩, ht⟩

/-- After `shutdown` no task is stored or taken. -/
theorem settled_step {s t : State n ι τ} {a : Action n ι τ} (hstop : s.pool.shutdown = true)
    (hstep : s.step a = some t) :
    t.pool.shutdown = true ∧ t.accepted = s.accepted ∧ t.taken = s.taken := by
  cases step_moves hstep with
  | @add client task lockOk signalOk unlockOk hlock =>
      refine ⟨(threadpoolAdd_frame _ _ _ _ _).2.trans hstop, ?_, rfl⟩
      simp [addStep, stored, hstop]
  | take hw hlock hwait hshutdown =>
      rw [hstop] at hshutdown
      cases hshutdown
  | destroyFails | destroy => exact ⟨rfl, rfl, rfl⟩
  | _ => exact ⟨hstop, rfl, rfl⟩

/-- The first `threadpool_destroy` is called without anybody in the lock's way. -/
theorem Closing.of_step {s t : State n ι τ} {a : Action n ι τ} (hidle : s.destroyer = .idle)
    (hok : a.succeeds = true) (hstep : s.step a = some t) (hbegun : t.destroyer ≠ .idle) :
    Closing t := by
  cases step_moves hstep with
  | destroyFails hlock hshutdown hfail =>
      simp only [Action.succeeds, Bool.true_and, Bool.and_eq_true] at hok
      rw [hok.1, hok.2] at hfail
      simp at hfail
  | destroy hlock hshutdown =>
      refine ⟨rfl, hbegun, by simp, fun c hc => ?_⟩
      rw [hlock] at hc
      cases hc
  | joinNext hd | joinedAll hd | joinedNotAll hd | joinFails hd | join hd | refuse hd
  | freeArrays hd | freePool hd =>
      rw [hidle] at hd
      cases hd
  | _ => exact absurd hidle hbegun

theorem inductive_destroying {size : ℕ} (hsize : 1 ≤ size) :
    Transition.Inductive (destroying (ι := ι) (τ := τ) n size) (fun s =>
      SignalledInv size s ∧ (s.base.destroyer ≠ .idle → Closing s.base)) := by
  refine .restrict ?_ ?_
  · rintro s rfl
    exact ⟨⟨RunInv.start, TeardownInv.start, Woken.start⟩, fun hbegun => absurd rfl hbegun⟩
  · rintro s l t ⟨hinv, h⟩ ⟨hok, honce⟩ hstep
    refine ⟨hinv.step hsize hok hstep, fun hbegun => ?_⟩
    by_cases hidle : s.base.destroyer = .idle
    · rcases step_cases hstep with ⟨i, rfl, rfl⟩ | ⟨a, wake, rfl, -, ha, -⟩
      · exact absurd hidle hbegun
      · exact Closing.of_step hidle hok ha hbegun
    · exact (h hidle).event hinv.teardown hok honce hstep

/-- After `shutdown` a run keeps the books of the tasks as they are. -/
theorem settled {size : ℕ} {ls : List (Event n ι τ)} (hstop : s.base.pool.shutdown = true)
    (hrun : Transition.Run (destroying n size) s ls t) :
    t.base.accepted = s.base.accepted ∧ t.base.taken = s.base.taken := by
  obtain ⟨ms, hbase⟩ := ((signalled_projects size).restrict _).run hrun
  refine (hbase.preserves (I := fun u => u.pool.shutdown = true ∧
    u.accepted = s.base.accepted ∧ u.taken = s.base.taken) ?_ ⟨hstop, rfl, rfl⟩).2
  rintro u a v ⟨hu, haccepted, htaken⟩ hstep
  obtain ⟨hv, haccepted', htaken'⟩ := settled_step hu hstep
  exact ⟨hv, haccepted'.trans haccepted, htaken'.trans htaken⟩

/-- A call of `threadpool_destroy` that has set `shutdown` returns after a bounded number of
steps of its own and of the workers. The tasks that were queued when it did so are still
queued at the end, and a pool that has been given back has run all the others. -/
theorem destroy_finishes {size : ℕ} (hsize : 1 ≤ size)
    (hs : Transition.Reachable (destroying n size) s) (hd : s.base.destroyer ≠ .idle) :
    Transition.Finishes (destroying n size) Event.byPool Returned s ∧
      ∀ ls t, Transition.Run (destroying n size) s ls t →
        t.base.accepted = s.base.accepted ∧ t.base.pool.contents = s.base.pool.contents ∧
          (t.base.storage = .freed → (t.base.ran : Multiset (Option τ)) = s.base.taken) := by
  obtain ⟨hinv, hclosing⟩ := (inductive_destroying hsize).reachable hs
  refine ⟨(destroy_progress hsize).finishes ⟨hinv, hclosing hd⟩, fun ls t hrun => ?_⟩
  obtain ⟨haccepted, htaken⟩ := settled (hclosing hd).shutdown hrun
  obtain ⟨hend, -⟩ := hrun.preserves (inductive_destroying hsize).step ⟨hinv, hclosing⟩
  refine ⟨haccepted, ?_, fun hfreed => ?_⟩
  · have hbefore := hinv.run.ring.taken_append_contents
    have hafter := hend.run.ring.taken_append_contents
    rw [htaken, haccepted, ← hbefore] at hafter
    exact List.append_cancel_left hafter
  · have hheld : total Worker.held t.base.workers = 0 :=
      total_eq_zero fun i => by rw [hend.teardown.exited hfreed i]; rfl
    have hran := hend.run.ran
    rw [hheld, add_zero, htaken] at hran
    exact hran

/-- One worker sleeps; the pool is destroyed with a task still queued. -/
theorem destroy_finishes_one : ∃ s : Signalled 1 Unit ℕ,
    s.base.destroyer = .test 0 .success ∧ s.base.accepted = [7] ∧ s.base.taken = [] ∧
      Transition.Finishes (destroying 1 4) Event.byPool Returned s := by
  have hs : ∃ s : Signalled 1 Unit ℕ, Transition.exec
      (fun s l => if Event.succeeds l = true ∧ s.destroysAgain l = false then
        Signalled.step s l else none) (Signalled.start 1 4)
      [.act (.worker 0) none, .act (.add () (some 7) true true true) (some 0),
        .act (.destroy () true true true) none] = some s ∧
        s.base.destroyer = .test 0 .success ∧ s.base.accepted = [7] ∧ s.base.taken = [] :=
    ⟨_, rfl, rfl, rfl, rfl⟩
  obtain ⟨s, hexec, hd, haccepted, htaken⟩ := hs
  refine ⟨s, hd, haccepted, htaken, (destroy_finishes (by decide)
    (Transition.reachable_restrict_of_exec hexec) ?_).1⟩
  simp [hd]

end

end CThreadPool

end ProcessThreadPool
