import ProcessThreadPool.CThreadPool.Ring
import ProcessThreadPool.CThreadPool.Teardown

/-!
# Who returns with the lock

`threadpool_add` reaches its unlock on every path. `threadpool_destroy` leaves its loop
before the unlock when `shutdown` is already set and when the broadcast fails. Between two
steps no client is inside a critical section, so a client that has the lock then has
returned with it, or has gone on to its joins with it; the lock stays with it for good.
-/

namespace ProcessThreadPool

namespace CThreadPool

/-- A step of the program, with the outcome of the `pthread_mutex_unlock` of
`threadpool_queue_count`, which that function does not look at. -/
structure Call (n : ℕ) (ι τ : Type*) where
  action : Action n ι τ
  countUnlockOk : Bool
  deriving DecidableEq, Repr

section

variable {n : ℕ} {ι τ : Type*}

/-- One step. -/
def State.call (s : State n ι τ) (l : Call n ι τ) : Option (State n ι τ) :=
  (s.step l.action).map fun t =>
    match l.action with
    | .queueCount client => { t with lock := lockAfter client l.countUnlockOk }
    | _ => t

/-- All interleavings, with any outcome of each call that can fail. -/
def calls (n : ℕ) (queueSize : ℤ) : Transition.System (State n ι τ) (Call n ι τ) :=
  Transition.System.ofFun (State.start n queueSize) State.call

/-- No client has the lock. -/
def NoCallerHolds (s : State n ι τ) : Prop := ∀ c, s.lock ≠ some (.client c)

/-- The call reaches an unlock that succeeds: `threadpool_destroy` does when `shutdown` is
not set and its broadcast succeeds. -/
def GivesBack (s : State n ι τ) (l : Call n ι τ) : Prop :=
  match l.action with
  | .add _ task lockOk _ unlockOk => task.isSome = true → lockOk = true → unlockOk = true
  | .queueCount _ => l.countUnlockOk = true
  | .destroy _ lockOk broadcastOk unlockOk =>
      lockOk = true → s.pool.shutdown = false ∧ broadcastOk = true ∧ unlockOk = true
  | .destroyer _ | .worker _ => True

variable {s t : State n ι τ}

theorem noCallerHolds_lockAfter_iff {client : ι} {unlockOk : Bool} {u : State n ι τ}
    (hu : u.lock = lockAfter client unlockOk) : NoCallerHolds u ↔ unlockOk = true := by
  rw [NoCallerHolds, hu]
  cases unlockOk with
  | true => exact iff_of_true (fun c hc => by cases hc) rfl
  | false => exact iff_of_false (fun h => h client rfl) Bool.false_ne_true

theorem NoCallerHolds.addStep_iff (h : NoCallerHolds s) {client : ι} {task : Option τ}
    {lockOk signalOk unlockOk : Bool} :
    NoCallerHolds (addStep s client task lockOk signalOk unlockOk) ↔
      (task.isSome = true → lockOk = true → unlockOk = true) := by
  have hlock : (addStep s client task lockOk signalOk unlockOk).lock =
      if task.isNone || !lockOk then s.lock else lockAfter client unlockOk := rfl
  cases task with
  | none => exact iff_of_true h nofun
  | some task =>
      cases lockOk with
      | false => exact iff_of_true h fun _ hok => by cases hok
      | true =>
          rw [noCallerHolds_lockAfter_iff hlock]
          exact ⟨fun hok _ _ => hok, fun hok => hok rfl rfl⟩

/-- A step leaves no client with the lock exactly when the call reaches its unlock. -/
theorem NoCallerHolds.call_iff (h : NoCallerHolds s) {l : Call n ι τ}
    (hstep : s.call l = some t) : NoCallerHolds t ↔ GivesBack s l := by
  obtain ⟨action, countUnlockOk⟩ := l
  obtain ⟨u, hu, rfl⟩ := Option.map_eq_some_iff.mp hstep
  cases step_moves hu with
  | add hlock => exact h.addStep_iff
  | queueCount hlock => exact noCallerHolds_lockAfter_iff rfl
  | notLocked hlock => exact iff_of_true h fun hok => by cases hok
  | destroyAgain hlock hshutdown =>
      refine iff_of_false (fun hnone => hnone _ rfl) fun hok => ?_
      rw [(hok rfl).1] at hshutdown
      cases hshutdown
  | destroyFails hlock hshutdown hfail =>
      refine iff_of_false (fun hnone => hnone _ rfl) fun hok => ?_
      obtain ⟨-, hbroadcast, hunlock⟩ := hok rfl
      rw [hbroadcast, hunlock] at hfail
      simp at hfail
  | destroy hlock hshutdown => exact iff_of_true h fun _ => ⟨hshutdown, rfl, rfl⟩
  | leave | unlock => exact iff_of_true (fun c hc => by cases hc) trivial
  | _ => exact iff_of_true h trivial

/-- In a run no client returns with the lock exactly when every call of the three functions
reaches an unlock that succeeds. -/
theorem lock_given_back_iff (queueSize : ℤ) (ls : List (Call n ι τ)) (s : State n ι τ) :
    Transition.Run ((calls n queueSize).filter fun _ _ t => NoCallerHolds t)
        (State.start n queueSize) ls s ↔
      Transition.Run ((calls n queueSize).restrict GivesBack) (State.start n queueSize) ls s := by
  apply Transition.run_filter_iff_restrict (I := NoCallerHolds)
  · intro s l t h hgives hstep
    exact (h.call_iff hstep).mpr hgives
  · intro s l t h hstep
    exact h.call_iff hstep
  · exact fun c hc => by cases hc

/-- Two threads destroy the pool, and no call fails: the second returns with the lock. -/
theorem second_destroy_holds_lock : ¬ ∀ (n : ℕ) (queueSize : ℤ) (s : State n (Fin 2) ℕ),
    Transition.Reachable (calls n queueSize) s → NoCallerHolds s := by
  intro hclaim
  exact hclaim 1 4 _ (Transition.reachable_ofFun_iff.mpr
    ⟨[⟨.destroy 0 true true true, true⟩, ⟨.destroyer true, true⟩,
      ⟨.destroy 1 true true true, true⟩], rfl⟩) 1 rfl

/-! ## What becomes of a lock that is not given back -/

/-- A client that has returned with the lock keeps it, and the workers that come for it
wait for ever. -/
theorem call_lock_kept (hinv : TeardownInv s) {c : ι} (hlock : s.lock = some (.client c))
    {l : Call n ι τ} (hstep : s.call l = some t) :
    TeardownInv t ∧ t.lock = some (.client c) := by
  obtain ⟨action, countUnlockOk⟩ := l
  obtain ⟨u, hu, rfl⟩ := Option.map_eq_some_iff.mp hstep
  have hheld : s.lock ≠ none := by
    rw [hlock]
    exact Option.some_ne_none _
  have hnone : ∀ i, (s.workers i).holdsLock = false := by
    intro i
    rw [Bool.eq_false_iff, Ne, hinv.lock_iff, hlock]
    nofun
  cases step_moves hu with
  | @decrement i hw =>
      have hi := hnone i
      rw [hw] at hi
      cases hi
  | @unlock i hw =>
      have hi := hnone i
      rw [hw] at hi
      cases hi
  | joinNext | joinedAll | joinedNotAll | joinFails | join | refuse | freeArrays | run =>
      exact ⟨hinv.step hu, hlock⟩
  | add hfree | queueCount hfree | notLocked hfree | destroyAgain hfree | destroyFails hfree
  | destroy hfree | wait _ hfree | leave _ hfree | take _ hfree | freePool _ hfree =>
      exact absurd hfree hheld

theorem run_lock_kept {queueSize : ℤ} (hinv : TeardownInv s) {c : ι}
    (hlock : s.lock = some (.client c)) {ls : List (Call n ι τ)}
    (hrun : Transition.Run (calls n queueSize) s ls t) : t.lock = some (.client c) :=
  (hrun.preserves (I := fun s => TeardownInv s ∧ s.lock = some (.client c))
    (fun _ _ _ h hstep => call_lock_kept h.1 h.2 hstep) ⟨hinv, hlock⟩).2

end

end CThreadPool

end ProcessThreadPool
