import ProcessThreadPool.CThreadPool.Machine

/-!
# The steps of the C thread pool one by one

`State.Moves` lists the steps of the clients, of the thread that set `shutdown` and of the
workers, with what each needs and what it leaves.
-/

namespace ProcessThreadPool

namespace CThreadPool

section

variable {n : ℕ} {ι τ : Type*}

/-- The worker is in front of the test of its loop. -/
def Worker.testing : Worker τ → Bool
  | .top | .waiting => true
  | _ => false

theorem Worker.eq_exited {w : Worker τ} (h : w.hasExited = true) : w = .exited := by
  cases w <;> first | rfl | cases h

/-- The steps one by one: what each needs and what it leaves. -/
inductive State.Moves (s : State n ι τ) : Action n ι τ → State n ι τ → Prop
  | add {client : ι} {task : Option τ} {lockOk signalOk unlockOk : Bool}
      (hlock : s.lock = none) : Moves s (.add client task lockOk signalOk unlockOk)
        (addStep s client task lockOk signalOk unlockOk)
  | queueCount {client : ι} (hlock : s.lock = none) : Moves s (.queueCount client) s
  | notLocked {client : ι} {broadcastOk unlockOk : Bool} (hlock : s.lock = none) :
      Moves s (.destroy client false broadcastOk unlockOk) s
  | destroyAgain {client : ι} {broadcastOk unlockOk : Bool} (hlock : s.lock = none)
      (hshutdown : s.pool.shutdown = true) :
      Moves s (.destroy client true broadcastOk unlockOk)
        { s with lock := some (.client client) }
  | destroyFails {client : ι} {broadcastOk unlockOk : Bool} (hlock : s.lock = none)
      (hshutdown : s.pool.shutdown = false) (hfail : broadcastOk = false ∨ unlockOk = false) :
      Moves s (.destroy client true broadcastOk unlockOk) { s with
        pool := { s.pool with shutdown := true }
        lock := some (.client client)
        destroyer := .returned .lockFailure }
  | destroy {client : ι} (hlock : s.lock = none) (hshutdown : s.pool.shutdown = false) :
      Moves s (.destroy client true true true) { s with
        pool := { s.pool with shutdown := true }
        destroyer := .test 0 .success }
  | joinNext {joinOk : Bool} {i : ℕ} {err : Error} (hd : s.destroyer = .test i err)
      (hlt : (i : ℤ) < s.pool.threadCount) :
      Moves s (.destroyer joinOk) { s with destroyer := .join i err }
  | joinedAll {joinOk : Bool} {i : ℕ} (hd : s.destroyer = .test i .success)
      (hge : ¬ (i : ℤ) < s.pool.threadCount) :
      Moves s (.destroyer joinOk) { s with destroyer := .freeTest }
  | joinedNotAll {joinOk : Bool} {i : ℕ} {err : Error} (hd : s.destroyer = .test i err)
      (hge : ¬ (i : ℤ) < s.pool.threadCount) (herr : err ≠ .success) :
      Moves s (.destroyer joinOk) { s with destroyer := .returned err }
  | joinFails {i : Fin n} {err : Error} (hd : s.destroyer = .join i err) :
      Moves s (.destroyer false) { s with destroyer := .test (i + 1) .threadFailure }
  | join {i : Fin n} {err : Error} (hd : s.destroyer = .join i err)
      (hw : s.workers i = .exited) : Moves s (.destroyer true) { s with
        joined := Function.update s.joined i true
        destroyer := .test (i + 1) err }
  | refuse {joinOk : Bool} (hd : s.destroyer = .freeTest) (hpos : s.pool.threadCount > 0) :
      Moves s (.destroyer joinOk) { s with destroyer := .returned .success }
  | freeArrays {joinOk : Bool} (hd : s.destroyer = .freeTest)
      (hpos : ¬ s.pool.threadCount > 0) :
      Moves s (.destroyer joinOk) { s with storage := .arraysFreed, destroyer := .freePool }
  | freePool {joinOk : Bool} (hd : s.destroyer = .freePool) (hlock : s.lock = none) :
      Moves s (.destroyer joinOk) { s with storage := .freed, destroyer := .returned .success }
  | wait {i : Fin n} (hw : (s.workers i).testing = true) (hlock : s.lock = none)
      (hwait : s.pool.mustWait = true) : Moves s (.worker i) { s with
        workers := Function.update s.workers i .waiting
        stale := s.use false }
  | leave {i : Fin n} (hw : (s.workers i).testing = true) (hlock : s.lock = none)
      (hwait : s.pool.mustWait = false) (hshutdown : s.pool.shutdown = true) :
      Moves s (.worker i) { s with
        lock := some (.worker i)
        workers := Function.update s.workers i .leaving
        stale := s.use false }
  | take {i : Fin n} (hw : (s.workers i).testing = true) (hlock : s.lock = none)
      (hwait : s.pool.mustWait = false) (hshutdown : s.pool.shutdown = false) :
      Moves s (.worker i) { s with
        pool := (takeTask s.pool).2
        workers := Function.update s.workers i (.running (takeTask s.pool).1)
        stale := s.use true
        taken := s.taken ++ [(takeTask s.pool).1] }
  | run {i : Fin n} {task : Option τ} (hw : s.workers i = .running task) :
      Moves s (.worker i) { s with
        workers := Function.update s.workers i .top
        ran := s.ran ++ [task] }
  | decrement {i : Fin n} (hw : s.workers i = .leaving) : Moves s (.worker i) { s with
        pool := { s.pool with threadCount := s.pool.threadCount - 1 }
        workers := Function.update s.workers i .unlocking
        stale := s.use false }
  | unlock {i : Fin n} (hw : s.workers i = .unlocking) : Moves s (.worker i) { s with
        lock := none
        workers := Function.update s.workers i .exited
        stale := s.use false }

variable {s t : State n ι τ}

theorem workerStep_moves {i : Fin n} (hstep : workerStep s i = some t) :
    s.Moves (.worker i) t := by
  cases hw : s.workers i with
  | running task =>
      simp only [workerStep, hw, Option.some.injEq] at hstep
      subst hstep
      exact .run hw
  | leaving =>
      simp only [workerStep, hw, Option.some.injEq] at hstep
      subst hstep
      exact .decrement hw
  | unlocking =>
      simp only [workerStep, hw, Option.some.injEq] at hstep
      subst hstep
      exact .unlock hw
  | exited => simp [workerStep, hw] at hstep
  | _ =>
      have htesting : (s.workers i).testing = true := by rw [hw]; rfl
      simp only [workerStep, hw, Option.isSome_iff_ne_none] at hstep
      split_ifs at hstep with hlock hwait hshutdown <;> obtain rfl := Option.some.inj hstep
      · exact .wait htesting (not_not.mp hlock) hwait
      · exact .leave htesting (not_not.mp hlock) (Bool.eq_false_of_not_eq_true hwait) hshutdown
      · exact .take htesting (not_not.mp hlock) (Bool.eq_false_of_not_eq_true hwait)
          (Bool.eq_false_of_not_eq_true hshutdown)

theorem destroyerStep_moves {joinOk : Bool} (hstep : destroyerStep s joinOk = some t) :
    s.Moves (.destroyer joinOk) t := by
  cases hd : s.destroyer with
  | test i err =>
      simp only [destroyerStep, hd] at hstep
      split_ifs at hstep with hlt herr <;> obtain rfl := Option.some.inj hstep
      · exact .joinNext hd hlt
      · exact .joinedAll (herr ▸ hd) hlt
      · exact .joinedNotAll hd hlt herr
  | join i err =>
      simp only [destroyerStep, hd] at hstep
      split_ifs at hstep with hi hfail hexited <;> obtain rfl := Option.some.inj hstep
      · subst hfail
        exact .joinFails (i := ⟨i, hi⟩) hd
      · rw [Bool.not_eq_false] at hfail
        subst hfail
        exact .join (i := ⟨i, hi⟩) hd (Worker.eq_exited hexited)
  | freeTest =>
      simp only [destroyerStep, hd] at hstep
      split_ifs at hstep with hpos <;> obtain rfl := Option.some.inj hstep
      · exact .refuse hd hpos
      · exact .freeArrays hd hpos
  | freePool =>
      simp only [destroyerStep, hd, Option.isSome_iff_ne_none] at hstep
      split_ifs at hstep with hlock
      obtain rfl := Option.some.inj hstep
      exact .freePool hd (not_not.mp hlock)
  | _ => simp [destroyerStep, hd] at hstep

theorem destroyStep_moves (hlock : s.lock = none) (client : ι)
    (lockOk broadcastOk unlockOk : Bool) :
    s.Moves (.destroy client lockOk broadcastOk unlockOk)
      (destroyStep s client lockOk broadcastOk unlockOk) := by
  cases lockOk with
  | false => exact .notLocked hlock
  | true =>
      rw [destroyStep, if_neg (Ne.symm Bool.false_ne_true)]
      split_ifs with hshutdown hfail
      · exact .destroyAgain hlock hshutdown
      · exact .destroyFails hlock (Bool.eq_false_of_not_eq_true hshutdown) hfail
      · rw [not_or, Bool.not_eq_false, Bool.not_eq_false] at hfail
        obtain ⟨rfl, rfl⟩ := hfail
        exact .destroy hlock (Bool.eq_false_of_not_eq_true hshutdown)

theorem step_moves {l : Action n ι τ} (hstep : s.step l = some t) : s.Moves l t := by
  cases l with
  | destroyer joinOk => exact destroyerStep_moves hstep
  | worker i => exact workerStep_moves hstep
  | add client task lockOk signalOk unlockOk =>
      simp only [State.step] at hstep
      split_ifs at hstep with hfree
      obtain rfl := Option.some.inj hstep
      rw [not_or, Bool.not_eq_true, Option.isSome_eq_false_iff, Option.isNone_iff_eq_none] at hfree
      exact .add hfree.1
  | queueCount client =>
      simp only [State.step] at hstep
      split_ifs at hstep with hfree
      obtain rfl := Option.some.inj hstep
      rw [not_or, Bool.not_eq_true, Option.isSome_eq_false_iff, Option.isNone_iff_eq_none] at hfree
      exact .queueCount hfree.1
  | destroy client lockOk broadcastOk unlockOk =>
      simp only [State.step] at hstep
      split_ifs at hstep with hfree
      obtain rfl := Option.some.inj hstep
      rw [not_or, Bool.not_eq_true, Option.isSome_eq_false_iff, Option.isNone_iff_eq_none] at hfree
      exact destroyStep_moves hfree.1 client lockOk broadcastOk unlockOk

end

end CThreadPool

end ProcessThreadPool
