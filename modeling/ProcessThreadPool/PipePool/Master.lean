import ProcessThreadPool.PipePool.Pool
import ProcessThreadPool.Lib.Transition

/-!
# The pipe-based process pool: the master and its workers

The master calls its functions in any order while the worker processes read, write
and die. A step of the master is one submission or one round of a loop: one task
dispatched, one result pipe read, one process reaped, one worker restarted. So the
workers also move between two rounds of one call, and every whole call is a run of
rounds. `accepted` records the ids that `process_pool_submit_task` returned, and
`returned` those of the results that `process_pool_get_result` returned.
-/

namespace ProcessThreadPool

namespace PipePool

/-- The whole program. -/
structure State (n : ℕ) where
  pool : ProcessPool n
  kernel : Kernel
  accepted : List ℤ
  returned : List ℤ

/-- What happens next. -/
inductive Action (n : ℕ) where
  | submit (taskData : Option (List UInt8)) (dataLen : ℤ)
  | dispatch (killOk : Fin n → Bool) (writeOk : Bool)
  | receive (i : Fin n) (readOk : Bool)
  | reap (channel : Channel)
  | restart (i : Fin n) (outcome : CreateOutcome)
  | setRunning (running : Bool)
  | tick (now : ℤ)
  | childRead (channel : Channel)
  | childWrite (channel : Channel)
  | childExit (channel : Channel)

/-- A step of the master leaves another pool and another kernel. -/
def State.put {n : ℕ} (s : State n) (r : ProcessPool n × Kernel) : State n :=
  { s with pool := r.1, kernel := r.2 }

/-- After `process_pool_submit_task` returned: `-1` is no id. -/
def State.submitted {n : ℕ} (s : State n) (r : ℤ × ProcessPool n) : State n :=
  { s with
    pool := r.2
    accepted := if r.1 = -1 then s.accepted else s.accepted ++ [r.1] }

/-- After a round of the result loop: a result that was read is returned. -/
def State.received {n : ℕ} (s : State n) (r : Option TaskResult × ProcessPool n × Kernel) :
    State n :=
  { s.put r.2 with returned := s.returned ++ (r.1.map TaskResult.taskId).toList }

/-- One step. `setRunning` is the entry and the exit of `process_pool_run`, and `tick`
sets the clock. -/
def State.step {n : ℕ} (s : State n) : Action n → Option (State n)
  | .submit taskData dataLen =>
      some (s.submitted (processPoolSubmitTask s.pool taskData dataLen))
  | .dispatch killOk writeOk =>
      if 0 < s.pool.taskQueue.count then
        some (s.put (dispatchRound killOk writeOk s.pool s.kernel).2)
      else none
  | .receive i readOk =>
      if s.pool.running && (s.pool.workers i).watched then
        some (s.received (receiveRound i readOk s.pool s.kernel))
      else none
  | .reap channel =>
      (s.kernel.waitChild channel).map fun r =>
        s.put ({ s.pool with
          workers := markReaped r.1 (List.finRange n) s.pool.workers }, r.2)
  | .restart i outcome =>
      if (s.pool.workers i).status = .dead then
        some (s.put (restartRound i outcome s.pool s.kernel))
      else none
  | .setRunning running => some { s with pool := { s.pool with running := running } }
  | .tick now => some { s with kernel := { s.kernel with now := now } }
  | .childRead channel =>
      (s.kernel.childRead channel).map fun k => { s with kernel := k }
  | .childWrite channel =>
      (s.kernel.childWrite channel).map fun k => { s with kernel := k }
  | .childExit channel =>
      (s.kernel.childExit channel).map fun k => { s with kernel := k }

/-- The states in which `process_pool_create` leaves the program. -/
def State.Created {n : ℕ} (s : State n) : Prop :=
  ∃ opened handler mallocOk signalsOk outcomes pool kernel,
    processPoolCreate n handler mallocOk signalsOk outcomes (Kernel.start opened) =
      (some pool, kernel) ∧ s = ⟨pool, kernel, [], []⟩

/-- All interleavings on a pool of `n` workers. -/
def processPool (n : ℕ) : Transition.System (State n) (Action n) where
  init := State.Created
  step := fun s l t => s.step l = some t

section Calls

variable {n : ℕ}

theorem run_dispatchRounds (now : ℕ → ℤ) (killOk : ℕ → Fin n → Bool) (writeOk : ℕ → Bool)
    (rounds : ℕ) (s : State n) : ∃ ls, Transition.Run (processPool n) s ls
      (s.put (dispatchRounds now killOk writeOk rounds s.pool s.kernel).2) := by
  induction rounds generalizing s with
  | zero => exact ⟨[], .nil s⟩
  | succ rounds ih =>
      by_cases hcount : 0 < s.pool.taskQueue.count
      · have htick : s.step (.tick (now rounds)) =
            some { s with kernel := { s.kernel with now := now rounds } } := rfl
        have hstep : State.step { s with kernel := { s.kernel with now := now rounds } }
            (.dispatch (killOk rounds) (writeOk rounds)) =
              some (s.put (dispatchRound (killOk rounds) (writeOk rounds) s.pool
                { s.kernel with now := now rounds }).2) := if_pos hcount
        simp only [dispatchRounds, if_pos hcount]
        split_ifs
        · obtain ⟨ls, hrun⟩ := ih (s.put (dispatchRound (killOk rounds) (writeOk rounds) s.pool
            { s.kernel with now := now rounds }).2)
          exact ⟨_ :: _ :: ls, .cons htick (.cons hstep hrun)⟩
        · exact ⟨[_, _], .cons htick (.cons hstep (.nil _))⟩
      · rw [dispatchRounds, if_neg hcount]
        exact ⟨[], .nil s⟩

/-- `dispatch_tasks` is a run of rounds, and those granted to it run out only when the queue
is empty. -/
theorem run_dispatchTasks (now : ℕ → ℤ) (killOk : ℕ → Fin n → Bool) (writeOk : ℕ → Bool)
    (s : State n) {r : ℕ × ProcessPool n × Kernel}
    (hr : dispatchTasks now killOk writeOk s.pool s.kernel = r) :
    (∃ ls, Transition.Run (processPool n) s ls (s.put r.2)) ∧
      (r.1 = s.pool.taskQueue.count.toNat → r.2.1.taskQueue.count ≤ 0) := by
  subst hr
  exact ⟨run_dispatchRounds now killOk writeOk s.pool.taskQueue.count.toNat s,
    (dispatchTasks_count now killOk writeOk s.pool s.kernel).2⟩

/-- The restart loop of `process_pool_run` is a run of restarts. -/
theorem run_restartAmong (outcomes : Fin n → CreateOutcome) (is : List (Fin n))
    (s : State n) : ∃ ls, Transition.Run (processPool n) s ls
      (s.put (restartAmong outcomes is s.pool s.kernel)) := by
  induction is generalizing s with
  | nil => exact ⟨[], .nil s⟩
  | cons i is ih =>
      by_cases hdead : (s.pool.workers i).status = .dead
      · have hstep : s.step (.restart i (outcomes i)) =
            some (s.put (restartRound i (outcomes i) s.pool s.kernel)) := if_pos hdead
        obtain ⟨ls, hrun⟩ := ih (s.put (restartRound i (outcomes i) s.pool s.kernel))
        rw [restartAmong, if_pos hdead]
        exact ⟨_ :: ls, .cons hstep hrun⟩
      · rw [restartAmong, if_neg hdead]
        exact ih s

/-- `reap_dead_children` is a run of reaped processes. -/
theorem run_reapDeadChildren (channels : List Channel) (s : State n)
    {r : ProcessPool n × Kernel} (hr : reapDeadChildren channels s.pool s.kernel = some r) :
    ∃ ls, Transition.Run (processPool n) s ls (s.put r) := by
  induction channels generalizing s with
  | nil =>
      obtain rfl := Option.some.inj hr
      exact ⟨[], .nil s⟩
  | cons channel channels ih =>
      rw [reapDeadChildren, Option.bind_eq_some_iff] at hr
      obtain ⟨w, hwait, hrest⟩ := hr
      have hstep : s.step (.reap channel) = some (s.put ({ s.pool with
          workers := markReaped w.1 (List.finRange n) s.pool.workers }, w.2)) := by
        rw [State.step, hwait]
        rfl
      obtain ⟨ls, hrun⟩ := ih (s.put (_, _)) hrest
      exact ⟨_ :: ls, .cons hstep hrun⟩

theorem run_runRounds (rounds : List (RunRound n)) (s : State n) {r : ProcessPool n × Kernel}
    (hr : runRounds rounds s.pool s.kernel = some r) :
    ∃ ls, Transition.Run (processPool n) s ls (s.put r) := by
  induction rounds generalizing s with
  | nil =>
      obtain rfl := Option.some.inj hr
      exact ⟨[], .nil s⟩
  | cons round rounds ih =>
      rw [runRounds, Option.bind_eq_some_iff] at hr
      obtain ⟨reaped, hreaped, hrest⟩ := hr
      obtain ⟨_, hreap⟩ := run_reapDeadChildren round.reaped s hreaped
      obtain ⟨_, hrestart⟩ :=
        run_restartAmong round.outcomes (List.finRange n) (s.put reaped)
      obtain ⟨⟨_, hdispatch⟩, -⟩ :=
        run_dispatchTasks round.now round.killOk round.writeOk ((s.put reaped).put _) rfl
      obtain ⟨_, hgoOn⟩ := ih (s.put (_, _)) hrest
      exact ⟨_, hreap.append (hrestart.append (hdispatch.append hgoOn))⟩

/-- `process_pool_run` is a run of reaped processes, restarts and dispatched tasks. -/
theorem run_processPoolRun (rounds : List (RunRound n)) (s : State n)
    {r : ProcessPool n × Kernel} (hr : processPoolRun rounds s.pool s.kernel = some r) :
    ∃ ls, Transition.Run (processPool n) s ls (s.put r) := by
  obtain ⟨u, hu, rfl⟩ := Option.map_eq_some_iff.mp hr
  have hentry : s.step (.setRunning true) =
      some { s with pool := { s.pool with running := true } } := rfl
  obtain ⟨ls, hrun⟩ := run_runRounds rounds { s with pool := { s.pool with running := true } } hu
  have hexit : (s.put u).step (.setRunning false) =
      some (s.put ({ u.1 with running := false }, u.2)) := rfl
  exact ⟨_, .cons hentry (hrun.snoc hexit)⟩

/-- The result loop of a running pool is a run of rounds. -/
theorem run_receiveAmong (isset readOk : Fin n → Bool) (is : List (Fin n)) (s : State n)
    (hrunning : s.pool.running = true) : ∃ ls, Transition.Run (processPool n) s ls
      (s.received (receiveAmong isset readOk is s.pool s.kernel)) := by
  induction is generalizing s with
  | nil => exact ⟨[], by simpa [State.received, receiveAmong, State.put] using .nil s⟩
  | cons i is ih =>
      rw [receiveAmong]
      split_ifs with hwatched
      · have hstep : s.step (.receive i (readOk i)) =
            some (s.received (receiveRound i (readOk i) s.pool s.kernel)) := by
          rw [Bool.and_eq_true] at hwatched
          rw [State.step, hrunning, hwatched.1]
          rfl
        cases hresult : (receiveRound i (readOk i) s.pool s.kernel).1 with
        | some result =>
            have hreturn : (some result, (receiveRound i (readOk i) s.pool s.kernel).2) =
                receiveRound i (readOk i) s.pool s.kernel := by rw [← hresult]
            simp only [hresult, hreturn]
            exact ⟨[_], .cons hstep (.nil _)⟩
        | none =>
            obtain ⟨ls, hrun⟩ := ih (s.received (receiveRound i (readOk i) s.pool s.kernel))
              hrunning
            refine ⟨_ :: ls, .cons hstep ?_⟩
            simpa only [State.received, State.put, hresult, Option.map_none,
              Option.toList_none, List.append_nil] using hrun
      · exact ih s hrunning

/-- A call of `process_pool_get_result` that returns is a run of rounds. -/
theorem run_processPoolGetResult (outcomes : List (SelectOutcome n)) (s : State n)
    {r : Option TaskResult × ProcessPool n × Kernel}
    (hr : processPoolGetResult outcomes s.pool s.kernel = some r) :
    ∃ ls, Transition.Run (processPool n) s ls (s.received r) := by
  have hnone : ∀ s : State n, s.received (none, s.pool, s.kernel) = s := by
    intro s
    simp [State.received, State.put]
  induction outcomes generalizing s with
  | nil =>
      rw [processPoolGetResult] at hr
      split_ifs at hr
      obtain rfl := Option.some.inj hr
      exact ⟨[], by rw [hnone]; exact .nil s⟩
  | cons outcome outcomes ih =>
      simp only [processPoolGetResult] at hr
      split_ifs at hr with hrunning hmax
      · obtain rfl := Option.some.inj hr
        exact ⟨[], by rw [hnone]; exact .nil s⟩
      · exact ih s hr
      · cases outcome with
        | interrupted => exact ih s hr
        | ready isset readOk =>
            obtain ⟨ls, hrun⟩ := run_receiveAmong isset readOk (List.finRange n) s
              (by simpa using hrunning)
            cases hresult : (receiveAmong isset readOk (List.finRange n) s.pool s.kernel).1 with
            | some result =>
                simp only [hresult, Option.some.injEq] at hr
                rw [← hr, ← hresult]
                exact ⟨ls, hrun⟩
            | none =>
                simp only [hresult] at hr
                obtain ⟨ms, hrest⟩ := ih (s.received
                  (receiveAmong isset readOk (List.finRange n) s.pool s.kernel)) hr
                refine ⟨ls ++ ms, hrun.append ?_⟩
                simpa only [State.received, State.put, hresult, Option.map_none,
                  Option.toList_none, List.append_nil] using hrest
        | _ =>
            obtain rfl := Option.some.inj hr
            exact ⟨[], by rw [hnone]; exact .nil s⟩

end Calls

end PipePool

end ProcessThreadPool
