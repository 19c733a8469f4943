import ProcessThreadPool.Lib.ThreadFamily
import ProcessThreadPool.ModernPool.Control

/-!
# The workers of the pool manager

`pool_start`, `pool_resize`, `pool_stop` and `pool_destroy` on the slots of `pool->workers`,
and `handle_worker_status_event` of the event loop's thread. One call of the pool goes on at a
time; `pool_stop` gives `pool_mutex` back while it waits for the running tasks. The handler takes
no mutex, so it runs between any two steps of a call; the event loop's thread is joined at the
end of `pool_stop`, behind the loop over the slots, and when the pool is freed. A call and the
handler go from one function on a slot (`worker_create`, `worker_start`, `worker_stop`,
`worker_destroy`) to the next, and in between workers die, stop heartbeating and are marked by
their monitor threads.
-/

namespace ProcessThreadPool

namespace ModernPool

/-- The numbers of workers of a `pool_config_t` that `validate_config` accepts, with
`MAX_WORKERS`. -/
structure Config where
  minWorkers : ℕ
  maxWorkers : ℕ
  minWorkers_pos : 0 < minWorkers
  min_le_max : minWorkers ≤ maxWorkers
  maxWorkers_le : maxWorkers ≤ 128

/-- One worker, no more and no less. -/
def Config.single : Config := ⟨1, 1, Nat.one_pos, le_rfl, by decide⟩

/-- One worker or two. -/
def Config.pair : Config := ⟨1, 2, Nat.one_pos, by decide, by decide⟩

/-- `enum pool_state`. -/
inductive PoolState where
  | created
  | starting
  | running
  | stopping
  | stopped
  deriving DecidableEq, Repr

/-- `worker_internal_t`. `fresh` says that the last heartbeat is recent enough. -/
structure Slot where
  pid : ℕ
  state : WorkerState
  monitorRunning : Bool
  fresh : Bool
  deriving DecidableEq, Repr

/-- What `memset` leaves behind. -/
def Slot.zero : Slot := ⟨0, .created, false, false⟩

/-- A forked child that has not been waited for. -/
inductive Process where
  | running
  | zombie
  deriving DecidableEq, Repr

/-- The loops over the slots: `pool_start` with the number of active workers it found, its
cleanup, the two loops of `pool_resize`, `pool_stop` (called from `pool_destroy` or not). -/
inductive Call where
  | start (before : ℕ)
  | undo
  | grow (target : ℕ)
  | shrink (target current : ℕ)
  | stop (destroying : Bool)
  deriving DecidableEq, Repr

/-- What the call or the handler does next with its slot. `test` is the condition at the head
of the loop, or `worker_is_alive`. -/
inductive Op where
  | test
  | create
  | start
  | stop
  | destroy
  deriving DecidableEq, Repr

/-- No call goes on, a call is at the slot of the given index, or `pool_destroy` has freed
the slots. -/
inductive Phase where
  | idle
  | within (call : Call) (i : ℕ) (op : Op)
  | destroyed
  deriving DecidableEq, Repr

/-- The pool with its children. `waiting` is a `pool_stop` that waits for the running
tasks, with whether `pool_destroy` has called it; `handler` is a `handle_worker_status_event`
that goes on, with its slot. -/
structure Pool (c : Config) where
  state : PoolState
  activeWorkers : ℕ
  workers : Fin c.maxWorkers → Slot
  processes : ℕ → Option Process
  phase : Phase
  waiting : Option Bool
  handler : Option (Fin c.maxWorkers × Op)

/-- `pool_create` has returned. -/
def Pool.create (c : Config) : Pool c where
  state := .created
  activeWorkers := 0
  workers := fun _ => Slot.zero
  processes := fun _ => none
  phase := .idle
  waiting := none
  handler := none

/-- What happens next: a call or the handler begins, the wait of `pool_stop` ends, the call or
the handler that goes on makes its next step (`created` is the outcome of `worker_create`,
`forked` the outcome of `fork`), a monitor thread goes once round its loop, a child dies, or a
heartbeat becomes too old. -/
inductive PoolAction (c : Config) where
  | poolStart (thread : Bool)
  | poolResize (target : ℕ)
  | poolStop
  | poolDestroy
  | workerStatus (i : Fin c.maxWorkers)
  | proceed
  | next (created : Bool) (forked : Option ℕ)
  | handle (created : Bool) (forked : Option ℕ)
  | monitor (i : Fin c.maxWorkers)
  | die (pid : ℕ)
  | expire (i : Fin c.maxWorkers)
  deriving DecidableEq, Repr

section Steps

variable {c : Config}

def Pool.setSlot (s : Pool c) (i : Fin c.maxWorkers) (w : Slot) : Pool c :=
  { s with workers := Function.update s.workers i w }

def Pool.goto (s : Pool c) (phase : Phase) : Pool c := { s with phase := phase }

/-- `worker_create`: the slot is cleared also when its descriptors or its shared memory
cannot be created. -/
def workerCreate (s : Pool c) (i : Fin c.maxWorkers) (created : Bool) : Pool c :=
  s.setSlot i { Slot.zero with fresh := created }

/-- `worker_start`, with whether it has succeeded. The kernel gives a new process a
number that no child has. -/
def workerStart (s : Pool c) (i : Fin c.maxWorkers) (forked : Option ℕ) :
    Option (Pool c × Bool) :=
  if (s.workers i).state = .created then
    match forked with
    | none => some (s.setSlot i { s.workers i with state := .error }, false)
    | some pid =>
        if pid = 0 ∨ s.processes pid ≠ none then none
        else
          some (Pool.setSlot { s with
            processes := Function.update s.processes pid (some .running) } i
              { s.workers i with pid := pid, state := .running, monitorRunning := true }, true)
  else some (s, false)

/-- `worker_stop`: the child is told to shut down, waited for, killed if it is still there,
and the monitor thread is joined. -/
def workerStop (s : Pool c) (i : Fin c.maxWorkers) : Pool c :=
  if (s.workers i).pid = 0 ∨ (s.workers i).state ≠ .running then s
  else
    Pool.setSlot { s with
      processes := Function.update s.processes (s.workers i).pid none } i
        { s.workers i with state := .stopped, monitorRunning := false }

/-- `worker_destroy`. -/
def workerDestroy (s : Pool c) (i : Fin c.maxWorkers) : Pool c :=
  if (s.workers i).state = .running then (workerStop s i).setSlot i Slot.zero
  else s.setSlot i Slot.zero

/-- `worker_is_alive`: `kill` finds a child as long as it has not been waited for. -/
def workerIsAlive (s : Pool c) (i : Fin c.maxWorkers) : Bool :=
  decide ((s.workers i).pid ≠ 0) && (s.processes (s.workers i).pid).isSome &&
    (s.workers i).fresh

/-- Go on to `worker_stop` if the slot holds a started worker, else to the next slot. -/
def stopStarted (s : Pool c) (call : Call) (i : Fin c.maxWorkers) : Pool c :=
  if 0 < (s.workers i).pid then s.goto (.within call i .stop)
  else s.goto (.within call (i + 1) .test)

/-- The head of the loop. An index beyond `max_workers` would read outside of the array.
`pool_stop` joins the event loop's thread when it has been through the slots. -/
def testStep (s : Pool c) (call : Call) (i : ℕ) : Option (Pool c) :=
  match call with
  | .start _ =>
      if i < c.minWorkers then some (s.goto (.within call i .create))
      else some { s with state := .running, phase := .idle }
  | .undo =>
      if h : i < c.maxWorkers then some (stopStarted s call ⟨i, h⟩)
      else some { s with activeWorkers := 0, state := .created, phase := .idle }
  | .grow target =>
      if i < target then some (s.goto (.within call i .create)) else some (s.goto .idle)
  | .shrink _ current =>
      if i < current then
        if h : i < c.maxWorkers then some (stopStarted s call ⟨i, h⟩) else none
      else some (s.goto .idle)
  | .stop destroying =>
      if h : i < c.maxWorkers then some (stopStarted s call ⟨i, h⟩)
      else if s.handler.isSome then none
      else
        some { s with
          activeWorkers := 0
          state := .stopped
          phase := if destroying then .destroyed else .idle }

/-- A worker could not be created or started: `pool_start` cleans up, the other calls
return. -/
def failed (s : Pool c) : Call → Pool c
  | .start _ => { s with state := .stopping, phase := .within .undo 0 .test }
  | _ => s.goto .idle

/-- After `worker_start`. -/
def started (s : Pool c) (i : ℕ) : Call → Bool → Pool c
  | call, true =>
      { s with
        activeWorkers := s.activeWorkers + 1
        phase := .within call (i + 1) .test }
  | call, false => s.goto (.within call i .destroy)

/-- After `worker_destroy`. -/
def cleared (s : Pool c) (i : ℕ) : Call → Pool c
  | .shrink target current =>
      { s with
        activeWorkers := s.activeWorkers - 1
        phase := .within (.shrink target current) (i + 1) .test }
  | .undo => s.goto (.within .undo (i + 1) .test)
  | .stop destroying => s.goto (.within (.stop destroying) (i + 1) .test)
  | call => failed s call

/-- `pool_stop` divides its timeout by the number of active workers. -/
def Call.divides : Call → Bool
  | .stop _ => true
  | _ => false

/-- The next step of a call. -/
def callStep (s : Pool c) (call : Call) (i : ℕ) (op : Op) (created : Bool)
    (forked : Option ℕ) : Option (Pool c) :=
  match op with
  | .test => testStep s call i
  | .create =>
      if h : i < c.maxWorkers then
        if created then some ((workerCreate s ⟨i, h⟩ true).goto (.within call i .start))
        else some (failed (workerCreate s ⟨i, h⟩ false) call)
      else some (failed s call)
  | .start =>
      if h : i < c.maxWorkers then
        (workerStart s ⟨i, h⟩ forked).map fun r => started r.1 i call r.2
      else none
  | .stop =>
      if h : i < c.maxWorkers then
        if call.divides && decide (s.activeWorkers = 0) then none
        else some ((workerStop s ⟨i, h⟩).goto (.within call i .destroy))
      else none
  | .destroy =>
      if h : i < c.maxWorkers then some (cleared (workerDestroy s ⟨i, h⟩) i call) else none

/-- The next step of `handle_worker_status_event`. It does not look at the state of the pool
and counts nothing. -/
def handlerStep (s : Pool c) (i : Fin c.maxWorkers) (op : Op) (created : Bool)
    (forked : Option ℕ) : Option (Pool c) :=
  match op with
  | .test =>
      if workerIsAlive s i then some { s with handler := none }
      else some { s with handler := some (i, .stop) }
  | .stop => some { workerStop s i with handler := some (i, .destroy) }
  | .destroy => some { workerDestroy s i with handler := some (i, .create) }
  | .create =>
      some { workerCreate s i created with
        handler := if created then some (i, .start) else none }
  | .start => (workerStart s i forked).map fun r => { r.1 with handler := none }

/-- A call begins. `pool_destroy` joins the event loop's thread before it frees the slots. -/
def beginStep (s : Pool c) : PoolAction c → Option (Pool c)
  | .poolStart thread =>
      if s.state = .created ∧ thread = true then
        some { s with state := .starting, phase := .within (.start s.activeWorkers) 0 .test }
      else some s
  | .poolResize target =>
      if target < c.minWorkers ∨ c.maxWorkers < target then some s
      else if s.activeWorkers < target then
        some (s.goto (.within (.grow target) s.activeWorkers .test))
      else if target < s.activeWorkers then
        some (s.goto (.within (.shrink target s.activeWorkers) target .test))
      else some s
  | .poolStop =>
      if s.state = .running then some { s with state := .stopping, waiting := some false }
      else some s
  | .poolDestroy =>
      if s.state = .running then some { s with state := .stopping, waiting := some true }
      else if s.handler.isSome then none
      else some (s.goto .destroyed)
  | .proceed =>
      s.waiting.map fun destroying =>
        { s with waiting := none, phase := .within (.stop destroying) 0 .test }
  | _ => none

/-- Once round the loop of `worker_monitor_thread`: a worker that is not alive is marked,
to another one `PING` is sent. -/
def monitorStep (s : Pool c) (i : Fin c.maxWorkers) : Option (Pool c) :=
  if (s.workers i).monitorRunning then
    if workerIsAlive s i then some s
    else some (s.setSlot i { s.workers i with state := .error })
  else none

/-- One step. -/
def Pool.step (s : Pool c) (l : PoolAction c) : Option (Pool c) :=
  match l with
  | .next created forked =>
      match s.phase with
      | .within call i op => callStep s call i op created forked
      | _ => none
  | .workerStatus i =>
      if s.phase = .destroyed ∨ s.handler.isSome then none
      else some { s with handler := some (i, .test) }
  | .handle created forked =>
      s.handler.bind fun h => handlerStep s h.1 h.2 created forked
  | .monitor i => if s.phase = .destroyed then none else monitorStep s i
  | .die pid =>
      match s.processes pid with
      | some .running =>
          some { s with processes := Function.update s.processes pid (some .zombie) }
      | _ => none
  | .expire i =>
      if s.phase = .destroyed then none
      else some (s.setSlot i { s.workers i with fresh := false })
  | _ => if s.phase = .idle then beginStep s l else none

end Steps

/-- All runs of a pool of the given configuration. -/
def poolManager (c : Config) : Transition.System (Pool c) (PoolAction c) :=
  Transition.System.ofFun (Pool.create c) Pool.step

section

variable {c : Config} {s t : Pool c} {i j : Fin c.maxWorkers}

/-! ## The functions on one slot -/

/-- What a function on one slot leaves alone. -/
structure OnSlot (i : Fin c.maxWorkers) (s t : Pool c) : Prop where
  phase : t.phase = s.phase
  state : t.state = s.state
  activeWorkers : t.activeWorkers = s.activeWorkers
  waiting : t.waiting = s.waiting
  handler : t.handler = s.handler
  workers : ∀ j, j ≠ i → t.workers j = s.workers j

namespace OnSlot

theorem refl (s : Pool c) : OnSlot i s s := ⟨rfl, rfl, rfl, rfl, rfl, fun _ _ => rfl⟩

theorem trans {u : Pool c} (h : OnSlot i s t) (h' : OnSlot i t u) : OnSlot i s u :=
  ⟨h'.phase.trans h.phase, h'.state.trans h.state, h'.activeWorkers.trans h.activeWorkers,
    h'.waiting.trans h.waiting, h'.handler.trans h.handler,
    fun j hj => (h'.workers j hj).trans (h.workers j hj)⟩

theorem setSlot (s : Pool c) (processes : ℕ → Option Process) (w : Slot) :
    OnSlot i s (Pool.setSlot { s with processes := processes } i w) :=
  ⟨rfl, rfl, rfl, rfl, rfl, fun _ hj => Function.update_of_ne hj _ _⟩

theorem workerCreate (s : Pool c) (i : Fin c.maxWorkers) (created : Bool) :
    OnSlot i s (workerCreate s i created) :=
  setSlot s s.processes _

theorem workerStart {forked : Option ℕ} {r : Pool c × Bool}
    (hstart : workerStart s i forked = some r) : OnSlot i s r.1 := by
  unfold ModernPool.workerStart at hstart
  split_ifs at hstart
  · cases forked with
    | none =>
        obtain rfl := Option.some.inj hstart
        exact setSlot s s.processes _
    | some pid =>
        simp only at hstart
        split_ifs at hstart
        obtain rfl := Option.some.inj hstart
        exact setSlot s _ _
  · obtain rfl := Option.some.inj hstart
    exact refl s

theorem workerStop (s : Pool c) (i : Fin c.maxWorkers) : OnSlot i s (workerStop s i) := by
  rw [ModernPool.workerStop]
  split_ifs
  · exact refl s
  · exact setSlot s _ _

theorem workerDestroy (s : Pool c) (i : Fin c.maxWorkers) : OnSlot i s (workerDestroy s i) := by
  rw [ModernPool.workerDestroy]
  split_ifs
  · exact (workerStop s i).trans (setSlot (ModernPool.workerStop s i) _ _)
  · exact setSlot s s.processes _

end OnSlot

theorem setSlot_pid {w : Slot} :
    ((s.setSlot i w).workers j).pid = if j = i then w.pid else (s.workers j).pid := by
  by_cases hji : j = i
  · simp [Pool.setSlot, hji]
  · simp [Pool.setSlot, hji]

theorem setSlot_pid_of_eq {w : Slot} (hw : w.pid = (s.workers i).pid) :
    ((s.setSlot i w).workers j).pid = (s.workers j).pid := by
  rw [setSlot_pid]
  split_ifs with hji
  · rw [hji, hw]
  · rfl

theorem workerStop_pid : ((workerStop s i).workers j).pid = (s.workers j).pid := by
  rw [workerStop]
  split_ifs
  · rfl
  · exact setSlot_pid_of_eq rfl

theorem workerDestroy_pid :
    ((workerDestroy s i).workers j).pid = if j = i then 0 else (s.workers j).pid := by
  rw [workerDestroy]
  split_ifs with hrunning hji hji <;> rw [setSlot_pid]
  · rw [if_pos hji]
    rfl
  · rw [if_neg hji, workerStop_pid]
  · rw [if_pos hji]
    rfl
  · rw [if_neg hji]

theorem workerCreate_pid {created : Bool} :
    ((workerCreate s i created).workers j).pid = if j = i then 0 else (s.workers j).pid :=
  setSlot_pid

/-- What `worker_start` does with a slot that `worker_create` has prepared. -/
theorem workerStart_cases {forked : Option ℕ} {r : Pool c × Bool}
    (hstate : (s.workers i).state = .created) (hstart : workerStart s i forked = some r) :
    (forked = none ∧ r = (s.setSlot i { s.workers i with state := .error }, false)) ∨
      ∃ pid, forked = some pid ∧ pid ≠ 0 ∧ s.processes pid = none ∧
        r = (Pool.setSlot { s with
          processes := Function.update s.processes pid (some .running) } i
            { s.workers i with pid := pid, state := .running, monitorRunning := true },
          true) := by
  unfold workerStart at hstart
  rw [if_pos hstate] at hstart
  cases forked with
  | none => exact Or.inl ⟨rfl, (Option.some.inj hstart).symm⟩
  | some pid =>
      simp only at hstart
      split_ifs at hstart with hused
      rw [not_or, not_not] at hused
      exact Or.inr ⟨pid, rfl, hused.1, hused.2, (Option.some.inj hstart).symm⟩

/-! ## Where the steps of a call lead -/

/-- What the head of a loop leads to. -/
theorem testStep_phase {call : Call} {n : ℕ} (hstep : testStep s call n = some t) :
    t.phase = .idle ∨
      (t.phase = .destroyed ∧ call = .stop true ∧ c.maxWorkers ≤ n) ∨
      (t.phase = .within call n .create ∧
        ((∃ before, call = .start before ∧ n < c.minWorkers) ∨
          ∃ target, call = .grow target ∧ n < target)) ∨
      t.phase = .within call n .stop ∨
      (t.phase = .within call (n + 1) .test ∧ ∃ h : n < c.maxWorkers,
        (s.workers ⟨n, h⟩).pid = 0) := by
  have hstopStarted : ∀ h : n < c.maxWorkers,
      (stopStarted s call ⟨n, h⟩).phase = .within call n .stop ∨
        ((stopStarted s call ⟨n, h⟩).phase = .within call (n + 1) .test ∧
          ∃ h : n < c.maxWorkers, (s.workers ⟨n, h⟩).pid = 0) := by
    intro h
    rw [stopStarted]
    split_ifs with hpid
    · exact Or.inl rfl
    · exact Or.inr ⟨rfl, h, Nat.eq_zero_of_not_pos hpid⟩
  cases call with
  | start before =>
      simp only [testStep] at hstep
      split_ifs at hstep with hlt <;> obtain rfl := Option.some.inj hstep
      · exact Or.inr (Or.inr (Or.inl ⟨rfl, Or.inl ⟨before, rfl, hlt⟩⟩))
      · exact Or.inl rfl
  | undo =>
      simp only [testStep] at hstep
      split_ifs at hstep with hlt <;> obtain rfl := Option.some.inj hstep
      · exact Or.inr (Or.inr (Or.inr (hstopStarted hlt)))
      · exact Or.inl rfl
  | grow target =>
      simp only [testStep] at hstep
      split_ifs at hstep with hlt <;> obtain rfl := Option.some.inj hstep
      · exact Or.inr (Or.inr (Or.inl ⟨rfl, Or.inr ⟨target, rfl, hlt⟩⟩))
      · exact Or.inl rfl
  | shrink target current =>
      simp only [testStep] at hstep
      split_ifs at hstep with hlt hmax <;> obtain rfl := Option.some.inj hstep
      · exact Or.inr (Or.inr (Or.inr (hstopStarted hmax)))
      · exact Or.inl rfl
  | stop destroying =>
      simp only [testStep] at hstep
      split_ifs at hstep with hlt hhandler hdestroying <;> obtain rfl := Option.some.inj hstep
      · exact Or.inr (Or.inr (Or.inr (hstopStarted hlt)))
      · exact Or.inr (Or.inl ⟨rfl, by rw [hdestroying], Nat.le_of_not_lt hlt⟩)
      · exact Or.inl rfl

/-! ## Emptying all slots -/

/-- The slots below the index hold no started worker. -/
def Emptied (s : Pool c) (i : ℕ) : Prop :=
  ∀ j : Fin c.maxWorkers, (j : ℕ) < i → (s.workers j).pid = 0

theorem Emptied.succ {i : Fin c.maxWorkers} (h : Emptied s i) (hi : (s.workers i).pid = 0) :
    Emptied s (i + 1) := by
  intro j hj
  rcases Nat.lt_succ_iff_lt_or_eq.mp hj with hlt | heq
  · exact h j hlt
  · rw [Fin.ext heq]
    exact hi

theorem Emptied.all {i : ℕ} (h : Emptied s i) (hi : c.maxWorkers ≤ i)
    (j : Fin c.maxWorkers) : (s.workers j).pid = 0 :=
  h j (lt_of_lt_of_le j.isLt hi)

/-! ## What the steps of a call and of the handler leave alone -/

/-- The head of a loop leaves the slots, the children and the handler alone. -/
theorem testStep_same {call : Call} {n : ℕ} (hstep : testStep s call n = some t) :
    t.workers = s.workers ∧ t.processes = s.processes ∧ t.handler = s.handler := by
  cases call <;> simp only [testStep] at hstep <;> split_ifs at hstep <;>
    obtain rfl := Option.some.inj hstep
  all_goals first
    | exact ⟨rfl, rfl, rfl⟩
    | rw [stopStarted]
      split_ifs <;> exact ⟨rfl, rfl, rfl⟩

theorem failed_same (s : Pool c) (call : Call) : (failed s call).workers = s.workers ∧
    (failed s call).processes = s.processes ∧ (failed s call).handler = s.handler := by
  cases call <;> exact ⟨rfl, rfl, rfl⟩

theorem started_same (s : Pool c) (n : ℕ) (call : Call) (success : Bool) :
    (started s n call success).workers = s.workers ∧
      (started s n call success).processes = s.processes ∧
      (started s n call success).handler = s.handler := by
  cases success <;> cases call <;> exact ⟨rfl, rfl, rfl⟩

theorem cleared_same (s : Pool c) (n : ℕ) (call : Call) :
    (cleared s n call).workers = s.workers ∧ (cleared s n call).processes = s.processes ∧
      (cleared s n call).handler = s.handler := by
  cases call <;> exact ⟨rfl, rfl, rfl⟩

/-- A call leaves the handler and the other slots alone. -/
theorem callStep_aside {call : Call} {n : ℕ} {op : Op} {created : Bool} {forked : Option ℕ}
    (hstep : callStep s call n op created forked = some t) :
    t.handler = s.handler ∧ ∀ j : Fin c.maxWorkers, (j : ℕ) ≠ n → t.workers j = s.workers j := by
  have hne : ∀ {h : n < c.maxWorkers} {j : Fin c.maxWorkers}, (j : ℕ) ≠ n → j ≠ ⟨n, h⟩ := by
    rintro h j hj rfl
    exact hj rfl
  cases op with
  | test =>
      obtain ⟨hworkers, -, hhandler⟩ := testStep_same hstep
      exact ⟨hhandler, fun j _ => by rw [hworkers]⟩
  | create =>
      have hcreate : ∀ (h : n < c.maxWorkers) (created : Bool),
          OnSlot ⟨n, h⟩ s (workerCreate s ⟨n, h⟩ created) := fun h created => .workerCreate s _ _
      simp only [callStep] at hstep
      split_ifs at hstep with h hcreated <;> obtain rfl := Option.some.inj hstep
      · exact ⟨rfl, fun j hj => (hcreate h true).workers j (hne hj)⟩
      · obtain ⟨hworkers, -, hhandler⟩ := failed_same (workerCreate s ⟨n, h⟩ false) call
        exact ⟨hhandler, fun j hj => by rw [hworkers, (hcreate h false).workers j (hne hj)]⟩
      · obtain ⟨hworkers, -, hhandler⟩ := failed_same s call
        exact ⟨hhandler, fun j _ => by rw [hworkers]⟩
  | start =>
      simp only [callStep] at hstep
      split_ifs at hstep with h
      obtain ⟨r, hr, rfl⟩ := Option.map_eq_some_iff.mp hstep
      obtain ⟨hworkers, -, hhandler⟩ := started_same r.1 n call r.2
      have hslot := OnSlot.workerStart hr
      exact ⟨hhandler.trans hslot.handler,
        fun j hj => by rw [hworkers, hslot.workers j (hne hj)]⟩
  | stop =>
      simp only [callStep] at hstep
      split_ifs at hstep with h
      obtain rfl := Option.some.inj hstep
      have hslot := OnSlot.workerStop s ⟨n, h⟩
      exact ⟨hslot.handler, fun j hj => hslot.workers j (hne hj)⟩
  | destroy =>
      simp only [callStep] at hstep
      split_ifs at hstep with h
      obtain rfl := Option.some.inj hstep
      obtain ⟨hworkers, -, hhandler⟩ := cleared_same (workerDestroy s ⟨n, h⟩) n call
      have hslot := OnSlot.workerDestroy s ⟨n, h⟩
      exact ⟨hhandler.trans hslot.handler,
        fun j hj => by rw [hworkers, hslot.workers j (hne hj)]⟩

/-- The handler counts nothing, and leaves the call that goes on and the other slots alone. -/
structure Behind (i : Fin c.maxWorkers) (s t : Pool c) : Prop where
  phase : t.phase = s.phase
  state : t.state = s.state
  activeWorkers : t.activeWorkers = s.activeWorkers
  waiting : t.waiting = s.waiting
  workers : ∀ j, j ≠ i → t.workers j = s.workers j

theorem OnSlot.behind {handler : Option (Fin c.maxWorkers × Op)} (h : OnSlot i s t) :
    Behind i s { t with handler := handler } :=
  ⟨h.phase, h.state, h.activeWorkers, h.waiting, h.workers⟩

theorem handlerStep_behind {op : Op} {created : Bool} {forked : Option ℕ}
    (hstep : handlerStep s i op created forked = some t) : Behind i s t := by
  cases op with
  | test =>
      simp only [handlerStep] at hstep
      split_ifs at hstep <;> obtain rfl := Option.some.inj hstep
      · exact (OnSlot.refl s).behind
      · exact (OnSlot.refl s).behind
  | create =>
      obtain rfl := Option.some.inj hstep
      exact (OnSlot.workerCreate s i created).behind
  | start =>
      obtain ⟨r, hr, rfl⟩ := Option.map_eq_some_iff.mp hstep
      exact (OnSlot.workerStart hr).behind
  | stop =>
      obtain rfl := Option.some.inj hstep
      exact (OnSlot.workerStop s i).behind
  | destroy =>
      obtain rfl := Option.some.inj hstep
      exact (OnSlot.workerDestroy s i).behind

/-- What happens to the pool by itself: no child is forked or waited for, no slot is
filled or cleared, and only monitored slots are marked. -/
structure Unattended (s t : Pool c) : Prop where
  phase : t.phase = s.phase
  handler : t.handler = s.handler
  activeWorkers : t.activeWorkers = s.activeWorkers
  pid : ∀ i, (t.workers i).pid = (s.workers i).pid
  processes : ∀ pid, t.processes pid = none ↔ s.processes pid = none
  monitorRunning : ∀ i, (t.workers i).monitorRunning = (s.workers i).monitorRunning
  state : ∀ i, (t.workers i).state = (s.workers i).state ∨
    (s.workers i).monitorRunning = true ∧ (t.workers i).state = .error

theorem Unattended.refl (s : Pool c) : Unattended s s :=
  ⟨rfl, rfl, rfl, fun _ => rfl, fun _ => Iff.rfl, fun _ => rfl, fun _ => Or.inl rfl⟩

theorem Unattended.of_setSlot {w : Slot} (hpid : w.pid = (s.workers i).pid)
    (hmonitor : w.monitorRunning = (s.workers i).monitorRunning)
    (hstate : w.state = (s.workers i).state ∨
      (s.workers i).monitorRunning = true ∧ w.state = .error) :
    Unattended s (s.setSlot i w) where
  phase := rfl
  handler := rfl
  activeWorkers := rfl
  pid := fun _ => setSlot_pid_of_eq hpid
  processes := fun _ => Iff.rfl
  monitorRunning := ThreadFamily.forall_update
    (P := fun j (a : Slot) => a.monitorRunning = (s.workers j).monitorRunning)
    (fun _ => rfl) hmonitor
  state := ThreadFamily.forall_update (P := fun j (a : Slot) => a.state = (s.workers j).state ∨
    (s.workers j).monitorRunning = true ∧ a.state = .error) (fun _ => Or.inl rfl) hstate

theorem monitorStep_unattended (hstep : monitorStep s i = some t) : Unattended s t := by
  rw [monitorStep] at hstep
  split_ifs at hstep with hmonitor halive <;> obtain rfl := Option.some.inj hstep
  · exact Unattended.refl _
  · exact Unattended.of_setSlot rfl rfl (Or.inr ⟨hmonitor, rfl⟩)

theorem die_unattended {pid : ℕ} (hrunning : s.processes pid = some .running) :
    Unattended s { s with processes := Function.update s.processes pid (some .zombie) } := by
  refine { Unattended.refl s with processes := fun pid' => ?_ }
  by_cases hpid : pid' = pid
  · rw [hpid, hrunning]
    simp
  · simp [Function.update_of_ne hpid]

/-- How a call begins. -/
inductive Opening (s : Pool c) : PoolAction c → Phase → Prop
  | idle (l : PoolAction c) : Opening s l .idle
  | start : s.state = .created →
      Opening s (.poolStart true) (.within (.start s.activeWorkers) 0 .test)
  | grow {target : ℕ} : s.activeWorkers < target → target ≤ c.maxWorkers →
      Opening s (.poolResize target) (.within (.grow target) s.activeWorkers .test)
  | shrink {target : ℕ} : target < s.activeWorkers →
      Opening s (.poolResize target)
        (.within (.shrink target s.activeWorkers) target .test)
  | stop (destroying : Bool) : Opening s .proceed (.within (.stop destroying) 0 .test)
  | destroy : s.state ≠ .running → s.handler = none → Opening s .poolDestroy .destroyed

theorem beginStep_opening {l : PoolAction c} (hidle : s.phase = .idle)
    (hstep : beginStep s l = some t) :
    t.workers = s.workers ∧ t.processes = s.processes ∧ t.activeWorkers = s.activeWorkers ∧
      t.handler = s.handler ∧ Opening s l t.phase := by
  cases l with
  | poolStart thread =>
      simp only [beginStep] at hstep
      split_ifs at hstep with h <;> obtain rfl := Option.some.inj hstep
      · obtain rfl := h.2
        exact ⟨rfl, rfl, rfl, rfl, .start h.1⟩
      · exact ⟨rfl, rfl, rfl, rfl, hidle ▸ .idle _⟩
  | poolResize target =>
      simp only [beginStep] at hstep
      split_ifs at hstep with hrange hgrow hshrink <;> obtain rfl := Option.some.inj hstep
      · exact ⟨rfl, rfl, rfl, rfl, hidle ▸ .idle _⟩
      · exact ⟨rfl, rfl, rfl, rfl, .grow hgrow (by omega)⟩
      · exact ⟨rfl, rfl, rfl, rfl, .shrink hshrink⟩
      · exact ⟨rfl, rfl, rfl, rfl, hidle ▸ .idle _⟩
  | poolStop =>
      simp only [beginStep] at hstep
      split_ifs at hstep <;> obtain rfl := Option.some.inj hstep <;>
        exact ⟨rfl, rfl, rfl, rfl, hidle ▸ .idle _⟩
  | poolDestroy =>
      simp only [beginStep] at hstep
      split_ifs at hstep with hrunning hhandler <;> obtain rfl := Option.some.inj hstep
      · exact ⟨rfl, rfl, rfl, rfl, hidle ▸ .idle _⟩
      · exact ⟨rfl, rfl, rfl, rfl, .destroy hrunning (Option.not_isSome_iff_eq_none.mp hhandler)⟩
  | proceed =>
      obtain ⟨destroying, -, rfl⟩ := Option.map_eq_some_iff.mp hstep
      exact ⟨rfl, rfl, rfl, rfl, .stop destroying⟩
  | _ => cases hstep

/-- A step belongs to the call or to the handler that goes on, begins one, or happens by
itself. -/
inductive Pool.Moves (s : Pool c) : PoolAction c → Pool c → Prop
  | call {call : Call} {n : ℕ} {op : Op} {created : Bool} {forked : Option ℕ} {t : Pool c}
      (hphase : s.phase = .within call n op)
      (hcall : callStep s call n op created forked = some t) : Moves s (.next created forked) t
  | handler {i : Fin c.maxWorkers} {op : Op} {created : Bool} {forked : Option ℕ} {t : Pool c}
      (hhandler : s.handler = some (i, op))
      (hstep : handlerStep s i op created forked = some t) : Moves s (.handle created forked) t
  | opening {l : PoolAction c} {t : Pool c} (hidle : s.phase = .idle)
      (hbegin : beginStep s l = some t) : Moves s l t
  | workerStatus {i : Fin c.maxWorkers} (hdestroyed : s.phase ≠ .destroyed)
      (hnone : s.handler = none) :
      Moves s (.workerStatus i) { s with handler := some (i, .test) }
  | unattended {l : PoolAction c} {t : Pool c} (hnext : ∀ created forked, l ≠ .next created forked)
      (hhandle : ∀ created forked, l ≠ .handle created forked)
      (hst : Unattended s t) : Moves s l t

theorem poolStep_moves {l : PoolAction c} (hstep : s.step l = some t) : s.Moves l t := by
  cases l with
  | next created forked =>
      simp only [Pool.step] at hstep
      split at hstep
      · next call n op hphase => exact .call hphase hstep
      · cases hstep
  | handle created forked =>
      obtain ⟨⟨i, op⟩, hhandler, hstep⟩ := Option.bind_eq_some_iff.mp hstep
      exact .handler hhandler hstep
  | workerStatus i =>
      simp only [Pool.step] at hstep
      split_ifs at hstep with h
      obtain rfl := Option.some.inj hstep
      rw [not_or] at h
      exact .workerStatus h.1 (Option.not_isSome_iff_eq_none.mp h.2)
  | monitor i =>
      simp only [Pool.step] at hstep
      split_ifs at hstep
      exact .unattended (by simp) (by simp) (monitorStep_unattended hstep)
  | die pid =>
      simp only [Pool.step] at hstep
      split at hstep
      · next hrunning =>
          obtain rfl := Option.some.inj hstep
          exact .unattended (by simp) (by simp) (die_unattended hrunning)
      · cases hstep
  | expire i =>
      simp only [Pool.step] at hstep
      split_ifs at hstep
      obtain rfl := Option.some.inj hstep
      exact .unattended (by simp) (by simp) (Unattended.of_setSlot rfl rfl (Or.inl rfl))
  | _ =>
      simp only [Pool.step] at hstep
      split_ifs at hstep with hidle
      exact .opening hidle hstep

/-! ## The slot of the next function -/

/-- What a slot is like before the next function is applied to it. -/
def Placed (w : Slot) : Op → Prop
  | .test | .stop => True
  | .create => w.pid = 0
  | .start => w.pid = 0 ∧ w.state = .created ∧ w.monitorRunning = false
  | .destroy => w.pid = 0 ∨ w.state = .stopped ∧ w.monitorRunning = false

/-- `worker_create` leaves a cleared slot. -/
theorem placed_workerCreate (s : Pool c) (i : Fin c.maxWorkers) (created : Bool) :
    Placed ((workerCreate s i created).workers i) .start := by
  simp [Placed, workerCreate, Pool.setSlot, Slot.zero]

theorem Placed.unattended {op : Op} (h : Placed (s.workers i) op) (hst : Unattended s t) :
    Placed (t.workers i) op := by
  have hstate : (s.workers i).monitorRunning = false →
      (t.workers i).state = (s.workers i).state := by
    intro hmonitor
    refine (hst.state i).resolve_right fun hmarked => ?_
    rw [hmonitor] at hmarked
    cases hmarked.1
  cases op with
  | test | stop => trivial
  | create => exact (hst.pid i).trans h
  | start =>
      obtain ⟨hpid, hcreated, hmonitor⟩ := h
      exact ⟨(hst.pid i).trans hpid, (hstate hmonitor).trans hcreated,
        (hst.monitorRunning i).trans hmonitor⟩
  | destroy =>
      rcases h with hpid | ⟨hstopped, hmonitor⟩
      · exact Or.inl ((hst.pid i).trans hpid)
      · exact Or.inr ⟨(hstate hmonitor).trans hstopped, (hst.monitorRunning i).trans hmonitor⟩

end

end ModernPool

end ProcessThreadPool
