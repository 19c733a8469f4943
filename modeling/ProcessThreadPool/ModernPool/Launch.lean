import ProcessThreadPool.ModernPool.Control
import ProcessThreadPool.ModernPool.Task

/-!
# One worker in two processes

`worker_create` and `worker_start` in the master, `worker_main_loop` in the process that
`fork` makes, and what the master does afterwards: the monitor thread, calls of
`worker_is_alive` and calls of `worker_stop`. The record of the worker is ordinary memory.
After `fork` each process reads and writes its own copy, and the eventfd and the clock are
all that they share. So the child goes on to find the state that `worker_start` stored
before `fork`, which is `STARTING`: the first test of the loop condition ends its loop.
-/

namespace ProcessThreadPool

namespace ModernPool

namespace Launch

/-- `worker_internal_t`, as far as both processes use it. -/
structure WorkerRecord where
  state : WorkerState
  pid : ℤ
  lastHeartbeat : UInt64
  monitorRunning : Bool
  deriving DecidableEq, Repr

/-- The record after `memset`. -/
def WorkerRecord.zero : WorkerRecord := ⟨.created, 0, 0, false⟩

/-- Where the master stands in `worker_create` and `worker_start`. -/
inductive Start where
  | outside
  | created
  | storedState
  | forked (pid : ℤ)
  | storedPid
  | storedRunning
  | returned (err : PoolError)
  deriving DecidableEq, Repr

/-- The calls of `worker_main_loop` before its loop that can fail. -/
inductive SetUp where
  | signals
  | epollCreate
  | addTask
  | addControl
  deriving DecidableEq, Repr

/-- The eventfds that the child's epoll instance reports. -/
inductive Source where
  | task
  | control
  deriving DecidableEq, Repr

/-- What `epoll_wait` does. -/
inductive EpollOutcome where
  | interrupted
  | failed
  | timedOut
  | ready (events : List Source)
  deriving DecidableEq, Repr

/-- Where the child stands in `worker_main_loop`: before the loop, at its condition, in
`epoll_wait`, at the next event, behind the loop. `gone` is a process that has ended. -/
inductive Place where
  | settingUp (next : SetUp)
  | testing
  | waiting
  | handling (events : List Source)
  | left
  | gone
  deriving DecidableEq, Repr

/-- The child: its copy of the record, where it stands, its variable `running`, and the
commands it has read. -/
structure Child where
  record : WorkerRecord
  place : Place
  running : Bool
  acted : List Command
  deriving DecidableEq, Repr

/-- Where a call of `worker_is_alive` stands. -/
inductive Call where
  | idle
  | passed
  | read (now : UInt64)
  | returned (alive : Bool)
  deriving DecidableEq, Repr

/-- Both processes. `calls none` is the monitor thread. `createdAt` is the time at which
`worker_create` stored the heartbeat, and `refreshedAt` that of the child's last one, or
of `fork`. -/
structure Twin (ι : Type*) where
  clock : UInt64
  master : WorkerRecord
  start : Start
  child : Option Child
  counter : ℕ
  monitoring : Bool
  calls : Option ι → Call
  stops : ι → Stop
  createdAt : UInt64
  refreshedAt : UInt64

/-- Before `worker_create`. -/
def Twin.initial {ι : Type*} (clock : UInt64) : Twin ι where
  clock := clock
  master := WorkerRecord.zero
  start := .outside
  child := none
  counter := 0
  monitoring := false
  calls := fun _ => .idle
  stops := fun _ => .idle
  createdAt := 0
  refreshedAt := 0

/-- What happens next. -/
inductive TwinMove (ι : Type*) where
  | create (ok : Bool)
  | start
  | fork (pid : Option ℕ)
  | recordPid
  | recordRunning
  | startMonitor (ok : Bool)
  | setUp (ok : Bool)
  | test
  | epoll (outcome : EpollOutcome)
  | handle
  | exit
  | kill
  | call (c : Option ι) (killOk : Bool)
  | conclude
  | stop (c : ι)
  | tick (now : UInt64)
  deriving DecidableEq, Repr

/-- `WORKER_HEARTBEAT_INTERVAL`, in seconds. -/
def workerHeartbeatInterval : UInt64 := 5

/-- `heartbeat_timeout`. -/
def heartbeatTimeout : UInt64 := workerHeartbeatInterval * 2 * 1000000000

/-- The process has not ended. -/
def Child.alive (c : Child) : Bool := decide (c.place ≠ .gone)

/-- The next call of the set-up, and where the child stands when it succeeds. -/
def SetUp.next : SetUp → Place
  | .signals => .settingUp .epollCreate
  | .epollCreate => .settingUp .addTask
  | .addTask => .settingUp .addControl
  | .addControl => .testing

/-- The child stores its heartbeat, in its own copy. -/
def Child.refresh (c : Child) (now : UInt64) : Child :=
  { c with record := { c.record with lastHeartbeat := now } }

/-- The child goes on somewhere else. -/
def Child.goto (c : Child) (place : Place) : Child := { c with place := place }

section

variable {ι : Type*}

/-- A step of the child that touches nothing else. -/
def Twin.setChild (s : Twin ι) (c : Child) : Twin ι := { s with child := some c }

/-- The child stores its heartbeat and goes on somewhere else. -/
def Twin.refresh (s : Twin ι) (c : Child) (place : Place) : Twin ι :=
  { s with child := some ((c.refresh s.clock).goto place), refreshedAt := s.clock }

/-- The child reads `control_eventfd` and acts on what it finds. -/
def Twin.readControl (s : Twin ι) (c : Child) (events : List Source) : Twin ι :=
  match eventfdRead s.counter with
  | none => s.setChild (c.goto (.handling events))
  | some (value, counter) =>
      match Command.ofCode value with
      | none => { s.setChild (c.goto (.handling events)) with counter := counter }
      | some command =>
          let acted := { c with acted := c.acted ++ [command] }
          match command with
          | .shutdown =>
              { s.setChild ({ acted with running := false }.goto (.handling events)) with
                counter := counter }
          | .pause | .resume =>
              { s.setChild (acted.goto (.handling events)) with counter := counter }
          | .ping => { s.refresh acted (.handling events) with counter := counter }

/-- A step of the child in `worker_main_loop`. -/
def Twin.childStep (s : Twin ι) (c : Child) : TwinMove ι → Option (Twin ι)
  | .setUp ok =>
      match c.place with
      | .settingUp next => some (s.setChild (c.goto (if ok then next.next else .gone)))
      | _ => none
  | .test =>
      if c.place = .testing then
        some (s.setChild (c.goto
          (if c.running = true ∧ c.record.state = .running then .waiting else .left)))
      else none
  | .epoll outcome =>
      if c.place = .waiting then
        match outcome with
        | .interrupted => some (s.setChild (c.goto .testing))
        | .failed => some (s.setChild (c.goto .left))
        | .timedOut => some (s.refresh c .testing)
        | .ready events => some (s.setChild (c.goto (.handling events)))
      else none
  | .handle =>
      match c.place with
      | .handling [] => some (s.setChild (c.goto .testing))
      | .handling (.task :: events) => some (s.setChild (c.goto (.handling events)))
      | .handling (.control :: events) => some (s.readControl c events)
      | _ => none
  | .exit => if c.place = .left then some (s.setChild (c.goto .gone)) else none
  | .kill => if c.alive then some (s.setChild (c.goto .gone)) else none
  | _ => none

/-- The master writes a command; a failed write is only logged. -/
def Twin.post (s : Twin ι) (c : Command) : Twin ι :=
  { s with counter := (eventfdWrite s.counter c.code).getD s.counter }

variable [DecidableEq ι]

/-- The next step of a call of `worker_is_alive`. `killOk` is false when `kill` reports
`ESRCH`, which it does for a process that has ended and been waited for. The monitor
thread makes a call as long as it runs. -/
def Twin.callStep (s : Twin ι) (c : Option ι) (killOk : Bool) : Option (Twin ι) :=
  match s.calls c with
  | .passed => some { s with calls := Function.update s.calls c (.read s.clock) }
  | .read now => some { s with
      calls := Function.update s.calls c
        (.returned (decide (now - s.master.lastHeartbeat < heartbeatTimeout))) }
  | .idle | .returned _ =>
      if c = none ∧ (s.monitoring && s.master.monitorRunning) = false then none
      else if s.master.pid ≤ 0 then
        some { s with calls := Function.update s.calls c (.returned false) }
      else if killOk then some { s with calls := Function.update s.calls c .passed }
      else if (s.child.map Child.alive).getD false then none
      else some { s with calls := Function.update s.calls c (.returned false) }

/-- What `worker_monitor_thread` does with the answer of `worker_is_alive`. -/
def Twin.conclude (s : Twin ι) : Option (Twin ι) :=
  match s.calls none with
  | .returned true => some { s.post .ping with calls := Function.update s.calls none .idle }
  | .returned false => some { s with
      master := { s.master with state := .error }
      monitoring := false
      calls := Function.update s.calls none .idle }
  | _ => none

/-- The next step of a call of `worker_stop`: test the state, store the new one, send the
command, wait for the process or kill it, join the monitor thread. -/
def Twin.stopStep (s : Twin ι) (c : ι) : Option (Twin ι) :=
  match s.stops c with
  | .idle | .returned =>
      some { s with
        stops := Function.update s.stops c
          (if 0 < s.master.pid ∧ s.master.state = .running then .checked else .returned) }
  | .checked => some { s with
      master := { s.master with state := .stopping }
      stops := Function.update s.stops c .stored }
  | .stored => some { s.post .shutdown with stops := Function.update s.stops c .sent }
  | .sent => some { s with
      child := s.child.map (·.goto .gone)
      master := { s.master with monitorRunning := false }
      stops := Function.update s.stops c .joining }
  | .joining =>
      if s.monitoring then none
      else some { s with
        master := { s.master with state := .stopped }
        stops := Function.update s.stops c .returned }

/-- One step. `stored` is the state that `worker_start` stores before it forks. -/
def Twin.step (stored : WorkerState) (s : Twin ι) : TwinMove ι → Option (Twin ι)
  | .create ok =>
      if s.start = .outside then
        if ok then
          some { s with
            master := { WorkerRecord.zero with lastHeartbeat := s.clock }
            start := .created
            createdAt := s.clock }
        else some { s with
          master := WorkerRecord.zero
          start := .returned .systemCall }
      else none
  | .start =>
      if s.start = .created then
        if s.master.state = .created then
          some { s with master := { s.master with state := stored }, start := .storedState }
        else some { s with start := .returned .invalidParam }
      else none
  | .fork pid =>
      if s.start = .storedState then
        match pid with
        | none => some { s with
            master := { s.master with state := .error }
            start := .returned .systemCall }
        | some pid => some { s with
            start := .forked (pid + 1)
            child := some ⟨s.master, .settingUp .signals, true, []⟩
            refreshedAt := s.clock }
      else none
  | .recordPid =>
      match s.start with
      | .forked pid => some { s with
          master := { s.master with pid := pid }
          start := .storedPid }
      | _ => none
  | .recordRunning =>
      if s.start = .storedPid then
        some { s with master := { s.master with state := .running }, start := .storedRunning }
      else none
  | .startMonitor ok =>
      if s.start = .storedRunning then
        some { s with
          master := { s.master with monitorRunning := true }
          start := .returned .success
          monitoring := ok }
      else none
  | .call c killOk => s.callStep c killOk
  | .conclude => s.conclude
  | .stop c => s.stopStep c
  | .tick now => if s.clock ≤ now then some { s with clock := now } else none
  | l => s.child.bind fun c => s.childStep c l

end

/-- All interleavings of the two processes, when `worker_start` stores the given state
before it forks. -/
def launching {ι : Type*} [DecidableEq ι] (stored : WorkerState) :
    Transition.System (Twin ι) (TwinMove ι) where
  init := fun s => ∃ clock, s = Twin.initial clock
  step := fun s l t => s.step stored l = some t

/-! ## What both claims need of the steps -/

/-- The master has not stored the pid of the child yet. -/
def Start.early : Start → Bool
  | .outside | .created | .storedState | .forked _ => true
  | _ => false

/-- Until the pid is stored nothing but `worker_create` and `worker_start` moves the
record, so `fork` copies the state that was stored before it. -/
structure Twin.Prepared {ι : Type*} (stored : WorkerState) (s : Twin ι) : Prop where
  state : s.start = .storedState → s.master.state = stored
  pid : s.start.early = true → s.master.pid = 0
  monitoring : s.start.early = true → s.monitoring = false
  calls : s.start.early = true → s.calls none = .idle
  stops : s.start.early = true → ∀ c, s.stops c = .idle ∨ s.stops c = .returned

section Steps

variable {ι : Type*} {s t : Twin ι} {stored : WorkerState} {c : Child} {l : TwinMove ι}

theorem readControl_frame (s : Twin ι) (c : Child) (events : List Source) :
    ∃ child counter refreshedAt, s.readControl c events = { s with
      child := some child
      counter := counter
      refreshedAt := refreshedAt } := by
  simp only [Twin.readControl]
  split
  · exact ⟨_, _, _, rfl⟩
  · split
    · exact ⟨_, _, _, rfl⟩
    · next command _ => cases command <;> exact ⟨_, _, _, rfl⟩

/-- The child changes its own copy, the counter, and nothing else. -/
theorem childStep_frame (hstep : s.childStep c l = some t) :
    ∃ child counter refreshedAt, t = { s with
      child := some child
      counter := counter
      refreshedAt := refreshedAt } := by
  cases l with
  | setUp ok =>
      simp only [Twin.childStep] at hstep
      split at hstep
      · obtain rfl := Option.some.inj hstep
        exact ⟨_, _, _, rfl⟩
      · cases hstep
  | epoll outcome =>
      simp only [Twin.childStep] at hstep
      split_ifs at hstep
      cases outcome <;> obtain rfl := Option.some.inj hstep <;> exact ⟨_, _, _, rfl⟩
  | handle =>
      simp only [Twin.childStep] at hstep
      split at hstep
      · obtain rfl := Option.some.inj hstep
        exact ⟨_, _, _, rfl⟩
      · obtain rfl := Option.some.inj hstep
        exact ⟨_, _, _, rfl⟩
      · obtain rfl := Option.some.inj hstep
        exact readControl_frame s c _
      · cases hstep
  | test | exit | kill =>
      simp only [Twin.childStep] at hstep
      split_ifs at hstep <;> obtain rfl := Option.some.inj hstep <;> exact ⟨_, _, _, rfl⟩
  | _ => cases hstep

/-- A call of `worker_is_alive` changes nothing but where it stands, and the monitor
thread makes one only while it runs. -/
theorem callStep_frame [DecidableEq ι] {c : Option ι} {killOk : Bool}
    (hstep : s.callStep c killOk = some t) : ∃ call,
      t = { s with calls := Function.update s.calls c call } ∧
        (c = none → s.calls none = .idle → s.monitoring = true) := by
  cases hc : s.calls c with
  | passed =>
      simp only [Twin.callStep, hc, Option.some.injEq] at hstep
      subst hstep
      refine ⟨_, rfl, fun hnone hidle => ?_⟩
      rw [← hnone, hc] at hidle
      cases hidle
  | read now =>
      simp only [Twin.callStep, hc, Option.some.injEq] at hstep
      subst hstep
      refine ⟨_, rfl, fun hnone hidle => ?_⟩
      rw [← hnone, hc] at hidle
      cases hidle
  | idle | returned =>
      simp only [Twin.callStep, hc] at hstep
      split_ifs at hstep with hmonitor <;> obtain rfl := Option.some.inj hstep <;>
        refine ⟨_, rfl, fun hnone _ => ?_⟩ <;>
        exact (Bool.and_eq_true_iff.mp (by simpa [hnone] using hmonitor)).1

theorem stopStep_start [DecidableEq ι] {c : ι} (hstep : s.stopStep c = some t) :
    t.start = s.start := by
  cases hc : s.stops c with
  | joining =>
      simp only [Twin.stopStep, hc] at hstep
      split_ifs at hstep
      obtain rfl := Option.some.inj hstep
      rfl
  | _ =>
      simp only [Twin.stopStep, hc, Option.some.injEq] at hstep
      subst hstep
      rfl

theorem prepared_initial (clock : UInt64) :
    (Twin.initial clock : Twin ι).Prepared stored where
  state := fun h => by cases h
  pid := fun _ => rfl
  monitoring := fun _ => rfl
  calls := fun _ => rfl
  stops := fun _ _ => Or.inl rfl

namespace Twin.Prepared

/-- The master has moved on, and nothing is left to show before the pid is stored. -/
theorem of_late (hstart : t.start.early = false) : t.Prepared stored := by
  have hnot : ¬ t.start.early = true := by rw [hstart]; decide
  refine ⟨fun h => ?_, fun h => absurd h hnot, fun h => absurd h hnot,
    fun h => absurd h hnot, fun h => absurd h hnot⟩
  rw [h] at hstart
  cases hstart

theorem of_same (h : s.Prepared stored) (hstart : t.start = s.start)
    (hmaster : t.master = s.master) (hmonitoring : t.monitoring = s.monitoring)
    (hcalls : t.calls none = s.calls none) (hstops : t.stops = s.stops) :
    t.Prepared stored := by
  constructor
  · rw [hstart, hmaster]
    exact h.state
  · rw [hstart, hmaster]
    exact h.pid
  · rw [hstart, hmonitoring]
    exact h.monitoring
  · rw [hstart, hcalls]
    exact h.calls
  · rw [hstart, hstops]
    exact h.stops

variable [DecidableEq ι]

theorem callStep (h : s.Prepared stored) {c : Option ι} {killOk : Bool}
    (hstep : s.callStep c killOk = some t) : t.Prepared stored := by
  obtain ⟨call, rfl, hmonitor⟩ := callStep_frame hstep
  by_cases hearly : s.start.early = true
  · refine h.of_same rfl rfl rfl (Function.update_of_ne (fun hc => ?_) _ _) rfl
    have hmonitoring := hmonitor hc.symm (h.calls hearly)
    rw [h.monitoring hearly] at hmonitoring
    cases hmonitoring
  · exact of_late (Bool.eq_false_iff.mpr hearly)

theorem conclude (h : s.Prepared stored) (hstep : s.conclude = some t) :
    t.Prepared stored := by
  by_cases hearly : s.start.early = true
  · simp only [Twin.conclude, h.calls hearly] at hstep
    cases hstep
  · have hlate : s.start.early = false := Bool.eq_false_iff.mpr hearly
    simp only [Twin.conclude] at hstep
    split at hstep
    · obtain rfl := Option.some.inj hstep
      exact of_late hlate
    · obtain rfl := Option.some.inj hstep
      exact of_late hlate
    · cases hstep

theorem stopStep (h : s.Prepared stored) {c : ι} (hstep : s.stopStep c = some t) :
    t.Prepared stored := by
  by_cases hearly : s.start.early = true
  · -- No call of `worker_stop` gets past its test while there is no pid.
    have hreturned : t = { s with stops := Function.update s.stops c .returned } := by
      have htest : ¬ (0 < s.master.pid ∧ s.master.state = .running) := by
        rw [h.pid hearly]
        exact fun hpos => absurd hpos.1 (by decide)
      rcases h.stops hearly c with hc | hc <;>
        simp only [Twin.stopStep, hc, if_neg htest, Option.some.injEq] at hstep <;>
        exact hstep.symm
    rw [hreturned]
    refine ⟨h.state, h.pid, h.monitoring, h.calls, fun _ c' => ?_⟩
    by_cases hc : c' = c
    · subst hc
      exact Or.inr (Function.update_self _ _ _)
    · simp only [Function.update_of_ne hc]
      exact h.stops hearly c'
  · have hstart : t.start = s.start := stopStep_start hstep
    exact of_late (by rw [hstart]; exact Bool.eq_false_iff.mpr hearly)

theorem step (h : s.Prepared stored) (hstep : s.step stored l = some t) :
    t.Prepared stored := by
  cases l with
  | create ok =>
      simp only [Twin.step] at hstep
      split_ifs at hstep with hstart hok <;> obtain rfl := Option.some.inj hstep
      · have hearly : s.start.early = true := by rw [hstart]; rfl
        exact ⟨fun heq => (by cases heq), fun _ => rfl, fun _ => h.monitoring hearly,
          fun _ => h.calls hearly, fun _ => h.stops hearly⟩
      · exact of_late rfl
  | start =>
      simp only [Twin.step] at hstep
      split_ifs at hstep with hstart hstate <;> obtain rfl := Option.some.inj hstep
      · have hearly : s.start.early = true := by rw [hstart]; rfl
        exact ⟨fun _ => rfl, fun _ => h.pid hearly, fun _ => h.monitoring hearly,
          fun _ => h.calls hearly, fun _ => h.stops hearly⟩
      · exact of_late rfl
  | fork pid =>
      simp only [Twin.step] at hstep
      split_ifs at hstep with hstart
      have hearly : s.start.early = true := by rw [hstart]; rfl
      cases pid with
      | none =>
          obtain rfl := Option.some.inj hstep
          exact of_late rfl
      | some pid =>
          obtain rfl := Option.some.inj hstep
          exact ⟨fun heq => (by cases heq), fun _ => h.pid hearly, fun _ => h.monitoring hearly,
            fun _ => h.calls hearly, fun _ => h.stops hearly⟩
  | recordPid =>
      simp only [Twin.step] at hstep
      split at hstep
      · obtain rfl := Option.some.inj hstep
        exact of_late rfl
      · cases hstep
  | recordRunning =>
      simp only [Twin.step] at hstep
      split_ifs at hstep
      obtain rfl := Option.some.inj hstep
      exact of_late rfl
  | startMonitor ok =>
      simp only [Twin.step] at hstep
      split_ifs at hstep
      obtain rfl := Option.some.inj hstep
      exact of_late rfl
  | call c killOk => exact h.callStep hstep
  | conclude => exact h.conclude hstep
  | stop c => exact h.stopStep hstep
  | tick now =>
      simp only [Twin.step] at hstep
      split_ifs at hstep
      obtain rfl := Option.some.inj hstep
      exact h.of_same rfl rfl rfl rfl rfl
  | setUp _ | test | epoll _ | handle | exit | kill =>
      obtain ⟨c, -, hchild⟩ := Option.bind_eq_some_iff.mp hstep
      obtain ⟨_, _, _, rfl⟩ := childStep_frame hchild
      exact h.of_same rfl rfl rfl rfl rfl

end Twin.Prepared

end Steps

end Launch

end ModernPool

end ProcessThreadPool
