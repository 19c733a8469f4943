import ProcessThreadPool.PipePool.Conservation
import ProcessThreadPool.PipePool.Dispatch
import ProcessThreadPool.PipePool.Processes
import ProcessThreadPool.Lib.JobLine

/-!
# Every accepted task is answered

A pool whose worker processes stay alive and whose writes succeed is a line of jobs with the
worker processes as helpers: a task is sent, read, handled and its result is read. So a task
leaves the queue after a bounded number of rounds and messages, however many are submitted
behind it, the task of a busy worker is returned after at most three messages, and all tasks
are returned when no more are submitted.
-/

namespace ProcessThreadPool

namespace PipePool

open DescriptorTable Transition

/-- The channel of a worker that has never been restarted. -/
def home {n : ℕ} (i : Fin n) : Channel := ⟨i, i⟩

/-- Processes stay alive, writes succeed, ids do not overflow, and a pipe is read when `select`
reports a result. A round of `dispatch_tasks` without an idle worker changes nothing and is
left out. -/
def Undisturbed {n : ℕ} (s : State n) : Action n → Prop
  | .submit taskData dataLen => Sound s (.submit taskData dataLen)
  | .dispatch killOk writeOk =>
      (∀ i, killOk i = true) ∧ writeOk = true ∧ ∃ i, (s.pool.workers i).status = .idle
  | .receive i readOk => readOk = true ∧ ∃ channel,
      s.kernel.fds.lookup (s.pool.workers i).pipeFromWorker.readEnd =
        some (.pipeEnd channel .fromWorker .readEnd) ∧ s.kernel.fromWorker channel ≠ []
  | .setRunning running => running = true
  | .childExit _ => False
  | _ => True

/-- All undisturbed runs of a pool whose worker processes were given positive pids. -/
def undisturbed (n : ℕ) : System (State n) (Action n) where
  init := fun s => s.Created ∧ ∀ i, 0 < (s.pool.workers i).pid
  step := fun s l t => Undisturbed s l ∧ s.step l = some t

/-- The rounds of the master that hand over a message, and the moves of the worker processes. -/
def Action.isWork {n : ℕ} : Action n → Bool
  | .dispatch _ _ | .receive _ _ | .childRead _ | .childWrite _ => true
  | _ => false

/-- The messages after the first one on the channel of a worker. -/
def Action.isMoveOf {n : ℕ} (i : Fin n) : Action n → Bool
  | .receive j _ => decide (j = i)
  | .childRead channel | .childWrite channel => decide (channel = home i)
  | _ => false

/-- No task is submitted. -/
def NoSubmission {n : ℕ} (_ : State n) : Action n → Prop
  | .submit _ _ => False
  | _ => True

/-- The task on a channel, and the number of messages before the last one. -/
def load : List Task → Phase → List TaskResult → Option (ℤ × ℕ)
  | task :: _, _, _ => some (task.taskId, 2)
  | [], .writing result, _ => some (result.taskId, 1)
  | [], _, result :: _ => some (result.taskId, 0)
  | [], _, [] => none

/-- What the worker process of a channel has to do. -/
def Kernel.load (k : Kernel) (channel : Channel) : Option (ℤ × ℕ) :=
  (k.children channel).bind fun child =>
    PipePool.load (k.toWorker channel) child.phase (k.fromWorker channel)

/-- The pool as a line of jobs. -/
def State.jobLine {n : ℕ} (s : State n) : JobLine (Fin n) ℤ where
  arrived := s.accepted
  waiting := s.pool.taskQueue.ids
  helpers := fun i => s.kernel.load (home i)
  done := s.returned

/-- How the status and the task in a record go with the messages on its channel. -/
inductive Stage : WorkerStatus → ℤ → List Task → Phase → List TaskResult → Prop
  | resting : Stage .idle (-1) [] .waiting []
  | sent (task : Task) : Stage .busy task.taskId [task] .waiting []
  | writing (result : TaskResult) : Stage .busy result.taskId [] (.writing result) []
  | answered (result : TaskResult) : Stage .busy result.taskId [] .waiting [result]

/-- The record has the ends of the channel, and its process lives. -/
structure Serves (k : Kernel) (w : WorkerProcess) (channel : Channel) : Prop where
  toWorker : k.fds.lookup w.pipeToWorker.writeEnd =
    some (.pipeEnd channel .toWorker .writeEnd)
  fromWorker : k.fds.lookup w.pipeFromWorker.readEnd =
    some (.pipeEnd channel .fromWorker .readEnd)
  stage : ∃ child, k.children channel = some child ∧
    Stage w.status w.currentTaskId (k.toWorker channel) child.phase (k.fromWorker channel)

/-- What undisturbed runs keep. -/
structure Steady {n : ℕ} (s : State n) : Prop where
  pos : 0 < n
  alive : ∀ i, 0 < (s.pool.workers i).pid
  serves : ∀ i, Serves s.kernel (s.pool.workers i) (home i)
  sole : ∀ channel child, s.kernel.children channel = some child →
    ∃ i : Fin n, channel = home i
  queue : ∃ l, s.pool.taskQueue.Holds l
  next : 0 < s.pool.nextTaskId ∧ s.pool.nextTaskId ≤ 2 ^ 31 - 1

/-- What a step is in the line. -/
inductive Does {n : ℕ} : Action n → JobLine.Act (Fin n) ℤ → Prop
  | submit (taskData : Option (List UInt8)) (dataLen id : ℤ) :
      Does (.submit taskData dataLen) (.submit id)
  | dispatch (killOk : Fin n → Bool) (writeOk : Bool) (i : Fin n) :
      Does (.dispatch killOk writeOk) (.take i)
  | childRead (i : Fin n) : Does (.childRead (home i)) (.move i)
  | childWrite (i : Fin n) : Does (.childWrite (home i)) (.move i)
  | receive (i : Fin n) (readOk : Bool) : Does (.receive i readOk) (.move i)

theorem home_injective {n : ℕ} : Function.Injective (home (n := n)) := by
  intro i j h
  exact Fin.ext (congrArg Channel.worker h)

section Labels

variable {n : ℕ} {l : Action n} {m : JobLine.Act (Fin n) ℤ}

theorem Does.isWork_eq (h : Does l m) : m.isWork = l.isWork := by
  cases h with
  | _ => rfl

theorem Does.isMoveOf_eq (h : Does l m) (i : Fin n) :
    m.isMoveOf i = l.isMoveOf i := by
  cases h with
  | submit | dispatch | receive => rfl
  | childRead j | childWrite j => exact decide_eq_decide.mpr home_injective.eq_iff.symm

end Labels

namespace Stage

variable {status : WorkerStatus} {id : ℤ} {tasks : List Task} {phase : Phase}
  {results : List TaskResult}

theorem idle_iff (h : Stage status id tasks phase results) :
    status = .idle ↔ load tasks phase results = none := by
  cases h with
  | resting => exact ⟨fun _ => rfl, fun _ => rfl⟩
  | sent | writing | answered => exact ⟨fun h => (by cases h), fun h => (by cases h)⟩

theorem busy (h : Stage status id tasks phase results) (hbusy : status ≠ .idle) :
    ∃ m, load tasks phase results = some (id, m) := by
  cases h with
  | resting => exact absurd rfl hbusy
  | sent => exact ⟨2, rfl⟩
  | writing => exact ⟨1, rfl⟩
  | answered => exact ⟨0, rfl⟩

theorem alive (h : Stage status id tasks phase results) :
    status ≠ .dead ∧ phase ≠ .exited ∧ phase ≠ .reaped := by
  cases h with
  | _ => simp

theorem of_idle (h : Stage .idle id tasks phase results) :
    tasks = [] ∧ phase = .waiting ∧ results = [] := by
  cases h with
  | resting => exact ⟨rfl, rfl, rfl⟩

theorem of_task {task : Task} (h : Stage status id (task :: tasks) phase results) :
    (status = .busy ∧ id = task.taskId) ∧ tasks = [] ∧ phase = .waiting ∧ results = [] := by
  cases h with
  | sent => exact ⟨⟨rfl, rfl⟩, rfl, rfl, rfl⟩

theorem of_writing {result : TaskResult} (h : Stage status id tasks (.writing result) results) :
    (status = .busy ∧ id = result.taskId) ∧ tasks = [] ∧ results = [] := by
  cases h with
  | writing => exact ⟨⟨rfl, rfl⟩, rfl, rfl⟩

theorem of_result {result : TaskResult} (h : Stage status id tasks phase (result :: results)) :
    (status = .busy ∧ id = result.taskId) ∧ tasks = [] ∧ phase = .waiting ∧ results = [] := by
  cases h with
  | answered => exact ⟨⟨rfl, rfl⟩, rfl, rfl, rfl⟩

end Stage

/-! ## One channel changes -/

/-- Only the messages and the process of one channel change. -/
structure Kernel.Local (channel : Channel) (k k' : Kernel) : Prop where
  fds : k'.fds = k.fds
  toWorker : ∀ c, c ≠ channel → k'.toWorker c = k.toWorker c
  fromWorker : ∀ c, c ≠ channel → k'.fromWorker c = k.fromWorker c
  children : ∀ c, c ≠ channel → k'.children c = k.children c

section OneChannel

variable {n : ℕ} {s t : State n} {ws : Fin n → WorkerProcess} {k k' : Kernel} {i : Fin n}
  {w : WorkerProcess}

theorem Serves.local {channel c : Channel} (h : Serves k w c) (hlocal : k.Local channel k')
    (hne : c ≠ channel) : Serves k' w c := by
  obtain ⟨child, hchild, hstage⟩ := h.stage
  refine ⟨?_, ?_, child, ?_, ?_⟩
  · rw [hlocal.fds]
    exact h.toWorker
  · rw [hlocal.fds]
    exact h.fromWorker
  · rw [hlocal.children c hne]
    exact hchild
  · rw [hlocal.toWorker c hne, hlocal.fromWorker c hne]
    exact hstage

theorem serves_update (h : ∀ j, Serves k (ws j) (home j)) (hlocal : k.Local (home i) k')
    (hself : Serves k' w (home i)) (j : Fin n) :
    Serves k' (Function.update ws i w j) (home j) := by
  by_cases hj : j = i
  · subst hj
    rw [Function.update_self]
    exact hself
  · rw [Function.update_of_ne hj]
    exact (h j).local hlocal (home_injective.ne hj)

theorem load_update (hlocal : k.Local (home i) k') :
    (fun j : Fin n => k'.load (home j)) =
      Function.update (fun j => k.load (home j)) i (k'.load (home i)) := by
  funext j
  by_cases hj : j = i
  · subst hj
    rw [Function.update_self]
  · have hne : home j ≠ home i := home_injective.ne hj
    rw [Function.update_of_ne hj, Kernel.load, Kernel.load, hlocal.toWorker _ hne,
      hlocal.fromWorker _ hne, hlocal.children _ hne]

/-- A step on the channel of one worker. -/
theorem Steady.update (h : Steady s) (hlocal : s.kernel.Local (home i) t.kernel)
    (hworkers : t.pool.workers = Function.update s.pool.workers i w) (hpid : 0 < w.pid)
    (hself : Serves t.kernel w (home i)) (hqueue : ∃ l, t.pool.taskQueue.Holds l)
    (hnext : t.pool.nextTaskId = s.pool.nextTaskId) : Steady t where
  pos := h.pos
  alive := by
    rw [hworkers]
    exact ThreadFamily.forall_update (P := fun (_ : Fin n) (w : WorkerProcess) => 0 < w.pid)
      h.alive hpid
  serves := by
    rw [hworkers]
    exact serves_update h.serves hlocal hself
  sole := by
    intro c child hchild
    by_cases hc : c = home i
    · exact ⟨i, hc⟩
    · rw [hlocal.children c hc] at hchild
      exact h.sole c child hchild
  queue := hqueue
  next := by
    rw [hnext]
    exact h.next

/-- The worker has nothing to do exactly when it is idle. -/
theorem Serves.idle_iff {channel : Channel} (h : Serves k w channel) :
    w.status = .idle ↔ k.load channel = none := by
  obtain ⟨child, hchild, hstage⟩ := h.stage
  rw [Kernel.load, hchild, Option.bind_some]
  exact hstage.idle_iff

/-- The task in the record of a busy worker is on the channel. -/
theorem Serves.busy {channel : Channel} (h : Serves k w channel) (hbusy : w.status ≠ .idle) :
    ∃ m, k.load channel = some (w.currentTaskId, m) := by
  obtain ⟨child, hchild, hstage⟩ := h.stage
  rw [Kernel.load, hchild, Option.bind_some]
  exact hstage.busy hbusy

end OneChannel

/-! ## One step -/

section Steps

variable {n : ℕ} {s t : State n} {l : Action n} {i : Fin n}

/-- The step is one of the line, or no work and no change of the line. -/
def Shown (s : State n) (l : Action n) (t : State n) : Prop :=
  l.isWork = false ∧ t.jobLine = s.jobLine ∨
    ∃ m, Does l m ∧ JobLine.step 2 s.jobLine m = some t.jobLine

theorem Steady.submit (h : Steady s) {taskData : Option (List UInt8)} {dataLen : ℤ}
    (hsound : Sound s (.submit taskData dataLen)) :
    Steady (s.submitted (processPoolSubmitTask s.pool taskData dataLen)) ∧
      Shown s (.submit taskData dataLen)
        (s.submitted (processPoolSubmitTask s.pool taskData dataLen)) := by
  obtain ⟨queue, hqueue⟩ := h.queue
  rcases processPoolSubmitTask_cases hqueue taskData dataLen with
    heq | ⟨task, q, hid, hq, hvalid, heq⟩
  · rw [heq]
    exact ⟨h, Or.inl ⟨rfl, rfl⟩⟩
  · obtain ⟨hpos, hle⟩ := h.next
    have hne : s.pool.nextTaskId ≠ 2 ^ 31 - 1 :=
      hsound hvalid.1 hvalid.2.1 hvalid.2.2.1 hvalid.2.2.2
    have hnext : increment s.pool.nextTaskId = s.pool.nextTaskId + 1 :=
      increment_eq hpos (by omega)
    rw [heq, State.submitted, hnext, if_neg (by omega)]
    constructor
    · exact ⟨h.pos, h.alive, h.serves, h.sole, ⟨_, hq⟩, by simp only; omega⟩
    · refine Or.inr ⟨.submit task.taskId, .submit _ _ _, ?_⟩
      simp only [JobLine.step, State.jobLine, hqueue.ids_eq, hq.ids_eq, List.map_append,
        List.map_singleton]

/-- When all processes live, a round changes the record of one worker. -/
theorem roundWorkers_of_alive {killOk : Fin n → Bool} (hkill : ∀ j, killOk j = true)
    (ws : Fin n → WorkerProcess) (task : Task) (time : ℤ) :
    roundWorkers killOk ws i task time = Function.update ws i ((ws i).sent task time) := by
  funext j
  rcases lt_trichotomy j i with hlt | rfl | hgt
  · have halive : ¬ (ws j).Vanished (killOk j) := by
      rintro ⟨-, -, hfalse⟩
      rw [hkill] at hfalse
      cases hfalse
    rw [roundWorkers_of_lt hlt, Function.update_of_ne hlt.ne, WorkerProcess.looked,
      if_neg halive]
  · rw [roundWorkers_self, Function.update_self]
  · rw [roundWorkers_of_gt hgt, Function.update_of_ne hgt.ne']

/-- With an idle worker and a task in the queue, a round sends the task. -/
theorem Steady.dispatch (h : Steady s) {killOk : Fin n → Bool} (hkill : ∀ j, killOk j = true)
    (hidle : ∃ i, (s.pool.workers i).status = .idle) (hcount : 0 < s.pool.taskQueue.count) :
    Steady (s.put (dispatchRound killOk true s.pool s.kernel).2) ∧
      Shown s (.dispatch killOk true) (s.put (dispatchRound killOk true s.pool s.kernel).2) := by
  obtain ⟨queue, hqueue⟩ := h.queue
  obtain ⟨j, hj⟩ := hidle
  have hmem : j ∈ readyWorkers killOk s.pool.workers :=
    (mem_readyWorkers killOk).mpr ⟨hj, h.alive j, hkill j⟩
  obtain ⟨i, is, hready⟩ := List.exists_cons_of_ne_nil (List.ne_nil_of_mem hmem)
  have hself : (s.pool.workers i).Ready (killOk i) := by
    rw [← mem_readyWorkers, hready]
    exact List.mem_cons_self
  obtain ⟨task, rest, rfl⟩ : ∃ task rest, queue = task :: rest := by
    refine List.exists_cons_of_ne_nil fun hnil => ?_
    rw [hqueue.count_eq, hnil] at hcount
    exact absurd hcount (lt_irrefl 0)
  have hserves := h.serves i
  obtain ⟨q, hq, hround⟩ := dispatchRound_of_cons hready hqueue hserves.toWorker
  rw [hround, roundWorkers_of_alive hkill]
  obtain ⟨⟨pid, handler, phase⟩, hchild, hstage⟩ := hserves.stage
  rw [hself.1] at hstage
  obtain ⟨hto, rfl, hfrom⟩ := hstage.of_idle
  rw [hto]
  have hlocal : s.kernel.Local (home i) { s.kernel with
      toWorker := Function.update s.kernel.toWorker (home i) [task] } :=
    ⟨rfl, fun c hc => Function.update_of_ne hc _ _, fun _ _ => rfl, fun _ _ => rfl⟩
  have hnew : Serves { s.kernel with
      toWorker := Function.update s.kernel.toWorker (home i) [task] }
      ((s.pool.workers i).sent task s.kernel.now) (home i) := by
    refine ⟨hserves.toWorker, hserves.fromWorker, _, hchild, ?_⟩
    simp only [Function.update_self, hfrom]
    exact .sent task
  refine ⟨h.update hlocal rfl (h.alive i) hnew ⟨_, hq⟩ rfl,
    Or.inr ⟨.take i, .dispatch _ _ _, ?_⟩⟩
  have hfree := hserves.idle_iff.mp hself.1
  simp only [JobLine.step, State.jobLine, hfree, hqueue.ids_eq, List.map_cons, State.put,
    List.nil_append, hq.ids_eq, load_update hlocal]
  simp only [Kernel.load, hchild, Option.bind_some, Function.update_self, load]

theorem Steady.childRead (h : Steady s) {channel : Channel} {k : Kernel}
    (hk : s.kernel.childRead channel = some k) :
    Steady { s with kernel := k } ∧ Shown s (.childRead channel) { s with kernel := k } := by
  simp only [Kernel.childRead] at hk
  split at hk
  swap
  · cases hk
  next pid handler task tasks hchild htasks =>
  obtain rfl := Option.some.inj hk
  obtain ⟨i, rfl⟩ := h.sole channel _ hchild
  have hserves := h.serves i
  obtain ⟨child, hchild', hstage⟩ := hserves.stage
  rw [hchild] at hchild'
  obtain rfl := Option.some.inj hchild'
  rw [htasks] at hstage
  obtain ⟨⟨hstatus, hcurrent⟩, rfl, -, hfrom⟩ := hstage.of_task
  have hlocal : s.kernel.Local (home i) { s.kernel with
      toWorker := Function.update s.kernel.toWorker (home i) []
      children := Function.update s.kernel.children (home i)
        (some ⟨pid, handler, .writing (handleTask handler task)⟩) } :=
    ⟨rfl, fun c hc => Function.update_of_ne hc _ _, fun _ _ => rfl,
      fun c hc => Function.update_of_ne hc _ _⟩
  have hnew : Serves { s.kernel with
      toWorker := Function.update s.kernel.toWorker (home i) []
      children := Function.update s.kernel.children (home i)
        (some ⟨pid, handler, .writing (handleTask handler task)⟩) }
      (s.pool.workers i) (home i) := by
    refine ⟨hserves.toWorker, hserves.fromWorker, _, Function.update_self _ _ _, ?_⟩
    simp only [Function.update_self, hfrom, hstatus, hcurrent]
    exact .writing (handleTask handler task)
  refine ⟨h.update hlocal (Function.update_eq_self _ _).symm (h.alive i) hnew h.queue rfl,
    Or.inr ⟨.move i, .childRead i, ?_⟩⟩
  have hbusy : s.kernel.load (home i) = some (task.taskId, 2) := by
    rw [Kernel.load, hchild, htasks]
    rfl
  simp only [JobLine.step, State.jobLine, hbusy, load_update hlocal]
  simp only [Kernel.load, Option.bind_some, Function.update_self, load, handleTask]

theorem Steady.childWrite (h : Steady s) {channel : Channel} {k : Kernel}
    (hk : s.kernel.childWrite channel = some k) :
    Steady { s with kernel := k } ∧ Shown s (.childWrite channel) { s with kernel := k } := by
  simp only [Kernel.childWrite] at hk
  split at hk
  swap
  · cases hk
  next pid handler result hchild =>
  obtain rfl := Option.some.inj hk
  obtain ⟨i, rfl⟩ := h.sole channel _ hchild
  have hserves := h.serves i
  obtain ⟨child, hchild', hstage⟩ := hserves.stage
  rw [hchild] at hchild'
  obtain rfl := Option.some.inj hchild'
  obtain ⟨⟨hstatus, hcurrent⟩, hto, hfrom⟩ := hstage.of_writing
  rw [hfrom]
  have hlocal : s.kernel.Local (home i) { s.kernel with
      fromWorker := Function.update s.kernel.fromWorker (home i) [result]
      children := Function.update s.kernel.children (home i) (some ⟨pid, handler, .waiting⟩) } :=
    ⟨rfl, fun _ _ => rfl, fun c hc => Function.update_of_ne hc _ _,
      fun c hc => Function.update_of_ne hc _ _⟩
  have hnew : Serves { s.kernel with
      fromWorker := Function.update s.kernel.fromWorker (home i) [result]
      children := Function.update s.kernel.children (home i) (some ⟨pid, handler, .waiting⟩) }
      (s.pool.workers i) (home i) := by
    refine ⟨hserves.toWorker, hserves.fromWorker, _, Function.update_self _ _ _, ?_⟩
    simp only [Function.update_self, hto, hstatus, hcurrent]
    exact .answered result
  refine ⟨h.update hlocal (Function.update_eq_self _ _).symm (h.alive i) hnew h.queue rfl,
    Or.inr ⟨.move i, .childWrite i, ?_⟩⟩
  have hbusy : s.kernel.load (home i) = some (result.taskId, 1) := by
    rw [Kernel.load, hchild, hto]
    rfl
  simp only [JobLine.step, State.jobLine, hbusy, List.nil_append, load_update hlocal]
  simp only [Kernel.load, Option.bind_some, Function.update_self, hto, load]

/-- A result that is there is returned. -/
theorem Steady.receive (h : Steady s) {channel : Channel}
    (hpipe : s.kernel.fds.lookup (s.pool.workers i).pipeFromWorker.readEnd =
      some (.pipeEnd channel .fromWorker .readEnd)) (hresults : s.kernel.fromWorker channel ≠ []) :
    Steady (s.received (receiveRound i true s.pool s.kernel)) ∧
      Shown s (.receive i true) (s.received (receiveRound i true s.pool s.kernel)) := by
  have hserves := h.serves i
  obtain rfl : home i = channel := by
    rw [hserves.fromWorker, Option.some.injEq, Descriptor.pipeEnd.injEq] at hpipe
    exact hpipe.1
  obtain ⟨result, results, hfrom⟩ := List.exists_cons_of_ne_nil hresults
  obtain ⟨⟨pid, handler, phase⟩, hchild, hstage⟩ := hserves.stage
  rw [hfrom] at hstage
  obtain ⟨⟨-, -⟩, hto, rfl, rfl⟩ := hstage.of_result
  have hround : receiveRound i true s.pool s.kernel = (some result,
      { s.pool with workers := Function.update s.pool.workers i { s.pool.workers i with
          status := .idle
          currentTaskId := -1
          lastActive := s.kernel.now } },
      { s.kernel with
        fromWorker := Function.update s.kernel.fromWorker (home i) [] }) := by
    simp only [receiveRound, receiveResultFromWorker, Kernel.readResult, hserves.fromWorker, hfrom,
      Bool.true_eq_false, if_false]
  rw [hround]
  have hlocal : s.kernel.Local (home i) { s.kernel with
      fromWorker := Function.update s.kernel.fromWorker (home i) [] } :=
    ⟨rfl, fun _ _ => rfl, fun c hc => Function.update_of_ne hc _ _, fun _ _ => rfl⟩
  have hnew : Serves { s.kernel with
      fromWorker := Function.update s.kernel.fromWorker (home i) [] }
      { s.pool.workers i with
        status := .idle
        currentTaskId := -1
        lastActive := s.kernel.now } (home i) := by
    refine ⟨hserves.toWorker, hserves.fromWorker, _, hchild, ?_⟩
    simp only [Function.update_self, hto]
    exact .resting
  refine ⟨h.update hlocal rfl (h.alive i) hnew h.queue rfl, Or.inr ⟨.move i, .receive i _, ?_⟩⟩
  have hbusy : s.kernel.load (home i) = some (result.taskId, 0) := by
    rw [Kernel.load, hchild, hto, hfrom]
    rfl
  simp only [JobLine.step, State.jobLine, hbusy, State.received, State.put, Option.map_some,
    Option.toList_some, load_update hlocal]
  simp only [Kernel.load, hchild, Option.bind_some, Function.update_self, hto, load]

/-- An undisturbed step keeps the invariant and is one of the line, or none. -/
theorem Steady.step (h : Steady s) (hl : Undisturbed s l) (hstep : s.step l = some t) :
    Steady t ∧ Shown s l t := by
  cases l with
  | submit taskData dataLen =>
      obtain rfl := Option.some.inj hstep
      exact h.submit hl
  | dispatch killOk writeOk =>
      simp only [State.step] at hstep
      split_ifs at hstep with hcount
      obtain rfl := Option.some.inj hstep
      obtain ⟨hkill, rfl, hidle⟩ := hl
      exact h.dispatch hkill hidle hcount
  | receive i readOk =>
      simp only [State.step] at hstep
      split_ifs at hstep
      obtain rfl := Option.some.inj hstep
      obtain ⟨rfl, channel, hpipe, hresults⟩ := hl
      exact h.receive hpipe hresults
  | reap channel =>
      -- No process has exited.
      obtain ⟨r, hwait, -⟩ := Option.map_eq_some_iff.mp hstep
      simp only [Kernel.waitChild] at hwait
      split at hwait
      · next pid handler hchild =>
          obtain ⟨i, rfl⟩ := h.sole channel _ hchild
          obtain ⟨child, hchild', hstage⟩ := (h.serves i).stage
          rw [hchild] at hchild'
          obtain rfl := Option.some.inj hchild'
          exact absurd rfl hstage.alive.2.1
      · cases hwait
  | restart i outcome =>
      -- No worker is dead.
      simp only [State.step] at hstep
      split_ifs at hstep with hdead
      obtain ⟨child, -, hstage⟩ := (h.serves i).stage
      exact absurd hdead hstage.alive.1
  | setRunning running =>
      obtain rfl := Option.some.inj hstep
      exact ⟨⟨h.pos, h.alive, h.serves, h.sole, h.queue, h.next⟩, Or.inl ⟨rfl, rfl⟩⟩
  | tick now =>
      obtain rfl := Option.some.inj hstep
      exact ⟨⟨h.pos, h.alive, fun i => ⟨(h.serves i).toWorker, (h.serves i).fromWorker,
        (h.serves i).stage⟩, h.sole, h.queue, h.next⟩, Or.inl ⟨rfl, rfl⟩⟩
  | childRead channel =>
      obtain ⟨k, hk, rfl⟩ := Option.map_eq_some_iff.mp hstep
      exact h.childRead hk
  | childWrite channel =>
      obtain ⟨k, hk, rfl⟩ := Option.map_eq_some_iff.mp hstep
      exact h.childWrite hk
  | childExit channel => exact absurd hl id

/-- Work of the line can be done in the pool. -/
theorem Steady.offer (h : Steady s) (hrunning : s.pool.running = true)
    {m : JobLine.Act (Fin n) ℤ} (hwork : m.isWork = true) {u : JobLine (Fin n) ℤ}
    (hstep : JobLine.step 2 s.jobLine m = some u) :
    ∃ l, Does l m ∧ Undisturbed s l ∧ (s.step l).isSome = true := by
  cases m with
  | submit id => cases hwork
  | take i =>
      obtain ⟨queue, hqueue⟩ := h.queue
      cases JobLine.step_moves hstep with
      | take hfree hwaiting =>
      have hidle : (s.pool.workers i).status = .idle := (h.serves i).idle_iff.mpr hfree
      have hcount : 0 < s.pool.taskQueue.count := by
        change s.pool.taskQueue.ids = _ at hwaiting
        rw [hqueue.ids_eq] at hwaiting
        have hlength := congrArg List.length hwaiting
        rw [List.length_map, List.length_cons] at hlength
        rw [hqueue.count_eq]
        omega
      refine ⟨.dispatch (fun _ => true) true, .dispatch _ _ i, ⟨fun _ => rfl, rfl, i, hidle⟩, ?_⟩
      rw [State.step, if_pos hcount]
      rfl
  | move i =>
      have hserves := h.serves i
      have hbusy : s.kernel.load (home i) ≠ none := by
        intro hnone
        cases JobLine.step_moves hstep with
        | go hload | finish hload =>
            rw [show s.jobLine.helpers i = none from hnone] at hload
            cases hload
      obtain ⟨⟨pid, handler, phase⟩, hchild, hstage⟩ := hserves.stage
      cases hto : s.kernel.toWorker (home i) with
      | cons task tasks =>
          rw [hto] at hstage
          obtain ⟨-, -, rfl, -⟩ := hstage.of_task
          refine ⟨.childRead (home i), .childRead i, trivial, ?_⟩
          rw [State.step, Kernel.childRead, hchild, hto]
          rfl
      | nil =>
      cases phase with
      | writing result =>
          refine ⟨.childWrite (home i), .childWrite i, trivial, ?_⟩
          rw [State.step, Kernel.childWrite, hchild]
          rfl
      | waiting =>
          have hresults : s.kernel.fromWorker (home i) ≠ [] := by
            intro hnil
            rw [Kernel.load, hchild, hto, hnil] at hbusy
            exact hbusy rfl
          obtain ⟨result, results, hfrom⟩ := List.exists_cons_of_ne_nil hresults
          rw [hto, hfrom] at hstage
          obtain ⟨⟨hstatus, -⟩, -⟩ := hstage.of_result
          have hwatched : (s.pool.workers i).watched = true := by
            have hnumber : (s.pool.workers i).pipeFromWorker.readEnd ≠ -1 := by
              intro hnone
              have hlookup := hserves.fromWorker
              rw [hnone, s.kernel.fds.lookup_of_neg (by decide)] at hlookup
              cases hlookup
            rw [WorkerProcess.watched, hstatus, decide_eq_true hnumber]
            rfl
          refine ⟨.receive i true, .receive i true, ⟨rfl, _, hserves.fromWorker, hresults⟩, ?_⟩
          rw [State.step, hrunning, hwatched]
          rfl
      | exited => exact absurd rfl hstage.alive.2.1
      | reaped => exact absurd rfl hstage.alive.2.2

end Steps

/-! ## Creation -/

section Creation

variable {n : ℕ}

/-- The workers created so far, in the order of their indices. -/
structure Opening (ws : Fin n → WorkerProcess) (k : Kernel) : Prop where
  serves : ∀ j : Fin n, (j : ℕ) < k.sessions → Serves k (ws j) (home j)
  idle : ∀ j : Fin n, (ws j).status = .idle
  sole : ∀ channel child, k.children channel = some child → ∃ i : Fin n, channel = home i
  empty : ∀ channel, k.toWorker channel = [] ∧ k.fromWorker channel = []

/-- One more worker is created. -/
theorem Opening.create {ws : Fin n → WorkerProcess} {k : Kernel} (h : Opening ws k) {i : Fin n}
    (hi : (i : ℕ) = k.sessions) {handler : Option TaskHandler} {outcome : CreateOutcome}
    {r : WorkerOutcome} (hr : createWorkerProcess i handler outcome (ws i) k = r)
    (hok : r.ok = true) :
    Opening (Function.update ws i r.worker) r.kernel ∧ r.kernel.sessions = k.sessions + 1 := by
  rcases (createWorkerProcess_cases _ _ _ _ _ hr).2 with ⟨-, hcreated⟩ | ⟨hfailed, -⟩
  swap
  · rw [hok] at hfailed
    cases hfailed
  obtain ⟨pid, hkernel⟩ := hcreated.kernel
  have hsessions : r.kernel.sessions = k.sessions + 1 := hkernel.sessions_eq
  rw [Kernel.FdsOnly] at hkernel
  have hto : r.kernel.toWorker = k.toWorker := by rw [hkernel]; rfl
  have hfrom : r.kernel.fromWorker = k.fromWorker := by rw [hkernel]; rfl
  have hchildren : r.kernel.children =
      Function.update k.children (home i) (some ⟨pid, handler, .waiting⟩) := by
    rw [hkernel, home, ← hi]
    rfl
  have hidle : ∀ j, (Function.update ws i r.worker j).status = .idle :=
    ThreadFamily.forall_update (P := fun (_ : Fin n) (w : WorkerProcess) => w.status = .idle)
      h.idle hcreated.status
  refine ⟨⟨fun j hj => ?_, hidle, fun channel child hchild => ?_, fun channel => ?_⟩, hsessions⟩
  · by_cases hji : j = i
    · subst hji
      rw [Function.update_self]
      refine ⟨?_, ?_, ⟨pid, handler, .waiting⟩, ?_, ?_⟩
      · rw [hcreated.lookup, Function.update_of_ne hcreated.ne, Function.update_self, home, hi]
      · rw [hcreated.lookup, Function.update_self, home, hi]
      · rw [hchildren, Function.update_self]
      · rw [hcreated.status, hcreated.currentTaskId, hto, hfrom, (h.empty _).1, (h.empty _).2]
        exact .resting
    · have hne : (j : ℕ) ≠ i := fun heq => hji (Fin.ext heq)
      have hold := h.serves j (by omega)
      obtain ⟨child, hchild, hstage⟩ := hold.stage
      rw [Function.update_of_ne hji]
      refine ⟨createWorkerProcess_lookup hr hold.toWorker,
        createWorkerProcess_lookup hr hold.fromWorker, child, ?_, ?_⟩
      · rw [hchildren, Function.update_of_ne (home_injective.ne hji), hchild]
      · rw [hto, hfrom]
        exact hstage
  · rw [hchildren, Function.update_apply] at hchild
    split_ifs at hchild with hc
    · exact ⟨i, hc⟩
    · exact h.sole channel child hchild
  · rw [hto, hfrom]
    exact h.empty channel

theorem Opening.createAmong {handler : Option TaskHandler} {outcomes : Fin n → CreateOutcome}
    (is done : List (Fin n)) {ws : Fin n → WorkerProcess} {k : Kernel} (h : Opening ws k)
    (his : is = (List.finRange n).drop k.sessions) {ws' : Fin n → WorkerProcess} {k' : Kernel}
    (hr : PipePool.createAmong handler outcomes done is ws k = (some ws', k')) :
    Opening ws' k' ∧ n ≤ k'.sessions := by
  induction is generalizing done ws k with
  | nil =>
      obtain ⟨hws, rfl⟩ := Prod.mk.inj hr
      obtain rfl := Option.some.inj hws
      refine ⟨h, ?_⟩
      have hle := List.drop_eq_nil_iff.mp his.symm
      rwa [List.length_finRange] at hle
  | cons i is ih =>
      have hlt : k.sessions < (List.finRange n).length := by
        by_contra hge
        rw [List.drop_eq_nil_of_le (Nat.not_lt.mp hge)] at his
        cases his
      rw [List.drop_eq_getElem_cons hlt, List.cons.injEq, List.getElem_finRange] at his
      obtain ⟨rfl, rfl⟩ := his
      rw [PipePool.createAmong] at hr
      generalize hcreate : createWorkerProcess _ handler _ _ k = r at hr
      cases hok : r.ok with
      | false => simp [hok] at hr
      | true =>
          simp only [hok, if_true] at hr
          obtain ⟨hnext, hsessions⟩ := h.create rfl hcreate hok
          exact ih _ hnext (by rw [hsessions]) hr

theorem steady_created {s : State n} (h : s.Created) (hpids : ∀ i, 0 < (s.pool.workers i).pid) :
    Steady s ∧ s.jobLine.Accounted ∧ s.jobLine.Ordered 0 := by
  obtain ⟨opened, handler, mallocOk, signalsOk, outcomes, pool, kernel, hcreate, rfl⟩ := h
  have hpos : 0 < n := by
    by_contra hzero
    rw [processPoolCreate, if_pos (Or.inl (Nat.eq_zero_of_not_pos hzero))] at hcreate
    cases hcreate
  obtain ⟨ws, hamong, rfl⟩ := processPoolCreate_cases hcreate
  have hstart : Opening (fun _ : Fin n => .zero) (Kernel.start opened) := by
    refine ⟨fun j hj => absurd hj (Nat.not_lt_zero _), fun _ => rfl,
      fun channel child hchild => ?_, fun _ => ⟨rfl, rfl⟩⟩
    cases hchild
  obtain ⟨hopened, hle⟩ := hstart.createAmong _ _ rfl hamong
  have hserves := fun i : Fin n => hopened.serves i (i.isLt.trans_le hle)
  have hids : initTaskQueue.ids = [] := TaskQueue.Holds.init.ids_eq
  refine ⟨⟨hpos, hpids, hserves, hopened.sole, ⟨[], TaskQueue.Holds.init⟩,
    show (0 : ℤ) < 1 ∧ (1 : ℤ) ≤ 2 ^ 31 - 1 by decide⟩, ?_, ?_, Nat.zero_le _⟩
  · have hheld : ThreadFamily.total JobLine.held (fun i : Fin n => kernel.load (home i)) = 0 := by
      refine ThreadFamily.total_eq_zero fun i => ?_
      rw [(hserves i).idle_iff.mp (hopened.idle i)]
      rfl
    simp only [JobLine.Accounted, State.jobLine, hids, hheld]
    rfl
  · simp only [State.jobLine, hids]
    exact List.suffix_refl []

end Creation

/-! ## Whole runs -/

section Runs

variable {n : ℕ} {s : State n}

/-- What undisturbed runs keep of the pool and of its line. -/
theorem steady_reachable (h : Reachable (undisturbed n) s) :
    Steady s ∧ s.jobLine.Accounted ∧ s.jobLine.Ordered 0 := by
  refine Inductive.reachable (T := undisturbed n)
    (I := fun s => Steady s ∧ s.jobLine.Accounted ∧ s.jobLine.Ordered 0)
    ⟨fun s hs => steady_created hs.1 hs.2, ?_⟩ h
  rintro s l t ⟨hsteady, haccounted, hordered⟩ ⟨hl, hstep⟩
  obtain ⟨ht, ⟨-, hsame⟩ | ⟨m, -, hm⟩⟩ := hsteady.step hl hstep
  · rw [← hsame] at haccounted hordered
    exact ⟨ht, haccounted, hordered⟩
  · exact ⟨ht, haccounted.step hm, hordered.step hm⟩

theorem processPoolSubmitTask_running (pool : ProcessPool n) (taskData : Option (List UInt8))
    (dataLen : ℤ) :
    (processPoolSubmitTask pool taskData dataLen).2.running = pool.running := by
  cases taskData with
  | none => rfl
  | some bytes =>
      simp only [processPoolSubmitTask]
      split_ifs <;> rfl

theorem dispatchRound_running (killOk : Fin n → Bool) (writeOk : Bool) (pool : ProcessPool n)
    (k : Kernel) : (dispatchRound killOk writeOk pool k).2.1.running = pool.running := by
  simp only [dispatchRound]
  split
  · rfl
  · split
    · rfl
    · split <;> rfl

/-- The pool is in `process_pool_run`. -/
structure Serving (s : State n) : Prop where
  steady : Steady s
  running : s.pool.running = true

theorem Serving.step {t : State n} {l : Action n} (h : Serving s) (hl : Undisturbed s l)
    (hstep : s.step l = some t) : Serving t := by
  refine ⟨(h.steady.step hl hstep).1, ?_⟩
  cases l with
  | submit taskData dataLen =>
      obtain rfl := Option.some.inj hstep
      exact (processPoolSubmitTask_running _ _ _).trans h.running
  | dispatch killOk writeOk =>
      simp only [State.step] at hstep
      split_ifs at hstep
      obtain rfl := Option.some.inj hstep
      exact (dispatchRound_running _ _ _ _).trans h.running
  | receive | restart =>
      simp only [State.step] at hstep
      split_ifs at hstep
      obtain rfl := Option.some.inj hstep
      exact h.running
  | setRunning running =>
      obtain rfl := Option.some.inj hstep
      exact hl
  | tick now =>
      obtain rfl := Option.some.inj hstep
      exact h.running
  | reap | childRead | childWrite | childExit =>
      obtain ⟨r, -, rfl⟩ := Option.map_eq_some_iff.mp hstep
      exact h.running

/-- Seen as a line, the pool does the work of the line. -/
theorem mirrors_line :
    Progress.Mirrors (undisturbed n) Action.isWork (JobLine.line (Fin n) ℤ 2) JobLine.Act.isWork
      State.jobLine Serving where
  keep := fun s l t h hstep => h.step hstep.1 hstep.2
  step := by
    rintro s l t h ⟨hl, hstep⟩
    rcases (h.steady.step hl hstep).2 with hsame | ⟨m, hdoes, hm⟩
    · exact Or.inl hsame
    · exact Or.inr ⟨m, hdoes.isWork_eq, hm⟩
  offer := by
    intro s m u h hwork hstep
    obtain ⟨l, hdoes, hl, hsome⟩ := h.steady.offer h.running hwork hstep
    obtain ⟨t, ht⟩ := Option.isSome_iff_exists.mp hsome
    exact ⟨l, t, hdoes.isWork_eq.symm.trans hwork, hl, ht⟩

theorem Action.isMoveOf_of_not_work {l : Action n} (h : l.isWork = false) (i : Fin n) :
    l.isMoveOf i = false := by
  cases l with
  | dispatch | receive | childRead | childWrite => cases h
  | _ => rfl

/-- The messages on the channel of one worker are the moves of one helper. -/
theorem mirrors_move (i : Fin n) :
    Progress.Mirrors (undisturbed n) (Action.isMoveOf i) (JobLine.line (Fin n) ℤ 2)
      (JobLine.Act.isMoveOf i) State.jobLine Serving where
  keep := fun s l t h hstep => h.step hstep.1 hstep.2
  step := by
    rintro s l t h ⟨hl, hstep⟩
    rcases (h.steady.step hl hstep).2 with ⟨hwork, hsame⟩ | ⟨m, hdoes, hm⟩
    · exact Or.inl ⟨Action.isMoveOf_of_not_work hwork i, hsame⟩
    · exact Or.inr ⟨m, hdoes.isMoveOf_eq i, hm⟩
  offer := by
    intro s m u h hmove hstep
    have hwork : m.isWork = true := by
      cases m with
      | submit | take => cases hmove
      | move => rfl
    obtain ⟨l, hdoes, hl, hsome⟩ := h.steady.offer h.running hwork hstep
    obtain ⟨t, ht⟩ := Option.isSome_iff_exists.mp hsome
    exact ⟨l, t, (hdoes.isMoveOf_eq i).symm.trans hmove, hl, ht⟩

/-- Without submissions nothing comes into the line. -/
theorem mirrors_closed :
    Progress.Mirrors ((undisturbed n).restrict NoSubmission) Action.isWork
      ((JobLine.line (Fin n) ℤ 2).restrict JobLine.Closed) JobLine.Act.isWork State.jobLine
      Serving where
  keep := fun s l t h hstep => h.step hstep.2.1 hstep.2.2
  step := by
    rintro s l t h ⟨hnone, hl, hstep⟩
    rcases (h.steady.step hl hstep).2 with hsame | ⟨m, hdoes, hm⟩
    · exact Or.inl hsame
    · refine Or.inr ⟨m, hdoes.isWork_eq, ?_, hm⟩
      cases hdoes with
      | submit => exact absurd hnone id
      | _ => rfl
  offer := by
    rintro s m u h hwork ⟨-, hstep⟩
    obtain ⟨l, hdoes, hl, hsome⟩ := h.steady.offer h.running hwork hstep
    obtain ⟨t, ht⟩ := Option.isSome_iff_exists.mp hsome
    refine ⟨l, t, hdoes.isWork_eq.symm.trans hwork, ?_, hl, ht⟩
    cases hdoes with
    | submit => cases hwork
    | _ => trivial

/-- The first `k` tasks that were accepted have left the queue after a bounded amount of work,
however many are submitted behind them. -/
theorem tasks_sent (h : Reachable (undisturbed n) s) (hrunning : s.pool.running = true) {k : ℕ}
    (hk : k ≤ s.accepted.length) :
    Finishes (undisturbed n) Action.isWork
      (fun t => t.pool.taskQueue.ids <:+ t.accepted.drop k) s := by
  obtain ⟨hsteady, -, hordered⟩ := steady_reachable h
  have hnonempty : Nonempty (Fin n) := ⟨⟨0, hsteady.pos⟩⟩
  exact ((JobLine.line_progress k).pullback mirrors_line).finishes
    ⟨⟨hsteady, hrunning⟩, hordered.suffix, hk⟩

/-- A pool of one worker, which was sent the first of two tasks. -/
theorem undisturbed_one : ∃ s : State 1, Reachable (undisturbed 1) s ∧ s.pool.running = true ∧
    s.accepted = [1, 2] ∧ (s.pool.workers 0).status = .busy ∧
    (s.pool.workers 0).currentTaskId = 1 := by
  have hcreated : State.Created _ := ⟨[true, true, true], none, true, true,
    fun _ : Fin 1 => ⟨.created, .created, some 7⟩, _, _, rfl, rfl⟩
  refine ⟨_, ⟨_, [.submit (some [97]) 1, .submit (some [98]) 1, .setRunning true,
    .dispatch (fun _ => true) true], ⟨hcreated, by decide⟩,
    .cons ⟨fun _ _ _ _ => by decide, rfl⟩ (.cons ⟨fun _ _ _ _ => by decide, rfl⟩
      (.cons ⟨rfl, rfl⟩ (.cons ⟨⟨fun _ => rfl, rfl, 0, rfl⟩, rfl⟩ (.nil _))))⟩,
    rfl, rfl, rfl, rfl⟩

/-- Both tasks have left the queue after a bounded amount of work. -/
theorem tasks_sent_two : ∃ s : State 1, s.accepted = [1, 2] ∧
    Finishes (undisturbed 1) Action.isWork
      (fun t => t.pool.taskQueue.ids <:+ t.accepted.drop 2) s := by
  obtain ⟨s, hreach, hrunning, haccepted, -⟩ := undisturbed_one
  exact ⟨s, haccepted, tasks_sent hreach hrunning (by rw [haccepted]; decide)⟩

/-- The task of a busy worker is returned after a bounded number of messages on its channel,
whatever the other workers do. -/
theorem task_answered (h : Reachable (undisturbed n) s) (hrunning : s.pool.running = true)
    {i : Fin n} (hbusy : (s.pool.workers i).status = .busy) :
    Finishes (undisturbed n) (Action.isMoveOf i)
      (fun t => (s.pool.workers i).currentTaskId ∈ t.returned) s := by
  obtain ⟨hsteady, -, -⟩ := steady_reachable h
  have hkept := (hsteady.serves i).busy (by rw [hbusy]; decide)
  exact ((JobLine.taken_progress i _).pullback (mirrors_move i)).finishes
    ⟨⟨hsteady, hrunning⟩, Or.inr hkept⟩

theorem task_answered_one : ∃ s : State 1, s.accepted = [1, 2] ∧
    Finishes (undisturbed 1) (Action.isMoveOf 0) (fun t => 1 ∈ t.returned) s := by
  obtain ⟨s, hreach, hrunning, haccepted, hbusy, hcurrent⟩ := undisturbed_one
  have hanswered := task_answered hreach hrunning hbusy
  rw [hcurrent] at hanswered
  exact ⟨s, haccepted, hanswered⟩

/-- When no more tasks are submitted, exactly the accepted ones have been returned after a
bounded amount of work. -/
theorem tasks_answered (h : Reachable (undisturbed n) s) (hrunning : s.pool.running = true) :
    Finishes ((undisturbed n).restrict NoSubmission) Action.isWork
      (fun t => t.returned.Perm t.accepted) s := by
  obtain ⟨hsteady, haccounted, -⟩ := steady_reachable h
  have hnonempty : Nonempty (Fin n) := ⟨⟨0, hsteady.pos⟩⟩
  exact (JobLine.closed_progress.pullback mirrors_closed).finishes
    ⟨⟨hsteady, hrunning⟩, haccounted⟩

theorem tasks_answered_two : ∃ s : State 1, s.accepted = [1, 2] ∧
    Finishes ((undisturbed 1).restrict NoSubmission) Action.isWork
      (fun t => t.returned.Perm t.accepted) s := by
  obtain ⟨s, hreach, hrunning, haccepted, -⟩ := undisturbed_one
  exact ⟨s, haccepted, tasks_answered hreach hrunning⟩

end Runs

end PipePool

end ProcessThreadPool
