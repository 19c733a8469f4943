import ProcessThreadPool.PipePool.Worker
import ProcessThreadPool.Lib.RingWindow

/-!
# The pipe-based process pool: the functions of the master

`process_pool_t` and what `process_pool.c` and the messaging part of `utils.c` do with
it. The master is one thread, so a function is a function of the pool and the kernel;
what the system calls answer (`kill`, `write`, `read`, `select`, `waitpid`, `pipe`,
`fork`) is an argument. A loop over the workers is a recursion on the list of the
indices still to be visited.
-/

namespace ProcessThreadPool

namespace PipePool

open RingWindow DescriptorTable

/-- `MAX_WORKERS`. -/
def maxWorkers : ℕ := 32

/-- `MAX_TASK_QUEUE`. -/
def maxTaskQueue : ℕ := 1024

/-- `task_queue_t`. A slot that was never stored to is `none`. -/
structure TaskQueue where
  tasks : List (Option Task)
  head : ℤ
  tail : ℤ
  count : ℤ
  deriving DecidableEq, Repr

/-- `process_pool_t` with `n` workers, without `read_fds` and `max_fd`, which
`update_fd_sets` computes anew before each use. -/
structure ProcessPool (n : ℕ) where
  workers : Fin n → WorkerProcess
  taskQueue : TaskQueue
  running : Bool
  nextTaskId : ℤ

/-- `++` on an `int`, which wraps around. -/
def increment (x : ℤ) : ℤ := (x + 1).bmod (2 ^ 32)

/-- `init_task_queue` on a zeroed queue. -/
def initTaskQueue : TaskQueue := ⟨List.replicate maxTaskQueue none, 0, 0, 0⟩

/-- `enqueue_task`. -/
def enqueueTask (q : TaskQueue) (task : Task) : Bool × TaskQueue :=
  if (maxTaskQueue : ℤ) ≤ q.count then (false, q)
  else (true, { q with
    tasks := q.tasks.set q.tail.toNat (some task)
    tail := (q.tail + 1).tmod maxTaskQueue
    count := q.count + 1 })

/-- `dequeue_task`. -/
def dequeueTask (q : TaskQueue) : Option Task × TaskQueue :=
  if q.count = 0 then (none, q)
  else (slotAt q.tasks q.head.toNat, { q with
    head := (q.head + 1).tmod maxTaskQueue
    count := q.count - 1 })

/-- `is_worker_alive`. `killOk` is false when `kill` reports `ESRCH`. -/
def isWorkerAlive (killOk : Bool) (w : WorkerProcess) : Bool × WorkerProcess :=
  if w.pid ≤ 0 then (false, w)
  else if killOk then (true, w)
  else (false, { w with status := .dead })

/-- The loop of `find_idle_worker`. -/
def findIdleAmong {n : ℕ} (killOk : Fin n → Bool) :
    List (Fin n) → (Fin n → WorkerProcess) → Option (Fin n) × (Fin n → WorkerProcess)
  | [], ws => (none, ws)
  | i :: is, ws =>
      if (ws i).status = .idle then
        let alive := isWorkerAlive (killOk i) (ws i)
        if alive.1 then (some i, Function.update ws i alive.2)
        else findIdleAmong killOk is (Function.update ws i alive.2)
      else findIdleAmong killOk is ws

/-- `find_idle_worker`. -/
def findIdleWorker {n : ℕ} (killOk : Fin n → Bool) (ws : Fin n → WorkerProcess) :
    Option (Fin n) × (Fin n → WorkerProcess) :=
  findIdleAmong killOk (List.finRange n) ws

/-- `safe_write` of a task: the new kernel when all of it was written. -/
def Kernel.writeTask (k : Kernel) (fd : ℤ) (task : Task) (writeOk : Bool) : Option Kernel :=
  match k.fds.lookup fd with
  | some (.pipeEnd channel .toWorker .writeEnd) =>
      if writeOk then
        some { k with
          toWorker := Function.update k.toWorker channel (k.toWorker channel ++ [task]) }
      else none
  | _ => none

/-- `send_task_to_worker`. -/
def sendTaskToWorker (k : Kernel) (w : WorkerProcess) (task : Task) (writeOk : Bool) :
    WorkerOutcome :=
  match k.writeTask w.pipeToWorker.writeEnd task writeOk with
  | some k' =>
      ⟨true, { w with
        status := .busy
        currentTaskId := task.taskId
        lastActive := k.now }, k'⟩
  | none => ⟨false, w, k⟩

/-- What `safe_read` of a result returns: the whole of it, 0, or -1. -/
inductive ReadResult where
  | full (result : TaskResult) (kernel : Kernel)
  | empty
  | failed

/-- `safe_read` of a result. It returns 0 when the pipe is empty, whether or not it
has been closed. -/
def Kernel.readResult (k : Kernel) (fd : ℤ) (readOk : Bool) : ReadResult :=
  match k.fds.lookup fd with
  | some (.pipeEnd channel .fromWorker .readEnd) =>
      if readOk = false then .failed
      else
        match k.fromWorker channel with
        | [] => .empty
        | result :: results =>
            .full result { k with
              fromWorker := Function.update k.fromWorker channel results }
  | _ => .failed

/-- `receive_result_from_worker`. -/
def receiveResultFromWorker (k : Kernel) (w : WorkerProcess) (readOk : Bool) :
    Option TaskResult × WorkerProcess × Kernel :=
  match k.readResult w.pipeFromWorker.readEnd readOk with
  | .full result k' =>
      (some result, { w with
        status := .idle
        currentTaskId := -1
        lastActive := k.now }, k')
  | .empty => (none, { w with status := .dead }, k)
  | .failed => (none, w, k)

/-- The loop of `reap_dead_children` over the workers, for one pid. -/
def markReaped {n : ℕ} (pid : ℤ) :
    List (Fin n) → (Fin n → WorkerProcess) → (Fin n → WorkerProcess)
  | [], ws => ws
  | i :: is, ws =>
      if (ws i).pid = pid then
        Function.update ws i { ws i with status := .dead, pid := -1 }
      else markReaped pid is ws

/-- One round of `dispatch_tasks`, and whether the loop goes on. -/
def dispatchRound {n : ℕ} (killOk : Fin n → Bool) (writeOk : Bool) (pool : ProcessPool n)
    (k : Kernel) : Bool × ProcessPool n × Kernel :=
  let found := findIdleWorker killOk pool.workers
  match found.1 with
  | none => (false, { pool with workers := found.2 }, k)
  | some i =>
      let taken := dequeueTask pool.taskQueue
      match taken.1 with
      | none => (false, { pool with workers := found.2, taskQueue := taken.2 }, k)
      | some task =>
          match sendTaskToWorker k (found.2 i) task writeOk with
          | ⟨false, w, k'⟩ =>
              (false, { pool with
                workers := Function.update found.2 i { w with status := .dead }
                taskQueue := (enqueueTask taken.2 task).2 }, k')
          | ⟨true, w, k'⟩ =>
              (true, { pool with
                workers := Function.update found.2 i w
                taskQueue := taken.2 }, k')

/-- `process_pool_submit_task` on a pool that is not `NULL`. -/
def processPoolSubmitTask {n : ℕ} (pool : ProcessPool n) (taskData : Option (List UInt8))
    (dataLen : ℤ) : ℤ × ProcessPool n :=
  match taskData with
  | none => (-1, pool)
  | some bytes =>
      if dataLen ≤ 0 ∨ (maxTaskData : ℤ) ≤ dataLen then (-1, pool)
      else if (maxTaskQueue : ℤ) ≤ pool.taskQueue.count then (-1, pool)
      else
        let task : Task := ⟨pool.nextTaskId, bytes.take dataLen.toNat ++ [0], dataLen⟩
        let numbered := { pool with nextTaskId := increment pool.nextTaskId }
        let stored := enqueueTask pool.taskQueue task
        if stored.1 = false then (-1, numbered)
        else (task.taskId, { numbered with taskQueue := stored.2 })

/-- The test of `update_fd_sets` and of the result loop. -/
def WorkerProcess.watched (w : WorkerProcess) : Bool :=
  decide (w.status ≠ .dead) && decide (w.pipeFromWorker.readEnd ≠ -1)

/-- `max_fd` after `update_fd_sets`. -/
def maxFd {n : ℕ} (pool : ProcessPool n) : ℤ :=
  (List.finRange n).foldl (fun m i =>
    if (pool.workers i).watched then max m (pool.workers i).pipeFromWorker.readEnd else m) (-1)

/-- One worker's turn in the result loop of `process_pool_get_result`. -/
def receiveRound {n : ℕ} (i : Fin n) (readOk : Bool) (pool : ProcessPool n) (k : Kernel) :
    Option TaskResult × ProcessPool n × Kernel :=
  let r := receiveResultFromWorker k (pool.workers i) readOk
  (r.1, { pool with workers := Function.update pool.workers i r.2.1 }, r.2.2)

/-- The result loop of `process_pool_get_result`. `isset` are the bits that `select`
left in the set. -/
def receiveAmong {n : ℕ} (isset readOk : Fin n → Bool) :
    List (Fin n) → ProcessPool n → Kernel → Option TaskResult × ProcessPool n × Kernel
  | [], pool, k => (none, pool, k)
  | i :: is, pool, k =>
      if (pool.workers i).watched && isset i then
        let r := receiveRound i (readOk i) pool k
        match r.1 with
        | some result => (some result, r.2)
        | none => receiveAmong isset readOk is r.2.1 r.2.2
      else receiveAmong isset readOk is pool k

/-- What `select` does, and how the reads that follow go. -/
inductive SelectOutcome (n : ℕ) where
  | interrupted
  | failed
  | timedOut
  | ready (isset readOk : Fin n → Bool)

/-- `process_pool_get_result`. `none`: after the given rounds it is still in its
loop. -/
def processPoolGetResult {n : ℕ} :
    List (SelectOutcome n) → ProcessPool n → Kernel →
      Option (Option TaskResult × ProcessPool n × Kernel)
  | [], pool, k => if pool.running then none else some (none, pool, k)
  | outcome :: outcomes, pool, k =>
      if pool.running = false then some (none, pool, k)
      else if maxFd pool = -1 then processPoolGetResult outcomes pool k
      else
        match outcome with
        | .interrupted => processPoolGetResult outcomes pool k
        | .failed | .timedOut => some (none, pool, k)
        | .ready isset readOk =>
            let r := receiveAmong isset readOk (List.finRange n) pool k
            match r.1 with
            | some result => some (some result, r.2)
            | none => processPoolGetResult outcomes r.2.1 r.2.2

/-- `reap_dead_children`, when `waitpid` returns the processes of the channels. -/
def reapDeadChildren {n : ℕ} :
    List Channel → ProcessPool n → Kernel → Option (ProcessPool n × Kernel)
  | [], pool, k => some (pool, k)
  | channel :: channels, pool, k =>
      (k.waitChild channel).bind fun r =>
        reapDeadChildren channels
          { pool with workers := markReaped r.1 (List.finRange n) pool.workers } r.2

/-- The restart of one worker in `process_pool_run`, with a `NULL` handler. -/
def restartRound {n : ℕ} (i : Fin n) (outcome : CreateOutcome) (pool : ProcessPool n)
    (k : Kernel) : ProcessPool n × Kernel :=
  let r := restartDeadWorker i none outcome (pool.workers i) k
  ({ pool with workers := Function.update pool.workers i r.worker }, r.kernel)

/-- The restart loop of `process_pool_run`. -/
def restartAmong {n : ℕ} (outcomes : Fin n → CreateOutcome) :
    List (Fin n) → ProcessPool n → Kernel → ProcessPool n × Kernel
  | [], pool, k => (pool, k)
  | i :: is, pool, k =>
      if (pool.workers i).status = .dead then
        let r := restartRound i (outcomes i) pool k
        restartAmong outcomes is r.1 r.2
      else restartAmong outcomes is pool k

/-- At most `rounds` rounds of the loop of `dispatch_tasks`, each at its time, and the
number of tasks sent. -/
def dispatchRounds {n : ℕ} (now : ℕ → ℤ) (killOk : ℕ → Fin n → Bool) (writeOk : ℕ → Bool) :
    ℕ → ProcessPool n → Kernel → ℕ × ProcessPool n × Kernel
  | 0, pool, k => (0, pool, k)
  | rounds + 1, pool, k =>
      if 0 < pool.taskQueue.count then
        let r := dispatchRound (killOk rounds) (writeOk rounds) pool
          { k with now := now rounds }
        if r.1 then
          let rest := dispatchRounds now killOk writeOk rounds r.2.1 r.2.2
          (rest.1 + 1, rest.2)
        else (0, r.2)
      else (0, pool, k)

/-- `dispatch_tasks`. A round that does not leave the loop takes a task out of the
queue, so there are no more rounds than tasks. -/
def dispatchTasks {n : ℕ} (now : ℕ → ℤ) (killOk : ℕ → Fin n → Bool) (writeOk : ℕ → Bool)
    (pool : ProcessPool n) (k : Kernel) : ℕ × ProcessPool n × Kernel :=
  dispatchRounds now killOk writeOk pool.taskQueue.count.toNat pool k

/-- What a round of the loop of `process_pool_run` meets: the processes that `waitpid`
returns, the outcomes of the restarts, and those of the calls in `dispatch_tasks`. -/
structure RunRound (n : ℕ) where
  reaped : List Channel
  outcomes : Fin n → CreateOutcome
  now : ℕ → ℤ
  killOk : ℕ → Fin n → Bool
  writeOk : ℕ → Bool

/-- The loop of `process_pool_run`, until `running` or `pool_should_exit` ends it. -/
def runRounds {n : ℕ} :
    List (RunRound n) → ProcessPool n → Kernel → Option (ProcessPool n × Kernel)
  | [], pool, k => some (pool, k)
  | round :: rounds, pool, k =>
      (reapDeadChildren round.reaped pool k).bind fun r =>
        let restarted := restartAmong round.outcomes (List.finRange n) r.1 r.2
        let sent := dispatchTasks round.now round.killOk round.writeOk restarted.1 restarted.2
        runRounds rounds sent.2.1 sent.2.2

/-- `process_pool_run`. -/
def processPoolRun {n : ℕ} (rounds : List (RunRound n)) (pool : ProcessPool n) (k : Kernel) :
    Option (ProcessPool n × Kernel) :=
  (runRounds rounds { pool with running := true } k).map fun r =>
    ({ r.1 with running := false }, r.2)

/-- The loop of `process_pool_create`; `done` are the workers created so far, which
are terminated when a creation fails. -/
def createAmong {n : ℕ} (handler : Option TaskHandler) (outcomes : Fin n → CreateOutcome)
    (done : List (Fin n)) :
    List (Fin n) → (Fin n → WorkerProcess) → Kernel →
      Option (Fin n → WorkerProcess) × Kernel
  | [], ws, k => (some ws, k)
  | i :: is, ws, k =>
      let r := createWorkerProcess i handler (outcomes i) (ws i) k
      if r.ok then
        createAmong handler outcomes (done ++ [i]) is (Function.update ws i r.worker) r.kernel
      else
        (none, done.foldl (fun k (j : Fin n) => (terminateWorkerProcess j (ws j) k).2) r.kernel)

/-- `process_pool_create` for `n` workers. The flags are the outcomes of `malloc` and
of `setup_master_signals`. -/
def processPoolCreate (n : ℕ) (handler : Option TaskHandler) (mallocOk signalsOk : Bool)
    (outcomes : Fin n → CreateOutcome) (k : Kernel) : Option (ProcessPool n) × Kernel :=
  if n = 0 ∨ maxWorkers < n then (none, k)
  else if mallocOk = false then (none, k)
  else if signalsOk = false then (none, k)
  else
    let created := createAmong handler outcomes [] (List.finRange n) (fun _ => .zero) k
    (created.1.map fun ws => ⟨ws, initTaskQueue, false, 1⟩, created.2)

/-- A pool that was created has the workers of the loop and an empty queue. -/
theorem processPoolCreate_cases {n : ℕ} {handler : Option TaskHandler} {mallocOk signalsOk : Bool}
    {outcomes : Fin n → CreateOutcome} {k k' : Kernel} {pool : ProcessPool n}
    (h : processPoolCreate n handler mallocOk signalsOk outcomes k = (some pool, k')) :
    ∃ ws, createAmong handler outcomes [] (List.finRange n) (fun _ => .zero) k = (some ws, k') ∧
      pool = ⟨ws, initTaskQueue, false, 1⟩ := by
  simp only [processPoolCreate] at h
  split_ifs at h
  · cases h
  · cases h
  · cases h
  · obtain ⟨hpool, hkernel⟩ := Prod.mk.inj h
    obtain ⟨ws, hws, rfl⟩ := Option.map_eq_some_iff.mp hpool
    exact ⟨ws, Prod.ext hws hkernel, rfl⟩

theorem dequeueTask_count (q : TaskQueue) :
    (dequeueTask q).2.count ≤ q.count ∧
      ∀ task, (dequeueTask q).1 = some task → (dequeueTask q).2.count + 1 = q.count := by
  rw [dequeueTask]
  split_ifs with hempty
  · exact ⟨le_rfl, nofun⟩
  · refine ⟨?_, fun _ _ => ?_⟩
    · exact sub_le_self _ zero_le_one
    · exact sub_add_cancel _ _

theorem enqueueTask_count (q : TaskQueue) (task : Task) :
    (enqueueTask q task).2.count ≤ q.count + 1 := by
  rw [enqueueTask]
  split_ifs
  · simp only
    omega
  · exact le_rfl

/-- A round that goes on has taken a task out of the queue. -/
theorem dispatchRound_count {n : ℕ} (killOk : Fin n → Bool) (writeOk : Bool)
    (pool : ProcessPool n) (k : Kernel) {r : Bool × ProcessPool n × Kernel}
    (hr : dispatchRound killOk writeOk pool k = r) :
    r.2.1.taskQueue.count ≤ pool.taskQueue.count ∧
      (r.1 = true → r.2.1.taskQueue.count + 1 ≤ pool.taskQueue.count) := by
  obtain ⟨hle, hsome⟩ := dequeueTask_count pool.taskQueue
  simp only [dispatchRound] at hr
  split at hr
  · subst hr
    exact ⟨le_rfl, nofun⟩
  · split at hr
    · subst hr
      exact ⟨hle, nofun⟩
    · next task htask =>
        have htaken := hsome task htask
        have hback := enqueueTask_count (dequeueTask pool.taskQueue).2 task
        split at hr
        · subst hr
          refine ⟨?_, nofun⟩
          simp only
          omega
        · subst hr
          exact ⟨hle, fun _ => htaken.le⟩

theorem dispatchRounds_count {n : ℕ} (now : ℕ → ℤ) (killOk : ℕ → Fin n → Bool)
    (writeOk : ℕ → Bool) (rounds : ℕ) (pool : ProcessPool n) (k : Kernel)
    {r : ℕ × ProcessPool n × Kernel}
    (hr : dispatchRounds now killOk writeOk rounds pool k = r)
    (hcount : pool.taskQueue.count ≤ rounds) :
    r.1 ≤ rounds ∧ (r.1 = rounds → r.2.1.taskQueue.count ≤ 0) := by
  induction rounds generalizing pool k r with
  | zero =>
      subst hr
      exact ⟨le_rfl, fun _ => hcount⟩
  | succ rounds ih =>
      simp only [dispatchRounds] at hr
      generalize hround : dispatchRound (killOk rounds) (writeOk rounds) pool
        { k with now := now rounds } = round at hr
      obtain ⟨-, hless⟩ := dispatchRound_count _ _ _ _ hround
      split_ifs at hr with hpos hgo
      · have hleft := hless hgo
        have hrest := ih round.2.1 round.2.2 rfl (by omega)
        subst hr
        exact ⟨Nat.succ_le_succ hrest.1, fun heq => hrest.2 (Nat.succ_injective heq)⟩
      · subst hr
        exact ⟨Nat.zero_le _, nofun⟩
      · subst hr
        exact ⟨Nat.zero_le _, nofun⟩

/-- The rounds granted to `dispatch_tasks` run out only when the queue is empty. -/
theorem dispatchTasks_count {n : ℕ} (now : ℕ → ℤ) (killOk : ℕ → Fin n → Bool)
    (writeOk : ℕ → Bool) (pool : ProcessPool n) (k : Kernel) :
    (dispatchTasks now killOk writeOk pool k).1 ≤ pool.taskQueue.count.toNat ∧
      ((dispatchTasks now killOk writeOk pool k).1 = pool.taskQueue.count.toNat →
        (dispatchTasks now killOk writeOk pool k).2.1.taskQueue.count ≤ 0) :=
  dispatchRounds_count now killOk writeOk pool.taskQueue.count.toNat pool k rfl
    (Int.self_le_toNat _)

end PipePool

end ProcessThreadPool
