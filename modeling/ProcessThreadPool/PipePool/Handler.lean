import ProcessThreadPool.PipePool.Conservation

/-!
# Which handler answers a task

A pool is created with a handler, and its worker processes are forked with it. The
pool does not keep it: `process_pool_run` replaces a dead worker with a `NULL` handler,
for which `worker_main` takes `default_task_handler`. So a result is the answer of the
pool's handler as long as no replaced process takes a task on which the two differ.
-/

namespace ProcessThreadPool

namespace PipePool

/-- The task that `process_pool_submit_task` stores, if any. -/
def submission {n : ℕ} (pool : ProcessPool n) (taskData : Option (List UInt8))
    (dataLen : ℤ) : Option Task :=
  match taskData with
  | none => none
  | some bytes =>
      if dataLen ≤ 0 ∨ (maxTaskData : ℤ) ≤ dataLen then none
      else if (maxTaskQueue : ℤ) ≤ pool.taskQueue.count then none
      else some ⟨pool.nextTaskId, bytes.take dataLen.toNat ++ [0], dataLen⟩

/-- The program with the tasks it has stored and the results it has returned. -/
structure Answered (n : ℕ) where
  state : State n
  submitted : List Task
  results : List TaskResult

/-- The task that a step stores. -/
def State.stored {n : ℕ} (s : State n) : Action n → Option Task
  | .submit taskData dataLen => submission s.pool taskData dataLen
  | _ => none

/-- The result that a step returns. -/
def State.answer {n : ℕ} (s : State n) : Action n → Option TaskResult
  | .receive i readOk => (receiveRound i readOk s.pool s.kernel).1
  | _ => none

/-- One step of the program, recorded. -/
def Answered.step {n : ℕ} (s : Answered n) (l : Action n) : Option (Answered n) :=
  (s.state.step l).map fun t =>
    ⟨t, s.submitted ++ (s.state.stored l).toList, s.results ++ (s.state.answer l).toList⟩

/-- The states in which `process_pool_create` with the given handler leaves the
program. -/
def State.CreatedWith {n : ℕ} (handler : Option TaskHandler) (s : State n) : Prop :=
  ∃ opened mallocOk signalsOk outcomes pool kernel,
    processPoolCreate n handler mallocOk signalsOk outcomes (Kernel.start opened) =
      (some pool, kernel) ∧ s = ⟨pool, kernel, [], []⟩

/-- All interleavings on a pool of `n` workers created with the handler. -/
def answering (handler : Option TaskHandler) (n : ℕ) :
    Transition.System (Answered n) (Action n) where
  init := fun s => s.state.CreatedWith handler ∧ s.submitted = [] ∧ s.results = []
  step := fun s l t => s.step l = some t

/-- The result is what the handler returns on the data submitted under its id. -/
def Answers (handler : Option TaskHandler) (submitted : List Task) (result : TaskResult) :
    Prop :=
  ∃ task ∈ submitted, result = handleTask handler task

/-- A process without a handler takes only tasks that the default handler treats as the
pool's handler does. -/
def TreatsAlike {n : ℕ} (handler : Option TaskHandler) (s : Answered n) : Action n → Prop
  | .childRead channel => ∀ pid task tasks,
      s.state.kernel.children channel = some ⟨pid, none, .waiting⟩ →
        s.state.kernel.toWorker channel = task :: tasks →
          handleTask none task = handleTask handler task
  | _ => True

/-- What is under way comes from stored tasks and answers them. -/
structure Kernel.Truthful (handler : Option TaskHandler) (submitted : List Task)
    (k : Kernel) : Prop where
  toWorker : ∀ channel, ∀ task ∈ k.toWorker channel, task ∈ submitted
  given : ∀ channel child, k.children channel = some child →
    child.handler = handler ∨ child.handler = none
  writing : ∀ channel child result, k.children channel = some child →
    child.phase = .writing result → Answers handler submitted result
  fromWorker : ∀ channel, ∀ result ∈ k.fromWorker channel, Answers handler submitted result

/-- Queued tasks have been stored, and what is under way or returned is truthful. -/
structure Truthful {n : ℕ} (handler : Option TaskHandler) (s : Answered n) : Prop where
  queue : ∃ l, s.state.pool.taskQueue.Holds l ∧ ∀ task ∈ l, task ∈ s.submitted
  kernel : s.state.kernel.Truthful handler s.submitted
  results : ∀ result ∈ s.results, Answers handler s.submitted result

theorem Answers.mono {handler : Option TaskHandler} {submitted submitted' : List Task}
    {result : TaskResult} (h : Answers handler submitted result)
    (hsub : submitted ⊆ submitted') : Answers handler submitted' result := by
  obtain ⟨task, htask, heq⟩ := h
  exact ⟨task, hsub htask, heq⟩

/-! ## Steps of the kernel -/

namespace Kernel.Truthful

variable {handler : Option TaskHandler} {submitted submitted' : List Task} {k k' : Kernel}

theorem mono (h : k.Truthful handler submitted) (hsub : submitted ⊆ submitted') :
    k.Truthful handler submitted' where
  toWorker := fun channel task htask => hsub (h.toWorker channel task htask)
  given := h.given
  writing := fun channel child result hchild hphase =>
    (h.writing channel child result hchild hphase).mono hsub
  fromWorker := fun channel result hresult => (h.fromWorker channel result hresult).mono hsub

theorem fdsOnly (h : k.Truthful handler submitted) (hfds : k.FdsOnly k') :
    k'.Truthful handler submitted := by
  rw [Kernel.FdsOnly] at hfds
  rw [hfds]
  exact ⟨h.toWorker, h.given, h.writing, h.fromWorker⟩

/-- One worker process is replaced. -/
theorem setChild (h : k.Truthful handler submitted) (channel : Channel) {child : Child}
    (hhandler : child.handler = handler ∨ child.handler = none)
    (hwriting : ∀ result, child.phase = .writing result → Answers handler submitted result) :
    Kernel.Truthful handler submitted
      { k with children := Function.update k.children channel (some child) } where
  toWorker := h.toWorker
  given := by
    intro c child' hc
    simp only [Function.update_apply] at hc
    split_ifs at hc
    · obtain rfl := Option.some.inj hc
      exact hhandler
    · exact h.given c child' hc
  writing := by
    intro c child' result hc hphase
    simp only [Function.update_apply] at hc
    split_ifs at hc
    · obtain rfl := Option.some.inj hc
      exact hwriting result hphase
    · exact h.writing c child' result hc hphase
  fromWorker := h.fromWorker

theorem setToWorker (h : k.Truthful handler submitted) (channel : Channel) {tasks : List Task}
    (htasks : ∀ task ∈ tasks, task ∈ submitted) : Kernel.Truthful handler submitted
      { k with toWorker := Function.update k.toWorker channel tasks } where
  toWorker := by
    intro c task htask
    simp only [Function.update_apply] at htask
    split_ifs at htask
    · exact htasks task htask
    · exact h.toWorker c task htask
  given := h.given
  writing := h.writing
  fromWorker := h.fromWorker

theorem setFromWorker (h : k.Truthful handler submitted) (channel : Channel)
    {results : List TaskResult} (hresults : ∀ r ∈ results, Answers handler submitted r) :
    Kernel.Truthful handler submitted
      { k with fromWorker := Function.update k.fromWorker channel results } where
  toWorker := h.toWorker
  given := h.given
  writing := h.writing
  fromWorker := by
    intro c result hresult
    simp only [Function.update_apply] at hresult
    split_ifs at hresult
    · exact hresults result hresult
    · exact h.fromWorker c result hresult

/-- A process without the pool's handler answers like it on the task it takes. -/
theorem childRead (h : k.Truthful handler submitted) {channel : Channel}
    (halike : ∀ pid task tasks, k.children channel = some ⟨pid, none, .waiting⟩ →
      k.toWorker channel = task :: tasks → handleTask none task = handleTask handler task)
    (hk : k.childRead channel = some k') : k'.Truthful handler submitted := by
  simp only [Kernel.childRead] at hk
  split at hk
  · next pid given task tasks hchild htasks =>
      obtain rfl := Option.some.inj hk
      have hgiven := h.given channel _ hchild
      have hmem := h.toWorker channel
      rw [htasks] at hmem
      refine (h.setToWorker channel fun t ht => hmem t (List.mem_cons_of_mem _ ht)).setChild
        channel hgiven fun result hresult => ⟨task, hmem task List.mem_cons_self, ?_⟩
      rw [← Phase.writing.inj hresult]
      rcases hgiven with heq | hnone
      · rw [← heq]
      · rw [show given = none from hnone] at hchild ⊢
        exact halike pid task tasks hchild htasks
  · cases hk

theorem childWrite (h : k.Truthful handler submitted) {channel : Channel}
    (hk : k.childWrite channel = some k') : k'.Truthful handler submitted := by
  simp only [Kernel.childWrite] at hk
  split at hk
  · next pid given result hchild =>
      obtain rfl := Option.some.inj hk
      have hgiven := h.given channel _ hchild
      refine (h.setFromWorker channel fun r hr => ?_).setChild channel hgiven (by simp)
      rcases List.mem_append.mp hr with hold | hnew
      · exact h.fromWorker channel r hold
      · rw [List.mem_singleton.mp hnew]
        exact h.writing channel _ result hchild rfl
  · cases hk

theorem childExit (h : k.Truthful handler submitted) {channel : Channel}
    (hk : k.childExit channel = some k') : k'.Truthful handler submitted := by
  simp only [Kernel.childExit] at hk
  split at hk
  · next pid given hchild =>
      obtain rfl := Option.some.inj hk
      have hgiven := h.given channel _ hchild
      exact h.setChild channel hgiven (by simp)
  · next pid given result hchild =>
      obtain rfl := Option.some.inj hk
      have hgiven := h.given channel _ hchild
      exact h.setChild channel hgiven (by simp)
  · cases hk

theorem waitChild (h : k.Truthful handler submitted) {channel : Channel} {r : ℤ × Kernel}
    (hr : k.waitChild channel = some r) : r.2.Truthful handler submitted := by
  simp only [Kernel.waitChild] at hr
  split at hr
  · next pid given hchild =>
      obtain rfl := Option.some.inj hr
      have hgiven := h.given channel _ hchild
      exact h.setChild channel hgiven (by simp)
  · cases hr

theorem writeTask (h : k.Truthful handler submitted) {fd : ℤ} {task : Task}
    (htask : task ∈ submitted) {writeOk : Bool} (hk : k.writeTask fd task writeOk = some k') :
    k'.Truthful handler submitted := by
  simp only [Kernel.writeTask] at hk
  split at hk
  · next channel _ =>
      split_ifs at hk
      obtain rfl := Option.some.inj hk
      refine h.setToWorker channel fun t ht => ?_
      rcases List.mem_append.mp ht with hold | hnew
      · exact h.toWorker channel t hold
      · rwa [List.mem_singleton.mp hnew]
  · cases hk

theorem sendTaskToWorker (h : k.Truthful handler submitted) {w : WorkerProcess} {task : Task}
    (htask : task ∈ submitted) {writeOk : Bool} {r : WorkerOutcome}
    (hr : PipePool.sendTaskToWorker k w task writeOk = r) :
    r.kernel.Truthful handler submitted := by
  simp only [PipePool.sendTaskToWorker] at hr
  split at hr
  · next k' hk =>
      subst hr
      exact h.writeTask htask hk
  · subst hr
    exact h

theorem receiveResultFromWorker (h : k.Truthful handler submitted) {w : WorkerProcess}
    {readOk : Bool} {r : Option TaskResult × WorkerProcess × Kernel}
    (hr : PipePool.receiveResultFromWorker k w readOk = r) :
    r.2.2.Truthful handler submitted ∧
      ∀ result, r.1 = some result → Answers handler submitted result := by
  simp only [PipePool.receiveResultFromWorker, Kernel.readResult] at hr
  split at hr
  · next result k' hread =>
      subst hr
      split at hread
      · next channel _ =>
          split_ifs at hread
          cases hresults : k.fromWorker channel with
          | nil => simp [hresults] at hread
          | cons first results =>
              simp only [hresults, ReadResult.full.injEq] at hread
              obtain ⟨rfl, rfl⟩ := hread
              have hmem := h.fromWorker channel
              rw [hresults] at hmem
              refine ⟨h.setFromWorker channel fun q hq => hmem q (List.mem_cons_of_mem _ hq),
                fun result hresult => ?_⟩
              rw [← Option.some.inj hresult]
              exact hmem first List.mem_cons_self
      · cases hread
  · subst hr
    exact ⟨h, by simp⟩
  · subst hr
    exact ⟨h, by simp⟩

/-- A new process has the handler it is created with. -/
theorem createWorkerProcess (h : k.Truthful handler submitted) {i : ℕ}
    {given : Option TaskHandler} (hgiven : given = handler ∨ given = none)
    {outcome : CreateOutcome} {w : WorkerProcess} {r : WorkerOutcome}
    (hr : PipePool.createWorkerProcess i given outcome w k = r) :
    r.kernel.Truthful handler submitted := by
  have hbegun : Kernel.Truthful handler submitted { k with sessions := k.sessions + 1 } :=
    ⟨h.toWorker, h.given, h.writing, h.fromWorker⟩
  rcases (createWorkerProcess_cases i given outcome w k hr).2 with ⟨-, hdone⟩ | ⟨-, hdone⟩
  · obtain ⟨pid, hkernel⟩ := hdone.kernel
    have hforked := hbegun.setChild ⟨i, k.sessions⟩
      (show (⟨pid, given, .waiting⟩ : Child).handler = handler ∨ _ from hgiven) (by simp)
    exact hforked.fdsOnly hkernel
  · exact hbegun.fdsOnly hdone.kernel

theorem restartRound (h : k.Truthful handler submitted) {n : ℕ} {pool : ProcessPool n}
    {i : Fin n} (hdead : (pool.workers i).status = .dead) (outcome : CreateOutcome) :
    (PipePool.restartRound i outcome pool k).2.Truthful handler submitted := by
  have hclosed := h.fdsOnly (closeRecord_fdsOnly i (pool.workers i) k)
  rw [PipePool.restartRound, restartDeadWorker_of_dead hdead]
  exact hclosed.createWorkerProcess (Or.inr rfl) rfl

/-- The creation loop gives every process the pool's handler. -/
theorem createAmong {n : ℕ} {outcomes : Fin n → CreateOutcome} (is done : List (Fin n))
    (ws : Fin n → WorkerProcess) (h : k.Truthful handler submitted)
    {ws' : Fin n → WorkerProcess}
    (hr : PipePool.createAmong handler outcomes done is ws k = (some ws', k')) :
    k'.Truthful handler submitted := by
  induction is generalizing done ws k with
  | nil =>
      obtain ⟨-, rfl⟩ := Prod.mk.inj hr
      exact h
  | cons i is ih =>
      rw [PipePool.createAmong] at hr
      generalize hcreate : PipePool.createWorkerProcess i handler (outcomes i) (ws i) k = r at hr
      cases hok : r.ok with
      | false => simp [hok] at hr
      | true =>
          simp only [hok, if_true] at hr
          exact ih _ _ (h.createWorkerProcess (Or.inl rfl) hcreate) hr

end Kernel.Truthful

/-! ## Steps of the program -/

/-- `process_pool_submit_task` returns the id of the task it stores. -/
theorem processPoolSubmitTask_eq {n : ℕ} (pool : ProcessPool n)
    (taskData : Option (List UInt8)) (dataLen : ℤ) :
    processPoolSubmitTask pool taskData dataLen =
      match submission pool taskData dataLen with
      | none => (-1, pool)
      | some task => (task.taskId, { pool with
          nextTaskId := increment pool.nextTaskId
          taskQueue := (enqueueTask pool.taskQueue task).2 }) := by
  cases taskData with
  | none => rfl
  | some bytes =>
      simp only [processPoolSubmitTask, submission]
      split_ifs with hlen hfull hstored
      · rfl
      · rfl
      · rw [enqueueTask, if_neg hfull] at hstored
        cases hstored
      · rfl

theorem submission_count {n : ℕ} {pool : ProcessPool n} {taskData : Option (List UInt8)}
    {dataLen : ℤ} {task : Task} (h : submission pool taskData dataLen = some task) :
    pool.taskQueue.count < maxTaskQueue := by
  cases taskData with
  | none => cases h
  | some bytes =>
      simp only [submission] at h
      split_ifs at h with hlen hfull
      exact not_le.mp hfull

namespace Truthful

variable {n : ℕ} {handler : Option TaskHandler} {s t : Answered n}

/-- A step that stores no task. -/
theorem keepSubmitted (h : Truthful handler s) {state : State n} {results : List TaskResult}
    (hqueue : state.pool.taskQueue = s.state.pool.taskQueue)
    (hkernel : state.kernel.Truthful handler s.submitted)
    (hresults : ∀ result ∈ results, Answers handler s.submitted result) :
    Truthful handler ⟨state, s.submitted ++ [], s.results ++ results⟩ where
  queue := by rw [List.append_nil, hqueue]; exact h.queue
  kernel := by rwa [List.append_nil]
  results := by
    rw [List.append_nil]
    exact List.forall_mem_append.mpr ⟨h.results, hresults⟩

theorem submit (h : Truthful handler s) (taskData : Option (List UInt8)) (dataLen : ℤ) :
    Truthful handler
      ⟨s.state.submitted (processPoolSubmitTask s.state.pool taskData dataLen),
        s.submitted ++ (submission s.state.pool taskData dataLen).toList, s.results ++ []⟩ := by
  obtain ⟨l, hqueue, hl⟩ := h.queue
  rw [processPoolSubmitTask_eq]
  cases hsub : submission s.state.pool taskData dataLen with
  | none =>
      exact h.keepSubmitted rfl h.kernel (by simp)
  | some task =>
      have hold := List.subset_append_left s.submitted [task]
      constructor
      · refine ⟨l ++ [task], (hqueue.enqueue (submission_count hsub) task).2,
          List.forall_mem_append.mpr ⟨fun t ht => hold (hl t ht), fun t ht => ?_⟩⟩
        exact List.mem_append_right _ ht
      · exact h.kernel.mono hold
      · intro result hresult
        rw [List.append_nil] at hresult
        exact (h.results result hresult).mono hold

theorem dispatch (h : Truthful handler s) (hcount : 0 < s.state.pool.taskQueue.count)
    (killOk : Fin n → Bool) (writeOk : Bool) :
    Truthful handler
      ⟨s.state.put (dispatchRound killOk writeOk s.state.pool s.state.kernel).2,
        s.submitted ++ [], s.results ++ []⟩ := by
  obtain ⟨l, hqueue, hl⟩ := h.queue
  simp only [List.append_nil]
  obtain ⟨ws, -, hsame | ⟨i, task, l', w, k', q, -, rfl, hmoved⟩⟩ :=
    dispatchRound_cases hqueue hcount killOk writeOk rfl
  · rw [hsame]
    exact ⟨⟨l, hqueue, hl⟩, h.kernel, h.results⟩
  · obtain ⟨htask, hl'⟩ := List.forall_mem_cons.mp hl
    rcases hmoved with ⟨hsent, hq, hput⟩ | ⟨hsent, hq, hput⟩
    · rw [hput]
      refine ⟨⟨_, hq, List.forall_mem_append.mpr ⟨hl', ?_⟩⟩,
        h.kernel.sendTaskToWorker htask hsent, h.results⟩
      exact List.forall_mem_singleton.mpr htask
    · rw [hput]
      exact ⟨⟨l', hq, hl'⟩, h.kernel.sendTaskToWorker htask hsent, h.results⟩

theorem receive (h : Truthful handler s) (i : Fin n) (readOk : Bool) :
    Truthful handler
      ⟨s.state.received (receiveRound i readOk s.state.pool s.state.kernel), s.submitted ++ [],
        s.results ++ (receiveRound i readOk s.state.pool s.state.kernel).1.toList⟩ := by
  obtain ⟨hkernel, hresult⟩ := h.kernel.receiveResultFromWorker (r := receiveResultFromWorker
    s.state.kernel (s.state.pool.workers i) readOk) rfl
  exact h.keepSubmitted rfl hkernel fun result hmem => hresult result (Option.mem_toList.mp hmem)

theorem step (h : Truthful handler s) {l : Action n} (halike : TreatsAlike handler s l)
    (hstep : s.step l = some t) : Truthful handler t := by
  obtain ⟨u, hu, rfl⟩ := Option.map_eq_some_iff.mp hstep
  cases l with
  | submit taskData dataLen =>
      obtain rfl := Option.some.inj hu
      exact h.submit taskData dataLen
  | dispatch killOk writeOk =>
      simp only [State.step] at hu
      split_ifs at hu with hcount
      obtain rfl := Option.some.inj hu
      exact h.dispatch hcount killOk writeOk
  | receive i readOk =>
      simp only [State.step] at hu
      split_ifs at hu
      obtain rfl := Option.some.inj hu
      exact h.receive i readOk
  | reap channel =>
      obtain ⟨r, hr, rfl⟩ := Option.map_eq_some_iff.mp hu
      exact h.keepSubmitted rfl (h.kernel.waitChild hr) fun _ hmem => by cases hmem
  | restart i outcome =>
      simp only [State.step] at hu
      split_ifs at hu with hdead
      obtain rfl := Option.some.inj hu
      exact h.keepSubmitted rfl (h.kernel.restartRound hdead outcome) fun _ hmem => by cases hmem
  | setRunning running =>
      obtain rfl := Option.some.inj hu
      exact h.keepSubmitted rfl h.kernel fun _ hmem => by cases hmem
  | tick now =>
      obtain rfl := Option.some.inj hu
      exact h.keepSubmitted rfl ⟨h.kernel.toWorker, h.kernel.given, h.kernel.writing,
        h.kernel.fromWorker⟩ fun _ hmem => by cases hmem
  | childRead channel =>
      obtain ⟨k, hk, rfl⟩ := Option.map_eq_some_iff.mp hu
      exact h.keepSubmitted rfl (h.kernel.childRead halike hk) fun _ hmem => by cases hmem
  | childWrite channel =>
      obtain ⟨k, hk, rfl⟩ := Option.map_eq_some_iff.mp hu
      exact h.keepSubmitted rfl (h.kernel.childWrite hk) fun _ hmem => by cases hmem
  | childExit channel =>
      obtain ⟨k, hk, rfl⟩ := Option.map_eq_some_iff.mp hu
      exact h.keepSubmitted rfl (h.kernel.childExit hk) fun _ hmem => by cases hmem

theorem created (h : s.state.CreatedWith handler) (hsubmitted : s.submitted = [])
    (hresults : s.results = []) : Truthful handler s := by
  obtain ⟨state, submitted, results⟩ := s
  obtain ⟨opened, mallocOk, signalsOk, outcomes, pool, kernel, hcreate, rfl⟩ := h
  simp only at hsubmitted hresults
  subst hsubmitted hresults
  obtain ⟨ws, hamong, rfl⟩ := processPoolCreate_cases hcreate
  have hstart : (Kernel.start opened).Truthful handler [] := by
    constructor
    · intro _ _ hmem
      cases hmem
    · intro _ _ hchild
      cases hchild
    · intro _ _ _ hchild
      cases hchild
    · intro _ _ hmem
      cases hmem
  exact ⟨⟨[], TaskQueue.Holds.init, by simp⟩, hstart.createAmong _ _ _ hamong, by simp⟩

end Truthful

/-! ## Whole runs -/

/-- Recording changes nothing: the program takes the steps it takes without. -/
theorem run_answering {handler : Option TaskHandler} {n : ℕ} {s t : Answered n}
    {ls : List (Action n)} (h : Transition.Run (answering handler n) s ls t) :
    Transition.Run (processPool n) s.state ls t.state := by
  induction h with
  | nil s => exact .nil s.state
  | cons hstep _ ih =>
      obtain ⟨u, hu, rfl⟩ := Option.map_eq_some_iff.mp hstep
      exact .cons hu ih

theorem exists_run_answering {handler : Option TaskHandler} {n : ℕ} {s t : State n}
    {ls : List (Action n)} (h : Transition.Run (processPool n) s ls t)
    (submitted : List Task) (results : List TaskResult) :
    ∃ submitted' results', Transition.Run (answering handler n)
      ⟨s, submitted, results⟩ ls ⟨t, submitted', results'⟩ := by
  induction h generalizing submitted results with
  | nil s => exact ⟨submitted, results, .nil _⟩
  | cons hstep _ ih =>
      obtain ⟨submitted', results', hrun⟩ := ih _ _
      exact ⟨submitted', results', .cons (Option.map_eq_some_iff.mpr ⟨_, hstep, rfl⟩) hrun⟩

/-- Every returned result is the answer of the pool's handler, as long as a process
without a handler takes only tasks on which the default handler agrees with it. -/
theorem results_answered (handler : Option TaskHandler) {n : ℕ} {s : Answered n}
    (h : Transition.Reachable ((answering handler n).restrict (TreatsAlike handler)) s) :
    ∀ result ∈ s.results, Answers handler s.submitted result := by
  have hinv : Transition.Inductive ((answering handler n).restrict (TreatsAlike handler))
      (Truthful handler) :=
    .restrict (fun _ hinit => Truthful.created hinit.1 hinit.2.1 hinit.2.2)
      fun _ _ _ htruthful hl hstep => htruthful.step hl hstep
  exact (hinv.reachable h).results

/-- The handler of the examples: it returns 7 and writes nothing. -/
def sevenHandler : TaskHandler := fun _ _ => ⟨7, [], 0⟩

theorem results_answered_seven : ∃ s : Answered 1,
    Transition.Reachable ((answering (some sevenHandler) 1).restrict
      (TreatsAlike (some sevenHandler))) s ∧ s.results = [⟨1, 7, [], 0⟩] ∧
    ∀ result ∈ s.results, Answers (some sevenHandler) s.submitted result := by
  have hcreated : State.CreatedWith (some sevenHandler) _ := ⟨[true, true, true], true, true,
    fun _ : Fin 1 => ⟨.created, .created, some 7⟩, _, _, rfl, rfl⟩
  have hreach : Transition.Reachable ((answering (some sevenHandler) 1).restrict
      (TreatsAlike (some sevenHandler))) _ :=
    ⟨⟨_, [], []⟩, [.submit (some [97]) 1, .dispatch (fun _ => true) true, .childRead ⟨0, 0⟩,
      .childWrite ⟨0, 0⟩, .setRunning true, .receive 0 true], ⟨hcreated, rfl, rfl⟩,
      .cons ⟨trivial, rfl⟩ (.cons ⟨trivial, rfl⟩ (.cons ⟨nofun, rfl⟩ (.cons ⟨trivial, rfl⟩
        (.cons ⟨trivial, rfl⟩ (.cons ⟨trivial, rfl⟩ (.nil _))))))⟩
  exact ⟨_, hreach, rfl, results_answered (some sevenHandler) hreach⟩

/-- The only worker process dies and is replaced: the task submitted afterwards gets the
answer of the default handler. -/
theorem answered_by_default : ¬ ∀ (handler : Option TaskHandler) (n : ℕ) (s : Answered n),
    Transition.Reachable (answering handler n) s →
      ∀ result ∈ s.results, Answers handler s.submitted result := by
  intro hclaim
  have hcreated : State.CreatedWith (some sevenHandler) _ := ⟨[true, true, true], true, true,
    fun _ : Fin 1 => ⟨.created, .created, some 7⟩, _, _, rfl, rfl⟩
  have hreach : Transition.Reachable (answering (some sevenHandler) 1) _ :=
    ⟨⟨_, [], []⟩, [.setRunning true, .childExit ⟨0, 0⟩, .reap ⟨0, 0⟩,
      .restart 0 ⟨.created, .created, some 8⟩, .submit (some [97]) 1,
      .dispatch (fun _ => true) true, .childRead ⟨0, 1⟩, .childWrite ⟨0, 1⟩, .receive 0 true],
      ⟨hcreated, rfl, rfl⟩,
      .cons rfl (.cons rfl (.cons rfl (.cons rfl (.cons rfl (.cons rfl (.cons rfl
        (.cons rfl (.cons rfl (.nil _)))))))))⟩
  have hdefault : handleTask none ⟨1, [97, 0], 1⟩ ∈ [handleTask none ⟨1, [97, 0], 1⟩] :=
    List.mem_singleton_self _
  obtain ⟨task, -, heq⟩ := hclaim _ 1 _ hreach _ hdefault
  have hcode : (0 : ℤ) = 7 := congrArg TaskResult.resultCode heq
  cases hcode

end PipePool

end ProcessThreadPool
