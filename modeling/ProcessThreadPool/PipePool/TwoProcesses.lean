import ProcessThreadPool.PipePool.Handler

/-!
# The pool used from two processes

The documented usage creates a pool, forks a runner that executes `process_pool_run`,
and goes on to submit tasks and to ask for results in the creating process. `fork`
copies the pool and the descriptor table; only the pipes and the worker processes are
shared. The submitter's copy is never running, so `process_pool_get_result` reads
nothing there, and the runner's queue stays as empty as it was when it was copied.
-/

namespace ProcessThreadPool

namespace PipePool

/-- The submitting process has its own pool and descriptors. The runner's descriptors
are those of its kernel; `forked` is the number of worker processes created before. -/
structure TwoProcesses (n : ℕ) where
  submitter : ProcessPool n
  submitterFds : DescriptorTable.Table Descriptor
  runner : State n
  forked : ℕ

/-- What happens next: a call in the submitting process, or a step of the runner or of
a worker process. -/
inductive UsageAction (n : ℕ) where
  | submit (taskData : Option (List UInt8)) (dataLen : ℤ)
  | getResult (outcomes : List (SelectOutcome n))
  | run (l : Action n)

/-- `fork` after the pool was created. -/
def State.fork {n : ℕ} (s : State n) : TwoProcesses n :=
  ⟨s.pool, s.kernel.fds, s, s.kernel.sessions⟩

/-- What `process_pool_run` and the worker processes do. `waitpid` returns only the
processes that the runner has created itself. -/
def Action.byRunner {n : ℕ} (forked : ℕ) : Action n → Bool
  | .submit _ _ => false
  | .receive _ _ => false
  | .reap channel => decide (forked ≤ channel.session)
  | _ => true

namespace TwoProcesses

/-- The system as the submitting process sees it. -/
def view {n : ℕ} (s : TwoProcesses n) : Kernel :=
  { s.runner.kernel with fds := s.submitterFds }

/-- After `process_pool_get_result` returned in the submitting process. -/
def gotResult {n : ℕ} (s : TwoProcesses n) (r : Option TaskResult × ProcessPool n × Kernel) :
    TwoProcesses n :=
  { s with
    submitter := r.2.1
    submitterFds := r.2.2.fds
    runner := { s.runner with kernel := { r.2.2 with fds := s.runner.kernel.fds } } }

/-- One step of the two processes. -/
def step {n : ℕ} (s : TwoProcesses n) : UsageAction n → Option (TwoProcesses n)
  | .submit taskData dataLen =>
      some { s with submitter := (processPoolSubmitTask s.submitter taskData dataLen).2 }
  | .getResult outcomes =>
      (processPoolGetResult outcomes s.submitter s.view).map s.gotResult
  | .run l =>
      if l.byRunner s.forked then
        (s.runner.step l).map fun runner => { s with runner := runner }
      else none

end TwoProcesses

/-- The documented usage of a pool of `n` workers. -/
def usage (n : ℕ) : Transition.System (TwoProcesses n) (UsageAction n) where
  init := fun s => ∃ created : State n, created.Created ∧ s = created.fork
  step := fun s l t => s.step l = some t

/-- The worker process has not exited. -/
def Child.Alive (child : Child) : Prop := child.phase ≠ .exited ∧ child.phase ≠ .reaped

/-- The worker's pipe has a result to read. -/
def Readable (w : WorkerProcess) (k : Kernel) : Prop :=
  ∃ channel, k.fds.lookup w.pipeFromWorker.readEnd =
    some (.pipeEnd channel .fromWorker .readEnd) ∧ k.fromWorker channel ≠ []

/-- `select` reports the results that are there, and reading them succeeds. -/
def SelectOutcome.Sees {n : ℕ} (pool : ProcessPool n) (k : Kernel) : SelectOutcome n → Prop
  | .ready isset readOk =>
      ∀ i, Readable (pool.workers i) k → isset i = true ∧ readOk i = true
  | _ => False

/-- When the pipe of a live worker holds a result, `process_pool_get_result` in the
submitting process returns a pending one. -/
def TwoProcesses.Obtains {n : ℕ} (s : TwoProcesses n) : Prop :=
  (∃ channel child, s.runner.kernel.children channel = some child ∧ child.Alive ∧
      s.runner.kernel.fromWorker channel ≠ []) →
    ∀ outcome, SelectOutcome.Sees s.submitter s.view outcome →
      ∃ result r, processPoolGetResult [outcome] s.submitter s.view = some (some result, r) ∧
        ∃ channel, result ∈ s.runner.kernel.fromWorker channel

/-- The step puts an accepted task into the queue of the runner, and the submitter can
obtain the results that are there. -/
structure Agrees {n : ℕ} (s : TwoProcesses n) (l : UsageAction n) (t : TwoProcesses n) :
    Prop where
  queued : ∀ taskData dataLen task, l = .submit taskData dataLen →
    submission s.submitter taskData dataLen = some task →
      task.taskId ∈ t.runner.pool.taskQueue.ids
  obtains : t.Obtains

/-- A submission is rejected by the checks of `process_pool_submit_task`. -/
def Rejected {n : ℕ} (s : TwoProcesses n) (l : UsageAction n) : Prop :=
  ∀ bytes dataLen, l = .submit (some bytes) dataLen →
    dataLen ≤ 0 ∨ (maxTaskData : ℤ) ≤ dataLen ∨ (maxTaskQueue : ℤ) ≤ s.submitter.taskQueue.count

/-- The submitter's copy is not running, and the runner and its workers have no task. -/
structure Unfed {n : ℕ} (s : TwoProcesses n) : Prop where
  submitter : s.submitter.running = false
  runner : ∃ handler, Truthful handler ⟨s.runner, [], []⟩

theorem rejected_iff {n : ℕ} {s : TwoProcesses n} {l : UsageAction n} :
    Rejected s l ↔ ∀ taskData dataLen, l = .submit taskData dataLen →
      submission s.submitter taskData dataLen = none := by
  constructor
  · intro h taskData dataLen hl
    cases taskData with
    | none => rfl
    | some bytes =>
        have hcheck := h bytes dataLen hl
        simp only [submission]
        split_ifs with hlen hfull
        · rfl
        · rfl
        · omega
  · intro h bytes dataLen hl
    have hnone := h (some bytes) dataLen hl
    simp only [submission] at hnone
    split_ifs at hnone with hlen hfull
    · exact hlen.imp_right Or.inl
    · exact Or.inr (Or.inr hfull)

/-- The submitter gets -1 at once, whatever the pipes hold. -/
theorem getResult_of_not_running {n : ℕ} {pool : ProcessPool n} (h : pool.running = false)
    (outcomes : List (SelectOutcome n)) (k : Kernel) :
    processPoolGetResult outcomes pool k = some (none, pool, k) := by
  cases outcomes with
  | nil => simp [processPoolGetResult, h]
  | cons outcome outcomes => simp only [processPoolGetResult, if_pos h]

namespace Unfed

variable {n : ℕ} {s t : TwoProcesses n}

theorem fromWorker (h : Unfed s) (channel : Channel) :
    s.runner.kernel.fromWorker channel = [] := by
  obtain ⟨handler, htruthful⟩ := h.runner
  rw [List.eq_nil_iff_forall_not_mem]
  intro result hresult
  obtain ⟨task, htask, -⟩ := htruthful.kernel.fromWorker channel result hresult
  cases htask

theorem ids (h : Unfed s) : s.runner.pool.taskQueue.ids = [] := by
  obtain ⟨handler, htruthful⟩ := h.runner
  obtain ⟨l, hqueue, hl⟩ := htruthful.queue
  rw [hqueue.ids_eq, List.eq_nil_iff_forall_not_mem.mpr fun task htask => nomatch hl task htask]
  rfl

/-- A step of the runner stores nothing and returns nothing. -/
theorem run (h : Unfed s) {l : Action n} (hrunner : l.byRunner s.forked = true)
    {runner : State n} (hstep : s.runner.step l = some runner) :
    Unfed { s with runner := runner } := by
  obtain ⟨handler, htruthful⟩ := h.runner
  refine ⟨h.submitter, handler, htruthful.step (l := l) ?_ ?_⟩
  · cases l with
    | childRead channel =>
        intro pid task tasks _ htasks
        have hmem := htruthful.kernel.toWorker channel task
        rw [htasks] at hmem
        exact nomatch hmem List.mem_cons_self
    | _ => trivial
  · have hnone : s.runner.stored l = none ∧ s.runner.answer l = none := by
      cases l <;> first | exact ⟨rfl, rfl⟩ | cases hrunner
    rw [Answered.step, hstep, hnone.1, hnone.2]
    rfl

theorem step (h : Unfed s) {l : UsageAction n} (hstep : s.step l = some t) : Unfed t := by
  cases l with
  | submit taskData dataLen =>
      obtain rfl := Option.some.inj hstep
      refine ⟨?_, h.runner⟩
      simp only [processPoolSubmitTask_eq]
      split <;> exact h.submitter
  | getResult outcomes =>
      rw [TwoProcesses.step, getResult_of_not_running h.submitter] at hstep
      obtain rfl := Option.some.inj hstep
      exact ⟨h.submitter, h.runner⟩
  | run l =>
      simp only [TwoProcesses.step] at hstep
      split_ifs at hstep with hrunner
      obtain ⟨runner, hrun, rfl⟩ := Option.map_eq_some_iff.mp hstep
      exact h.run hrunner hrun

theorem fork {created : State n} (h : created.Created) : Unfed created.fork := by
  obtain ⟨opened, handler, mallocOk, signalsOk, outcomes, pool, kernel, hcreate, rfl⟩ := h
  refine ⟨?_, handler, Truthful.created ⟨opened, mallocOk, signalsOk, outcomes, pool, kernel,
    hcreate, rfl⟩ rfl rfl⟩
  obtain ⟨ws, -, rfl⟩ := processPoolCreate_cases hcreate
  rfl

/-- No worker ever has a result, so a step agrees exactly when it accepts no task. -/
theorem agrees_iff (h : Unfed s) {l : UsageAction n} (hstep : s.step l = some t) :
    Agrees s l t ↔ Rejected s l := by
  have ht := h.step hstep
  rw [rejected_iff]
  constructor
  · intro hagrees taskData dataLen hl
    by_contra hsome
    obtain ⟨task, htask⟩ := Option.ne_none_iff_exists'.mp hsome
    have hqueued := hagrees.queued taskData dataLen task hl htask
    rw [ht.ids] at hqueued
    cases hqueued
  · intro hnone
    refine ⟨fun taskData dataLen task hl htask => ?_, fun hpending => ?_⟩
    · rw [hnone taskData dataLen hl] at htask
      cases htask
    · obtain ⟨channel, child, -, -, hresults⟩ := hpending
      exact absurd (ht.fromWorker channel) hresults

end Unfed

/-- In the documented usage the two processes agree as long as no submitted task is
accepted. -/
theorem agrees_iff_rejected {n : ℕ} {s₀ : TwoProcesses n} (h₀ : (usage n).init s₀)
    (ls : List (UsageAction n)) (t : TwoProcesses n) :
    Transition.Run ((usage n).filter Agrees) s₀ ls t ↔
      Transition.Run ((usage n).restrict Rejected) s₀ ls t := by
  apply Transition.run_filter_iff_restrict (I := Unfed)
  · exact fun s l t h _ hstep => h.step hstep
  · exact fun s l t h hstep => h.agrees_iff hstep
  · obtain ⟨created, hcreated, rfl⟩ := h₀
    exact Unfed.fork hcreated

/-- Whatever is submitted, `process_pool_get_result` fails in the submitting process. -/
theorem getResult_submitter {n : ℕ} {s : TwoProcesses n}
    (h : Transition.Reachable (usage n) s) (outcomes : List (SelectOutcome n)) :
    processPoolGetResult outcomes s.submitter s.view = some (none, s.submitter, s.view) := by
  have hinv : Transition.Inductive (usage n) Unfed := by
    refine ⟨?_, fun _ _ _ hunfed hstep => hunfed.step hstep⟩
    rintro _ ⟨created, hcreated, rfl⟩
    exact Unfed.fork hcreated
  exact getResult_of_not_running (hinv.reachable h).submitter outcomes s.view

theorem agrees_iff_rejected_one : ∃ s₀ t : TwoProcesses 1, (usage 1).init s₀ ∧
    Transition.Run ((usage 1).filter Agrees) s₀ [.submit (some [97]) 0,
      .run (.setRunning true), .run (.childExit ⟨0, 0⟩), .getResult [.timedOut]] t := by
  have hcreated : State.Created _ := ⟨[true, true, true], none, true, true,
    fun _ : Fin 1 => ⟨.created, .created, some 7⟩, _, _, rfl, rfl⟩
  have hinit : (usage 1).init _ := ⟨_, hcreated, rfl⟩
  refine ⟨_, _, hinit, (agrees_iff_rejected hinit _ _).mpr (.cons ⟨?_, rfl⟩
    (.cons ⟨nofun, rfl⟩ (.cons ⟨nofun, rfl⟩ (.cons ⟨nofun, rfl⟩ (.nil _)))))⟩
  intro bytes dataLen hl
  cases hl
  exact Or.inl le_rfl

/-- One worker, one fork, one accepted task: the runner's queue does not get it. -/
theorem submission_unseen : ¬ ∀ (n : ℕ) (s t : TwoProcesses n) (l : UsageAction n),
    Transition.Reachable (usage n) s → (usage n).step s l t → Agrees s l t := by
  intro hclaim
  have hcreated : State.Created _ := ⟨[true, true, true], none, true, true,
    fun _ : Fin 1 => ⟨.created, .created, some 7⟩, _, _, rfl, rfl⟩
  have hagrees := hclaim 1 _ _ (.submit (some [97]) 1)
    ⟨_, [], ⟨_, hcreated, rfl⟩, .nil _⟩ rfl
  have hqueued := hagrees.queued (some [97]) 1 ⟨1, [97, 0], 1⟩ rfl rfl
  revert hqueued
  decide

end PipePool

end ProcessThreadPool
