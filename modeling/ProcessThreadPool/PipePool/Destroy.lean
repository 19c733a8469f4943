import ProcessThreadPool.PipePool.Master
import ProcessThreadPool.PipePool.Messages

/-!
# Destroying the pipe-based process pool

`process_pool_destroy` terminates every worker, which closes all numbers of its record, and
then reaps what is left; `process_pool_create` does the same with the workers it has created
when a later one fails. Every pipe end that the master has open is in the record of its
worker, so both give back all descriptors.
-/

namespace ProcessThreadPool

namespace PipePool

open DescriptorTable

/-- The loop of `process_pool_destroy` over the workers. -/
def terminateAmong {n : ℕ} :
    List (Fin n) → (Fin n → WorkerProcess) → Kernel → (Fin n → WorkerProcess) × Kernel
  | [], ws, k => (ws, k)
  | i :: is, ws, k =>
      let r := terminateWorkerProcess i (ws i) k
      terminateAmong is (Function.update ws i r.1) r.2

/-- `process_pool_destroy` up to the `free`, when the `waitpid` of `reap_dead_children` returns
the processes of the channels. -/
def processPoolDestroy {n : ℕ} (channels : List Channel) (pool : ProcessPool n) (k : Kernel) :
    Option (ProcessPool n × Kernel) :=
  let r := terminateAmong (List.finRange n) pool.workers k
  reapDeadChildren channels { pool with running := false, workers := r.1 } r.2

/-! ## Descriptors -/

/-- The four numbers of a record. -/
def WorkerProcess.numbers (w : WorkerProcess) : List ℤ :=
  [w.pipeToWorker.readEnd, w.pipeToWorker.writeEnd, w.pipeFromWorker.readEnd,
    w.pipeFromWorker.writeEnd]

/-- What was open before the pool is open and in no record, and every pipe end is in the
record of its worker. `created` are the workers with a record. -/
structure Recorded {n : ℕ} (base : ℤ → Option Descriptor) (created : Fin n → Prop)
    (ws : Fin n → WorkerProcess) (k : Kernel) : Prop where
  others : ∀ fd, k.fds.lookup fd = some .other ↔ base fd = some .other
  apart : ∀ i, created i → ∀ fd ∈ (ws i).numbers, base fd ≠ some .other
  ends : ∀ fd channel direction side,
    k.fds.lookup fd = some (.pipeEnd channel direction side) →
      ∃ i, created i ∧ channel.worker = i ∧ fd ∈ (ws i).numbers

theorem lookup_closeRecord (i : ℕ) (w : WorkerProcess) (k : Kernel) (fd : ℤ) :
    (closeRecord i w k).fds.lookup fd = if fd ∈ w.numbers then none else k.fds.lookup fd := by
  rw [closeRecord, lookup_closePipePair, lookup_closePipePair]
  simp only [Function.update_apply, WorkerProcess.numbers, List.mem_cons, List.not_mem_nil,
    or_false]
  grind

theorem start_lookup (opened : List Bool) (fd : ℤ) :
    (Kernel.start opened).fds.lookup fd = none ∨
      (Kernel.start opened).fds.lookup fd = some .other := by
  cases hfd : (Kernel.start opened).fds.lookup fd with
  | none => exact Or.inl rfl
  | some d =>
      obtain ⟨b, -, hb⟩ := List.mem_map.mp (Table.mem_of_lookup hfd)
      split_ifs at hb
      exact Or.inr hb.symm

namespace Recorded

variable {n : ℕ} {base : ℤ → Option Descriptor} {created : Fin n → Prop}
  {ws ws' : Fin n → WorkerProcess} {k k' : Kernel} {i : Fin n}

theorem congr (h : Recorded base created ws k)
    (hfds : k'.fds.lookup = k.fds.lookup)
    (hws : ∀ j, (ws' j).numbers = (ws j).numbers) : Recorded base created ws' k' where
  others := by
    rw [hfds]
    exact h.others
  apart := by
    intro j hj
    rw [hws]
    exact h.apart j hj
  ends := by
    intro fd channel direction side hfd
    rw [hfds] at hfd
    obtain ⟨j, hj, hworker, hmem⟩ := h.ends fd channel direction side hfd
    exact ⟨j, hj, hworker, by rwa [hws]⟩

/-- The numbers of one worker are closed. -/
theorem close (h : Recorded base created ws k) (hi : created i) :
    Recorded base (fun j => created j ∧ j ≠ i) ws (closeRecord i (ws i) k) where
  others := by
    intro fd
    rw [lookup_closeRecord]
    split_ifs with hmem
    · exact iff_of_false (by simp) (h.apart i hi fd hmem)
    · exact h.others fd
  apart := fun j hj => h.apart j hj.1
  ends := by
    intro fd channel direction side hfd
    rw [lookup_closeRecord] at hfd
    split_ifs at hfd with hmem
    obtain ⟨j, hj, hworker, hin⟩ := h.ends fd channel direction side hfd
    refine ⟨j, ⟨hj, ?_⟩, hworker, hin⟩
    rintro rfl
    exact hmem hin

/-- A number that refers to no other file now was not open before the pool. -/
theorem ne_other (h : Recorded base created ws k) {fd : ℤ}
    (hfd : k.fds.lookup fd ≠ some .other) : base fd ≠ some .other :=
  fun hbase => hfd ((h.others fd).mpr hbase)

/-- A worker that has no record yet gets one, with the ends that the master keeps. -/
theorem create (h : Recorded base created ws k) (hi : ∀ j, created j → j ≠ i)
    {handler : Option TaskHandler} {r : WorkerOutcome}
    (hr : CreateSucceeded i handler k r) :
    Recorded base (fun j => created j ∨ j = i) (Function.update ws i r.worker) r.kernel := by
  have hto : r.kernel.fds.lookup r.worker.pipeToWorker.writeEnd =
      some (.pipeEnd ⟨i, k.sessions⟩ .toWorker .writeEnd) := by
    rw [hr.lookup, Function.update_of_ne hr.ne, Function.update_self]
  have hfrom : r.kernel.fds.lookup r.worker.pipeFromWorker.readEnd =
      some (.pipeEnd ⟨i, k.sessions⟩ .fromWorker .readEnd) := by
    rw [hr.lookup, Function.update_self]
  have hothers : ∀ fd, r.kernel.fds.lookup fd = some .other ↔ base fd = some .other := by
    intro fd
    rw [← h.others fd, hr.lookup]
    by_cases hread : fd = r.worker.pipeFromWorker.readEnd
    · rw [hread, Function.update_self, hr.free.2]
      exact iff_of_false (by simp) (by simp)
    by_cases hwrite : fd = r.worker.pipeToWorker.writeEnd
    · rw [Function.update_of_ne hread, hwrite, Function.update_self, hr.free.1]
      exact iff_of_false (by simp) (by simp)
    · rw [Function.update_of_ne hread, Function.update_of_ne hwrite]
  refine ⟨hothers, ?_, ?_⟩
  · rintro j (hj | rfl) fd hfd
    · rw [Function.update_of_ne (hi j hj)] at hfd
      exact h.apart j hj fd hfd
    · rw [Function.update_self] at hfd
      simp only [WorkerProcess.numbers, List.mem_cons, List.not_mem_nil, or_false] at hfd
      rw [Ne, ← hothers fd]
      rcases hfd with rfl | rfl | rfl | rfl
      · rw [hr.stale.1]
        simp
      · rw [hto]
        simp
      · rw [hfrom]
        simp
      · rw [hr.stale.2]
        simp
  · intro fd channel direction side hfd
    rw [hr.lookup, Function.update_apply, Function.update_apply] at hfd
    split_ifs at hfd with hread hwrite
    · cases hfd
      refine ⟨i, Or.inr rfl, rfl, ?_⟩
      rw [Function.update_self, hread]
      simp [WorkerProcess.numbers]
    · cases hfd
      refine ⟨i, Or.inr rfl, rfl, ?_⟩
      rw [Function.update_self, hwrite]
      simp [WorkerProcess.numbers]
    · obtain ⟨j, hj, hworker, hmem⟩ := h.ends fd channel direction side hfd
      exact ⟨j, Or.inl hj, hworker, by rwa [Function.update_of_ne (hi j hj)]⟩

theorem spare {p : PipeFd} (h : Recorded base created ws k) (hp : p.Spare ⟨-1, -1⟩ k) :
    base p.readEnd ≠ some .other ∧ base p.writeEnd ≠ some .other := by
  have hneg : base (-1) ≠ some .other :=
    h.ne_other (by simp [k.fds.lookup_of_neg (show (-1 : ℤ) < 0 by decide)])
  rcases hp with rfl | rfl | ⟨-, -, hfreeRead, hfreeWrite⟩
  · exact ⟨hneg, hneg⟩
  · exact ⟨hneg, hneg⟩
  · exact ⟨h.ne_other (by simp [hfreeRead]), h.ne_other (by simp [hfreeWrite])⟩

/-- A creation that fails leaves numbers in an empty record that are not open. -/
theorem createFailed (h : Recorded base created ws k) (hi : ∀ j, created j → j ≠ i)
    {w : WorkerProcess} {r : WorkerOutcome} (hr : CreateFailed k w r) (hempty : w.Emptied) :
    Recorded base (fun j => created j ∨ j = i) (Function.update ws i r.worker) r.kernel := by
  have hkernel : Recorded base created ws r.kernel := h.congr hr.lookup fun _ => rfl
  have hto := hkernel.spare (hempty.1 ▸ hr.pipeToWorker)
  have hfrom := hkernel.spare (hempty.2 ▸ hr.pipeFromWorker)
  refine ⟨hkernel.others, ?_, ?_⟩
  · rintro j (hj | rfl) fd hfd
    · rw [Function.update_of_ne (hi j hj)] at hfd
      exact h.apart j hj fd hfd
    · rw [Function.update_self] at hfd
      simp only [WorkerProcess.numbers, List.mem_cons, List.not_mem_nil, or_false] at hfd
      rcases hfd with rfl | rfl | rfl | rfl
      · exact hto.1
      · exact hto.2
      · exact hfrom.1
      · exact hfrom.2
  · intro fd channel direction side hfd
    obtain ⟨j, hj, hworker, hmem⟩ := hkernel.ends fd channel direction side hfd
    exact ⟨j, Or.inl hj, hworker, by rwa [Function.update_of_ne (hi j hj)]⟩

/-- A dead worker is restarted: its numbers are closed, and it gets a record anew. -/
theorem restart (h : Recorded base (fun _ => True) ws k) (outcome : CreateOutcome)
    (hdead : (ws i).status = .dead) {r : WorkerOutcome}
    (hr : restartDeadWorker i none outcome (ws i) k = r) :
    Recorded base (fun _ => True) (Function.update ws i r.worker) r.kernel := by
  rw [restartDeadWorker_of_dead hdead] at hr
  have hall : (fun j : Fin n => (True ∧ j ≠ i) ∨ j = i) = fun _ => True := by
    funext j
    by_cases hj : j = i <;> simp [hj]
  rw [← hall]
  rcases (createWorkerProcess_cases _ _ _ _ _ hr).2 with ⟨-, hsucceeded⟩ | ⟨-, hfailed⟩
  · exact (h.close trivial).create (fun _ hj => hj.2) hsucceeded
  · exact (h.close trivial).createFailed (fun _ hj => hj.2) hfailed ⟨rfl, rfl⟩

end Recorded

/-! ### Steps that open and close nothing -/

/-- The records agree in what `f` tells of them. -/
def Same {n : ℕ} {α : Type*} (f : WorkerProcess → α) (ws ws' : Fin n → WorkerProcess) : Prop :=
  ∀ j, f (ws' j) = f (ws j)

/-- `f` depends neither on the status nor on the current task and the times. -/
def Lasting {α : Type*} (f : WorkerProcess → α) : Prop :=
  ∀ w status lastActive currentTaskId,
    f ⟨w.pid, status, w.pipeToWorker, w.pipeFromWorker, lastActive, currentTaskId⟩ = f w

theorem lasting_numbers : Lasting WorkerProcess.numbers := fun _ _ _ _ => rfl

theorem lasting_pid : Lasting WorkerProcess.pid := fun _ _ _ _ => rfl

namespace Same

variable {n : ℕ} {α : Type*} {f : WorkerProcess → α} {ws ws' ws'' : Fin n → WorkerProcess}

theorem refl (ws : Fin n → WorkerProcess) : Same f ws ws := fun _ => rfl

theorem trans (h : Same f ws ws') (h' : Same f ws' ws'') : Same f ws ws'' :=
  fun j => (h' j).trans (h j)

theorem update (ws : Fin n → WorkerProcess) {i : Fin n} {w : WorkerProcess}
    (hw : f w = f (ws i)) : Same f ws (Function.update ws i w) := by
  intro j
  by_cases hj : j = i
  · rw [hj, Function.update_self, hw]
  · rw [Function.update_of_ne hj]

theorem markReaped (pid : ℤ) (is : List (Fin n)) (ws : Fin n → WorkerProcess) :
    Same WorkerProcess.numbers ws (PipePool.markReaped pid is ws) := by
  induction is with
  | nil => exact refl ws
  | cons i is ih =>
      rw [PipePool.markReaped]
      split_ifs
      · exact update ws rfl
      · exact ih

theorem findIdleAmong (hf : Lasting f) (killOk : Fin n → Bool) (is : List (Fin n))
    (ws : Fin n → WorkerProcess) : Same f ws (PipePool.findIdleAmong killOk is ws).2 := by
  have halive : ∀ b w, f (isWorkerAlive b w).2 = f w := by
    intro b w
    rw [isWorkerAlive]
    split_ifs
    · rfl
    · rfl
    · exact hf w _ _ _
  induction is generalizing ws with
  | nil => exact refl ws
  | cons i is ih =>
      simp only [PipePool.findIdleAmong]
      split_ifs
      · exact update ws (halive _ _)
      · exact (update ws (halive _ _)).trans (ih _)
      · exact ih ws

end Same

/-- Neither the descriptors nor the worker processes have changed. -/
def Kernel.MessagesOnly (k k' : Kernel) : Prop := k'.fds = k.fds ∧ k'.children = k.children

section

variable {n : ℕ} {α : Type*} {f : WorkerProcess → α} {s t : State n} {l : Action n}

theorem sendTaskToWorker_same (hf : Lasting f) (k : Kernel) (w : WorkerProcess) (task : Task)
    (writeOk : Bool) : f (sendTaskToWorker k w task writeOk).worker = f w ∧
      k.MessagesOnly (sendTaskToWorker k w task writeOk).kernel := by
  rw [sendTaskToWorker]
  split
  · next k' hk' =>
      refine ⟨hf w _ _ _, ?_⟩
      rw [Kernel.writeTask] at hk'
      split at hk'
      · split_ifs at hk'
        obtain rfl := Option.some.inj hk'
        exact ⟨rfl, rfl⟩
      · cases hk'
  · exact ⟨rfl, rfl, rfl⟩

theorem receiveResultFromWorker_same (hf : Lasting f) (k : Kernel) (w : WorkerProcess)
    (readOk : Bool) : f (receiveResultFromWorker k w readOk).2.1 = f w ∧
      k.MessagesOnly (receiveResultFromWorker k w readOk).2.2 := by
  rw [receiveResultFromWorker]
  split
  · next result k' hk' =>
      refine ⟨hf w _ _ _, ?_⟩
      rw [Kernel.readResult] at hk'
      split at hk'
      · split_ifs at hk'
        split at hk'
        · cases hk'
        · cases hk'
          exact ⟨rfl, rfl⟩
      · cases hk'
  · exact ⟨hf w _ _ _, rfl, rfl⟩
  · exact ⟨rfl, rfl, rfl⟩

theorem dispatchRound_same (hf : Lasting f) (killOk : Fin n → Bool) (writeOk : Bool)
    (pool : ProcessPool n) (k : Kernel) :
    Same f pool.workers (dispatchRound killOk writeOk pool k).2.1.workers ∧
      k.MessagesOnly (dispatchRound killOk writeOk pool k).2.2 := by
  have hfound := Same.findIdleAmong hf killOk (List.finRange n) pool.workers
  simp only [dispatchRound, findIdleWorker]
  split
  · exact ⟨hfound, rfl, rfl⟩
  · next i _ =>
      split
      · exact ⟨hfound, rfl, rfl⟩
      · next task _ =>
          obtain ⟨hsame, hkernel⟩ := sendTaskToWorker_same hf k
            ((findIdleAmong killOk (List.finRange n) pool.workers).2 i) task writeOk
          split
          · next w k' hsent =>
              rw [hsent] at hsame hkernel
              exact ⟨hfound.trans (Same.update _ ((hf w _ _ _).trans hsame)), hkernel⟩
          · next w k' hsent =>
              rw [hsent] at hsame hkernel
              exact ⟨hfound.trans (Same.update _ hsame), hkernel⟩

theorem processPoolSubmitTask_workers (pool : ProcessPool n) (taskData : Option (List UInt8))
    (dataLen : ℤ) : (processPoolSubmitTask pool taskData dataLen).2.workers = pool.workers := by
  cases taskData with
  | none => rfl
  | some bytes =>
      simp only [processPoolSubmitTask]
      split_ifs <;> rfl

/-- Every step but a restart leaves the open numbers and those of the records. -/
theorem step_numbers (hstep : s.step l = some t) :
    (∃ i outcome, l = .restart i outcome ∧ (s.pool.workers i).status = .dead ∧
        t = s.put (restartRound i outcome s.pool s.kernel)) ∨
      Same WorkerProcess.numbers s.pool.workers t.pool.workers ∧ t.kernel.fds = s.kernel.fds := by
  cases l with
  | submit taskData dataLen =>
      obtain rfl := Option.some.inj hstep
      refine Or.inr ⟨?_, rfl⟩
      rw [State.submitted, processPoolSubmitTask_workers]
      exact Same.refl _
  | dispatch killOk writeOk =>
      simp only [State.step] at hstep
      split_ifs at hstep
      obtain rfl := Option.some.inj hstep
      obtain ⟨hsame, hkernel⟩ := dispatchRound_same lasting_numbers killOk writeOk s.pool s.kernel
      exact Or.inr ⟨hsame, hkernel.1⟩
  | receive i readOk =>
      simp only [State.step] at hstep
      split_ifs at hstep
      obtain rfl := Option.some.inj hstep
      obtain ⟨hsame, hkernel⟩ :=
        receiveResultFromWorker_same lasting_numbers s.kernel (s.pool.workers i) readOk
      exact Or.inr ⟨Same.update _ hsame, hkernel.1⟩
  | reap channel =>
      obtain ⟨r, hwait, rfl⟩ := Option.map_eq_some_iff.mp hstep
      exact Or.inr ⟨Same.markReaped _ _ _, (Kernel.HandsOn.waitChild hwait).fds⟩
  | restart i outcome =>
      simp only [State.step] at hstep
      split_ifs at hstep with hdead
      obtain rfl := Option.some.inj hstep
      exact Or.inl ⟨i, outcome, rfl, hdead, rfl⟩
  | setRunning running =>
      obtain rfl := Option.some.inj hstep
      exact Or.inr ⟨Same.refl _, rfl⟩
  | tick now =>
      obtain rfl := Option.some.inj hstep
      exact Or.inr ⟨Same.refl _, rfl⟩
  | childRead channel =>
      obtain ⟨k, hk, rfl⟩ := Option.map_eq_some_iff.mp hstep
      exact Or.inr ⟨Same.refl _, (Kernel.HandsOn.childRead hk).fds⟩
  | childWrite channel =>
      obtain ⟨k, hk, rfl⟩ := Option.map_eq_some_iff.mp hstep
      exact Or.inr ⟨Same.refl _, (Kernel.HandsOn.childWrite hk).fds⟩
  | childExit channel =>
      obtain ⟨k, hk, rfl⟩ := Option.map_eq_some_iff.mp hstep
      exact Or.inr ⟨Same.refl _, (Kernel.HandsOn.childExit hk).fds⟩

theorem Recorded.step {base : ℤ → Option Descriptor}
    (h : Recorded base (fun _ => True) s.pool.workers s.kernel) (hstep : s.step l = some t) :
    Recorded base (fun _ => True) t.pool.workers t.kernel := by
  rcases step_numbers hstep with ⟨i, outcome, -, hdead, rfl⟩ | ⟨hsame, hfds⟩
  · exact h.restart outcome hdead rfl
  · exact h.congr (by rw [hfds]) hsame

end

/-! ### Terminating -/

section

variable {n : ℕ} {base : ℤ → Option Descriptor} {ws : Fin n → WorkerProcess}

/-- Terminating a worker closes the numbers of its record. -/
theorem lookup_terminateWorkerProcess (i : ℕ) (w : WorkerProcess) (k : Kernel) (fd : ℤ) :
    (terminateWorkerProcess i w k).2.fds.lookup fd =
      if fd ∈ w.numbers then none else k.fds.lookup fd := by
  obtain ⟨k₀, hfds, -, hkernel, -⟩ := terminateWorkerProcess_eq (i := i) (w := w) (k := k)
  rw [hkernel, lookup_closeRecord, hfds]

/-- What the loop of a `process_pool_create` that fails does to the kernel, and with distinct
workers that of `process_pool_destroy` as well. -/
def terminated (ws : Fin n → WorkerProcess) (is : List (Fin n)) (k : Kernel) : Kernel :=
  is.foldl (fun k (j : Fin n) => (terminateWorkerProcess j (ws j) k).2) k

theorem terminateAmong_kernel {is : List (Fin n)} (hnodup : is.Nodup)
    {ws' : Fin n → WorkerProcess} (hws : ∀ i ∈ is, ws' i = ws i) (k : Kernel) :
    (terminateAmong is ws' k).2 = terminated ws is k := by
  induction is generalizing ws' k with
  | nil => rfl
  | cons i is ih =>
      rw [List.nodup_cons] at hnodup
      rw [terminateAmong, terminated, List.foldl_cons, ← hws i List.mem_cons_self]
      refine ih hnodup.2 (fun j hj => ?_) _
      have hne : j ≠ i := fun heq => hnodup.1 (heq ▸ hj)
      rw [Function.update_of_ne hne]
      exact hws j (List.mem_cons_of_mem i hj)

theorem lookup_terminated (ws : Fin n → WorkerProcess) (is : List (Fin n)) (k : Kernel) (fd : ℤ) :
    (∃ i ∈ is, fd ∈ (ws i).numbers) ∧ (terminated ws is k).fds.lookup fd = none ∨
      (¬ ∃ i ∈ is, fd ∈ (ws i).numbers) ∧
        (terminated ws is k).fds.lookup fd = k.fds.lookup fd := by
  induction is generalizing k with
  | nil => exact Or.inr ⟨by simp, rfl⟩
  | cons i is ih =>
      rw [terminated, List.foldl_cons]
      rcases ih (terminateWorkerProcess i (ws i) k).2 with ⟨hmem, hnone⟩ | ⟨hnot, hsame⟩
      · exact Or.inl ⟨hmem.imp fun j hj => ⟨List.mem_cons_of_mem i hj.1, hj.2⟩, hnone⟩
      · rw [lookup_terminateWorkerProcess] at hsame
        by_cases hmem : fd ∈ (ws i).numbers
        · rw [if_pos hmem] at hsame
          exact Or.inl ⟨⟨i, List.mem_cons_self, hmem⟩, hsame⟩
        · rw [if_neg hmem] at hsame
          refine Or.inr ⟨?_, hsame⟩
          rintro ⟨j, hj, hfd⟩
          rcases List.mem_cons.mp hj with rfl | hj
          · exact hmem hfd
          · exact hnot ⟨j, hj, hfd⟩

/-- When all workers with a record are terminated, what is open is what was open before. -/
theorem Recorded.terminated {created : Fin n → Prop} {k : Kernel}
    (h : Recorded base created ws k) (hbase : ∀ fd, base fd = none ∨ base fd = some .other)
    {is : List (Fin n)} (his : ∀ i, i ∈ is ↔ created i) :
    (PipePool.terminated ws is k).fds.lookup = base := by
  funext fd
  rcases lookup_terminated ws is k fd with ⟨⟨i, hi, hfd⟩, hclosed⟩ | ⟨hmem, hsame⟩
  · rw [hclosed]
    rcases hbase fd with hnone | hother
    · exact hnone.symm
    · exact absurd hother (h.apart i ((his i).mp hi) fd hfd)
  · rw [hsame]
    cases hfd : k.fds.lookup fd with
    | none =>
        rcases hbase fd with hnone | hother
        · exact hnone.symm
        · rw [(h.others fd).mpr hother] at hfd
          cases hfd
    | some d =>
        cases d with
        | other => exact ((h.others fd).mp hfd).symm
        | pipeEnd channel direction side =>
            obtain ⟨i, hi, -, hin⟩ := h.ends fd channel direction side hfd
            exact absurd ⟨i, (his i).mpr hi, hin⟩ hmem

/-- The creation loop records the ends of the workers created so far, and gives everything
back when a creation fails. -/
theorem Recorded.createAmong {handler : Option TaskHandler} {outcomes : Fin n → CreateOutcome}
    (hbase : ∀ fd, base fd = none ∨ base fd = some .other) (is done : List (Fin n))
    (hnodup : (done ++ is).Nodup) {k : Kernel}
    (h : Recorded base (fun i => i ∈ done) ws k)
    {r : Option (Fin n → WorkerProcess) × Kernel}
    (hr : PipePool.createAmong handler outcomes done is ws k = r) :
    (∀ ws', r.1 = some ws' → Recorded base (fun i => i ∈ done ++ is) ws' r.2) ∧
      (r.1 = none → r.2.fds.lookup = base) := by
  induction is generalizing done ws k with
  | nil =>
      subst hr
      refine ⟨fun ws' heq => ?_, fun heq => (by cases heq)⟩
      obtain rfl := Option.some.inj heq
      rwa [List.append_nil]
  | cons i is ih =>
      have hi : ∀ j, j ∈ done → j ≠ i := by
        rintro j hj rfl
        exact (List.nodup_append.mp hnodup).2.2 j hj j List.mem_cons_self rfl
      simp only [PipePool.createAmong] at hr
      generalize hcreate : createWorkerProcess i handler (outcomes i) (ws i) k = c at hr
      rcases (createWorkerProcess_cases _ _ _ _ _ hcreate).2 with
        ⟨hok, hsucceeded⟩ | ⟨hok, hfailed⟩
      · rw [if_pos hok] at hr
        have hmem : (fun j => j ∈ done ∨ j = i) = fun j => j ∈ done ++ [i] := by
          funext j
          simp
        have hnext := h.create hi hsucceeded
        rw [hmem] at hnext
        have hrest := ih (done ++ [i]) (by simpa using hnodup) hnext hr
        rwa [List.append_assoc, List.singleton_append] at hrest
      · rw [if_neg (by rw [hok]; decide)] at hr
        subst hr
        refine ⟨fun _ heq => (by cases heq), fun _ => ?_⟩
        have hkernel : Recorded base (fun i => i ∈ done) ws c.kernel :=
          h.congr hfailed.lookup fun _ => rfl
        exact hkernel.terminated hbase fun _ => Iff.rfl

end

/-- What reaping changes of the kernel. -/
theorem reapDeadChildren_fds {n : ℕ} (channels : List Channel) {pool : ProcessPool n}
    {k : Kernel} {r : ProcessPool n × Kernel} (hr : reapDeadChildren channels pool k = some r) :
    r.2.fds = k.fds := by
  induction channels generalizing pool k with
  | nil =>
      obtain rfl := Option.some.inj hr
      rfl
  | cons channel channels ih =>
      rw [reapDeadChildren, Option.bind_eq_some_iff] at hr
      obtain ⟨w, hwait, hrest⟩ := hr
      exact (ih hrest).trans (Kernel.HandsOn.waitChild hwait).fds

theorem start_recorded {n : ℕ} (opened : List Bool) :
    Recorded (Kernel.start opened).fds.lookup (fun i : Fin n => i ∈ []) (fun _ => .zero)
      (Kernel.start opened) where
  others := fun _ => Iff.rfl
  apart := fun _ hi => absurd hi List.not_mem_nil
  ends := by
    intro fd channel direction side hfd
    rcases start_lookup opened fd with hnone | hother
    · rw [hnone] at hfd
      cases hfd
    · rw [hother] at hfd
      cases hfd

/-- A `process_pool_create` that fails, and `process_pool_destroy` after any run of the pool,
leave open exactly what was open before the pool. -/
theorem descriptors_given_back {n : ℕ} {handler : Option TaskHandler} {mallocOk signalsOk : Bool}
    {outcomes : Fin n → CreateOutcome} {opened : List Bool}
    {r : Option (ProcessPool n) × Kernel}
    (hr : processPoolCreate n handler mallocOk signalsOk outcomes (Kernel.start opened) = r) :
    (r.1 = none → r.2.fds.lookup = (Kernel.start opened).fds.lookup) ∧
      ∀ pool ls t channels destroyed, r.1 = some pool →
        Transition.Run (processPool n) ⟨pool, r.2, [], []⟩ ls t →
          processPoolDestroy channels t.pool t.kernel = some destroyed →
            destroyed.2.fds.lookup = (Kernel.start opened).fds.lookup := by
  have hbase := start_lookup opened
  have hcreate : createAmong handler outcomes [] (List.finRange n) (fun _ => .zero)
      (Kernel.start opened) = _ := rfl
  obtain ⟨hcreated, hfailed⟩ := Recorded.createAmong hbase (List.finRange n) []
    (List.nodup_finRange n) (start_recorded opened) hcreate
  constructor
  · intro hnone
    simp only [processPoolCreate] at hr
    split_ifs at hr <;> subst hr
    · rfl
    · rfl
    · rfl
    · exact hfailed (Option.map_eq_none_iff.mp hnone)
  · rintro pool ls t channels destroyed hpool hrun hdestroy
    have hall : (fun i : Fin n => i ∈ [] ++ List.finRange n) = fun _ => True := by
      funext i
      simp
    obtain ⟨ws, hws, rfl⟩ := processPoolCreate_cases (hr.trans (Prod.ext hpool rfl))
    have hrecorded := hcreated ws (congrArg Prod.fst hws)
    rw [hall, congrArg Prod.snd hws] at hrecorded
    have ht : Recorded (Kernel.start opened).fds.lookup (fun _ => True) t.pool.workers
        t.kernel :=
      hrun.preserves (I := fun s => Recorded (Kernel.start opened).fds.lookup (fun _ => True)
        s.pool.workers s.kernel) (fun _ _ _ h hstep => h.step hstep) hrecorded
    rw [reapDeadChildren_fds channels hdestroy,
      terminateAmong_kernel (List.nodup_finRange n) (fun _ _ => rfl)]
    exact ht.terminated hbase fun i => iff_of_true (List.mem_finRange i) trivial

/-- The second worker's pipes cannot be opened: the first one is terminated, and the numbers 3
and 6 of its pipes are free again. In the other pool the worker process dies and is replaced
before the pool is destroyed. -/
theorem descriptors_given_back_one : ∃ (k k' : Kernel) (pool : ProcessPool 1) (t : State 1)
    (destroyed : ProcessPool 1 × Kernel),
    processPoolCreate 2 none true true
        (fun i => ⟨if i = 0 then .created else .pipeFailed, .created, some 7⟩)
        (.start [true, true, true]) = (none, k) ∧
      k.fds.lookup = (Kernel.start [true, true, true]).fds.lookup ∧
      processPoolCreate 1 none true true (fun _ => ⟨.created, .created, some 7⟩)
        (.start [true, true, true]) = (some pool, k') ∧
      Transition.Run (processPool 1) ⟨pool, k', [], []⟩
        [.childExit ⟨0, 0⟩, .reap ⟨0, 0⟩, .restart 0 ⟨.created, .created, some 8⟩] t ∧
      processPoolDestroy [] t.pool t.kernel = some destroyed ∧
      destroyed.2.fds.lookup = (Kernel.start [true, true, true]).fds.lookup := by
  have hrun : ∃ (k' : Kernel) (pool : ProcessPool 1) (t : State 1)
      (destroyed : ProcessPool 1 × Kernel),
      processPoolCreate 1 none true true (fun _ => ⟨.created, .created, some 7⟩)
          (.start [true, true, true]) = (some pool, k') ∧
        Transition.Run (processPool 1) ⟨pool, k', [], []⟩
          [.childExit ⟨0, 0⟩, .reap ⟨0, 0⟩, .restart 0 ⟨.created, .created, some 8⟩] t ∧
        processPoolDestroy [] t.pool t.kernel = some destroyed :=
    ⟨_, _, _, _, rfl, .cons rfl (.cons rfl (.cons rfl (.nil _))), rfl⟩
  have hfail : ∃ k, processPoolCreate 2 none true true
      (fun i => ⟨if i = 0 then .created else .pipeFailed, .created, some 7⟩)
      (.start [true, true, true]) = (none, k) := ⟨_, rfl⟩
  obtain ⟨k, hfail⟩ := hfail
  obtain ⟨k', pool, t, destroyed, hcreate, ht, hdestroy⟩ := hrun
  exact ⟨k, k', pool, t, destroyed, hfail, (descriptors_given_back hfail).1 rfl, hcreate, ht,
    hdestroy, (descriptors_given_back hcreate).2 pool _ t [] destroyed rfl ht hdestroy⟩

end PipePool

end ProcessThreadPool
