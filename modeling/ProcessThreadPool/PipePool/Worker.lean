import ProcessThreadPool.PipePool.Kernel

/-!
# The pipe-based process pool: worker records

`worker_process_t` and the functions that open, close and replace a worker's pipes.
A record keeps four descriptor numbers; `-1` stands for none. The parent closes two
of them right after `fork` and leaves the numbers in the record.
-/

namespace ProcessThreadPool

namespace PipePool

open DescriptorTable

/-- `worker_status_t`. -/
inductive WorkerStatus where
  | idle
  | busy
  | dead
  deriving DecidableEq, Repr

/-- `int pipefd[2]`. -/
structure PipeFd where
  readEnd : ℤ
  writeEnd : ℤ
  deriving DecidableEq, Repr

/-- `worker_process_t`. -/
structure WorkerProcess where
  pid : ℤ
  status : WorkerStatus
  pipeToWorker : PipeFd
  pipeFromWorker : PipeFd
  lastActive : ℤ
  currentTaskId : ℤ
  deriving DecidableEq, Repr

/-- The record after `memset`. -/
def WorkerProcess.zero : WorkerProcess := ⟨0, .idle, ⟨0, 0⟩, ⟨0, 0⟩, 0, 0⟩

/-- How the system calls of `create_pipe_pair` end. -/
inductive PipeOutcome where
  | created
  | pipeFailed
  | nonblockingFailed
  deriving DecidableEq, Repr

/-- How the system calls of `create_worker_process` end: its two pipes, and the pid
that `fork` returns to the parent, `none` when it fails. -/
structure CreateOutcome where
  toWorker : PipeOutcome
  fromWorker : PipeOutcome
  fork : Option ℕ
  deriving DecidableEq, Repr

/-- What `create_pipe_pair` leaves: whether it returned 0, the numbers, the kernel. -/
structure PipeCreated where
  ok : Bool
  pipefd : PipeFd
  kernel : Kernel

/-- `create_pipe_pair`. When `fcntl` fails both ends are closed and the numbers stay. -/
def createPipePair (k : Kernel) (channel : Channel) (direction : Direction)
    (outcome : PipeOutcome) (pipefd : PipeFd) : PipeCreated :=
  let opened := k.fds.openPair (.pipeEnd channel direction .readEnd)
    (.pipeEnd channel direction .writeEnd)
  let kernel := { k with fds := opened.2.2 }
  match outcome with
  | .pipeFailed => ⟨false, pipefd, k⟩
  | .nonblockingFailed =>
      ⟨false, ⟨opened.1, opened.2.1⟩,
        (kernel.close channel.worker opened.1).close channel.worker opened.2.1⟩
  | .created => ⟨true, ⟨opened.1, opened.2.1⟩, kernel⟩

/-- The kernel after one half of `close_pipe_pair`. -/
def closeEnd (k : Kernel) (worker : ℕ) (fd : ℤ) : Kernel :=
  if fd ≠ -1 then k.close worker fd else k

/-- `close_pipe_pair`. Both numbers are `-1` afterwards. -/
def closePipePair (k : Kernel) (worker : ℕ) (pipefd : PipeFd) : PipeFd × Kernel :=
  (⟨-1, -1⟩, closeEnd (closeEnd k worker pipefd.readEnd) worker pipefd.writeEnd)

/-- What the functions on a record leave: whether they returned 0, the record, the
kernel. -/
structure WorkerOutcome where
  ok : Bool
  worker : WorkerProcess
  kernel : Kernel

/-- `create_worker_process` in the parent, for the record of index `i`. -/
def createWorkerProcess (i : ℕ) (handler : Option TaskHandler) (outcome : CreateOutcome)
    (w : WorkerProcess) (k : Kernel) : WorkerOutcome :=
  let channel : Channel := ⟨i, k.sessions⟩
  let toPipe := createPipePair { k with sessions := k.sessions + 1 } channel .toWorker
    outcome.toWorker w.pipeToWorker
  if toPipe.ok = false then ⟨false, { w with pipeToWorker := toPipe.pipefd }, toPipe.kernel⟩
  else
    let fromPipe := createPipePair toPipe.kernel channel .fromWorker
      outcome.fromWorker w.pipeFromWorker
    if fromPipe.ok = false then
      let closed := closePipePair fromPipe.kernel i toPipe.pipefd
      ⟨false, { w with
        pipeToWorker := closed.1
        pipeFromWorker := fromPipe.pipefd }, closed.2⟩
    else
      match outcome.fork with
      | none =>
          let closed := closePipePair fromPipe.kernel i toPipe.pipefd
          let closed' := closePipePair closed.2 i fromPipe.pipefd
          ⟨false, { w with
            pid := -1
            pipeToWorker := closed.1
            pipeFromWorker := closed'.1 }, closed'.2⟩
      | some pid =>
          let spawned := fromPipe.kernel.spawn channel pid handler
          ⟨true, { w with
            pid := pid
            status := .idle
            pipeToWorker := toPipe.pipefd
            pipeFromWorker := fromPipe.pipefd
            lastActive := k.now
            currentTaskId := -1 },
            (spawned.close i toPipe.pipefd.readEnd).close i fromPipe.pipefd.writeEnd⟩

/-- `restart_dead_worker`. -/
def restartDeadWorker (i : ℕ) (handler : Option TaskHandler) (outcome : CreateOutcome)
    (w : WorkerProcess) (k : Kernel) : WorkerOutcome :=
  if w.status ≠ .dead then ⟨true, w, k⟩
  else
    let closed := closePipePair k i w.pipeToWorker
    let closed' := closePipePair closed.2 i w.pipeFromWorker
    createWorkerProcess i handler outcome
      { w with pipeToWorker := closed.1, pipeFromWorker := closed'.1 } closed'.2

/-- `terminate_worker_process`. -/
def terminateWorkerProcess (i : ℕ) (w : WorkerProcess) (k : Kernel) :
    WorkerProcess × Kernel :=
  let killed := if 0 < w.pid then k.killAndWait w.pid else k
  let closed := closePipePair killed i w.pipeToWorker
  let closed' := closePipePair closed.2 i w.pipeFromWorker
  ({ w with
    pid := if 0 < w.pid then -1 else w.pid
    status := .dead
    pipeToWorker := closed.1
    pipeFromWorker := closed'.1 }, closed'.2)

/-- The close found a pipe end that belongs to the worker being handled. -/
def CloseCall.Owned (c : CloseCall) : Prop :=
  ∃ session direction side, c.found = some (.pipeEnd ⟨c.worker, session⟩ direction side)

/-- Every `close` so far found a pipe end of the worker being handled. -/
def Kernel.OwnCloses (k : Kernel) : Prop := ∀ c ∈ k.closes, c.Owned

/-- Only descriptors have changed. -/
def Kernel.FdsOnly (k k' : Kernel) : Prop :=
  k' = { k with fds := k'.fds, closes := k'.closes }

/-- A pair of numbers that a failed call leaves in a record: the old ones, none, or
two numbers that are not open. -/
def PipeFd.Spare (p old : PipeFd) (k : Kernel) : Prop :=
  p = old ∨ p = ⟨-1, -1⟩ ∨ 0 ≤ p.readEnd ∧ 0 ≤ p.writeEnd ∧
    k.fds.lookup p.readEnd = none ∧ k.fds.lookup p.writeEnd = none

/-- The numbers of a new pipe, and what they refer to in a table that had neither. -/
structure PipeFd.Opened (p : PipeFd) (channel : Channel) (direction : Direction)
    (k k' : Kernel) : Prop where
  readEnd : 0 ≤ p.readEnd
  writeEnd : 0 ≤ p.writeEnd
  ne : p.readEnd ≠ p.writeEnd
  freeRead : k.fds.lookup p.readEnd = none
  freeWrite : k.fds.lookup p.writeEnd = none
  lookup : k'.fds.lookup =
    Function.update
      (Function.update k.fds.lookup p.readEnd (some (.pipeEnd channel direction .readEnd)))
      p.writeEnd (some (.pipeEnd channel direction .writeEnd))

theorem ownCloses_close {k : Kernel} {worker : ℕ} {fd : ℤ} :
    (k.close worker fd).OwnCloses ↔ k.OwnCloses ∧ ∃ session direction side,
      k.fds.lookup fd = some (.pipeEnd ⟨worker, session⟩ direction side) := by
  simp only [Kernel.OwnCloses, Kernel.close, List.forall_mem_append, List.forall_mem_singleton,
    CloseCall.Owned]

theorem lookup_closeEnd (k : Kernel) (worker : ℕ) (fd : ℤ) :
    (closeEnd k worker fd).fds.lookup = Function.update k.fds.lookup fd none := by
  by_cases hfd : fd ≠ -1
  · rw [closeEnd, if_pos hfd, lookup_close]
  · have hnone : k.fds.lookup fd = none := k.fds.lookup_of_neg (by omega)
    rw [closeEnd, if_neg hfd, ← hnone, Function.update_eq_self]

theorem ownCloses_closeEnd {k : Kernel} {worker : ℕ} {fd : ℤ} :
    (closeEnd k worker fd).OwnCloses ↔ k.OwnCloses ∧ (fd ≠ -1 →
      ∃ session direction side,
        k.fds.lookup fd = some (.pipeEnd ⟨worker, session⟩ direction side)) := by
  by_cases hfd : fd ≠ -1
  · rw [closeEnd, if_pos hfd, ownCloses_close]
    simp [hfd]
  · rw [closeEnd, if_neg hfd]
    simp [hfd]

namespace Kernel.FdsOnly

theorem refl (k : Kernel) : k.FdsOnly k := rfl

theorem trans {k k' k'' : Kernel} (h : k.FdsOnly k') (h' : k'.FdsOnly k'') :
    k.FdsOnly k'' := by
  rw [Kernel.FdsOnly] at h h' ⊢
  rw [h', h]

theorem close (k : Kernel) (worker : ℕ) (fd : ℤ) : k.FdsOnly (k.close worker fd) := rfl

theorem closeEnd (k : Kernel) (worker : ℕ) (fd : ℤ) :
    k.FdsOnly (PipePool.closeEnd k worker fd) := by
  rw [PipePool.closeEnd]
  split
  · exact close k worker fd
  · exact refl k

theorem closePipePair (k : Kernel) (worker : ℕ) (p : PipeFd) :
    k.FdsOnly (PipePool.closePipePair k worker p).2 :=
  (closeEnd k worker p.readEnd).trans (closeEnd _ worker p.writeEnd)

theorem createPipePair (k : Kernel) (channel : Channel) (direction : Direction)
    (outcome : PipeOutcome) (p : PipeFd) :
    k.FdsOnly (PipePool.createPipePair k channel direction outcome p).kernel := by
  cases outcome with
  | _ => rfl

end Kernel.FdsOnly

theorem lookup_closePipePair (k : Kernel) (worker : ℕ) (p : PipeFd) :
    (closePipePair k worker p).2.fds.lookup =
      Function.update (Function.update k.fds.lookup p.readEnd none) p.writeEnd none := by
  rw [closePipePair, lookup_closeEnd, lookup_closeEnd]

theorem lookup_closePipePair_of_ne {k : Kernel} {worker : ℕ} {p : PipeFd} {fd : ℤ}
    (hread : fd ≠ p.readEnd) (hwrite : fd ≠ p.writeEnd) :
    (closePipePair k worker p).2.fds.lookup fd = k.fds.lookup fd := by
  rw [lookup_closePipePair, Function.update_of_ne hwrite, Function.update_of_ne hread]

theorem lookup_closePipePair_of_none {k : Kernel} {fd : ℤ} (h : k.fds.lookup fd = none)
    (worker : ℕ) (p : PipeFd) : (closePipePair k worker p).2.fds.lookup fd = none := by
  rw [lookup_closePipePair, Function.update_apply, Function.update_apply, h, ite_self, ite_self]

theorem PipeFd.Spare.closePipePair {p old : PipeFd} {k : Kernel} (h : p.Spare old k)
    (worker : ℕ) (q : PipeFd) : p.Spare old (PipePool.closePipePair k worker q).2 := by
  rcases h with hold | hnone | ⟨hread, hwrite, hfreeRead, hfreeWrite⟩
  · exact Or.inl hold
  · exact Or.inr (Or.inl hnone)
  · exact Or.inr (Or.inr ⟨hread, hwrite, lookup_closePipePair_of_none hfreeRead _ _,
      lookup_closePipePair_of_none hfreeWrite _ _⟩)

/-- Closing two open numbers of the worker being handled. -/
theorem ownCloses_closePipePair {k : Kernel} {channel : Channel} {p : PipeFd}
    {direction direction' : Direction} {side side' : Side} (hne : p.readEnd ≠ p.writeEnd)
    (hread : k.fds.lookup p.readEnd = some (.pipeEnd channel direction side))
    (hwrite : k.fds.lookup p.writeEnd = some (.pipeEnd channel direction' side')) :
    (closePipePair k channel.worker p).2.OwnCloses ↔ k.OwnCloses := by
  rw [closePipePair, ownCloses_closeEnd, ownCloses_closeEnd, lookup_closeEnd,
    Function.update_of_ne hne.symm, hread, hwrite, and_assoc]
  exact and_iff_left ⟨fun _ => ⟨_, _, _, rfl⟩, fun _ => ⟨_, _, _, rfl⟩⟩

namespace PipeFd.Opened

/-- Closing both ends of a new pipe gives the old table back. -/
theorem update_none {p : PipeFd} {channel : Channel} {direction : Direction} {k k' : Kernel}
    (h : p.Opened channel direction k k') :
    Function.update (Function.update k'.fds.lookup p.readEnd none) p.writeEnd none =
      k.fds.lookup := by
  have hread : Function.update k.fds.lookup p.readEnd none = k.fds.lookup :=
    Function.update_eq_self_iff.mpr h.freeRead.symm
  have hwrite : Function.update k.fds.lookup p.writeEnd none = k.fds.lookup :=
    Function.update_eq_self_iff.mpr h.freeWrite.symm
  rw [h.lookup, Function.update_comm h.ne, Function.update_idem,
    Function.update_comm h.ne.symm, Function.update_idem, hread, hwrite]

theorem lookup_readEnd {p : PipeFd} {channel : Channel} {direction : Direction}
    {k k' : Kernel} (h : p.Opened channel direction k k') :
    k'.fds.lookup p.readEnd = some (.pipeEnd channel direction .readEnd) := by
  rw [h.lookup, Function.update_of_ne h.ne, Function.update_self]

theorem lookup_writeEnd {p : PipeFd} {channel : Channel} {direction : Direction}
    {k k' : Kernel} (h : p.Opened channel direction k k') :
    k'.fds.lookup p.writeEnd = some (.pipeEnd channel direction .writeEnd) := by
  rw [h.lookup, Function.update_self]

theorem lookup_of_ne {p : PipeFd} {channel : Channel} {direction : Direction}
    {k k' : Kernel} (h : p.Opened channel direction k k') {fd : ℤ} (hread : fd ≠ p.readEnd)
    (hwrite : fd ≠ p.writeEnd) : k'.fds.lookup fd = k.fds.lookup fd := by
  rw [h.lookup, Function.update_of_ne hwrite, Function.update_of_ne hread]

/-- The new numbers are not those of files that were open before. -/
theorem ne_of_open {p : PipeFd} {channel : Channel} {direction : Direction}
    {k k' : Kernel} (h : p.Opened channel direction k k') {fd : ℤ} {d : Descriptor}
    (hfd : k.fds.lookup fd = some d) : fd ≠ p.readEnd ∧ fd ≠ p.writeEnd := by
  constructor
  · rintro rfl
    rw [h.freeRead] at hfd
    cases hfd
  · rintro rfl
    rw [h.freeWrite] at hfd
    cases hfd

/-- Of two new pipes the parent keeps the write end of the first and the read end
of the second. -/
theorem keepEnds {p q : PipeFd} {channel : Channel} {k k' k'' : Kernel}
    (hp : p.Opened channel .toWorker k k') (hq : q.Opened channel .fromWorker k' k'') :
    Function.update (Function.update k''.fds.lookup p.readEnd none) q.writeEnd none =
      Function.update
        (Function.update k.fds.lookup p.writeEnd (some (.pipeEnd channel .toWorker .writeEnd)))
        q.readEnd (some (.pipeEnd channel .fromWorker .readEnd)) := by
  obtain ⟨hrr, hrw⟩ := hq.ne_of_open hp.lookup_readEnd
  obtain ⟨hwr, hww⟩ := hq.ne_of_open hp.lookup_writeEnd
  have hfree : k.fds.lookup q.writeEnd = none :=
    (hp.lookup_of_ne hrw.symm hww.symm).symm.trans hq.freeWrite
  funext fd
  by_cases hfd : fd = q.writeEnd
  · rw [hfd, Function.update_self, Function.update_of_ne hq.ne.symm,
      Function.update_of_ne hww.symm, hfree]
  · by_cases hfd' : fd = p.readEnd
    · rw [hfd', Function.update_of_ne hrw, Function.update_self, Function.update_of_ne hrr,
        Function.update_of_ne hp.ne, hp.freeRead]
    · rw [Function.update_of_ne hfd, Function.update_of_ne hfd', hq.lookup, hp.lookup,
        Function.update_of_ne hfd]
      by_cases hfd'' : fd = q.readEnd
      · rw [hfd'', Function.update_self, Function.update_self]
      · rw [Function.update_of_ne hfd'', Function.update_of_ne hfd'']
        by_cases hlast : fd = p.writeEnd
        · rw [hlast, Function.update_self, Function.update_self]
        · rw [Function.update_of_ne hlast, Function.update_of_ne hlast,
            Function.update_of_ne hfd']

/-- Closing one new pipe. -/
theorem close {p : PipeFd} {channel : Channel} {direction : Direction} {k k' : Kernel}
    (h : p.Opened channel direction k k') :
    (closePipePair k' channel.worker p).2.fds.lookup = k.fds.lookup ∧
      ((closePipePair k' channel.worker p).2.OwnCloses ↔ k'.OwnCloses) :=
  ⟨(lookup_closePipePair k' channel.worker p).trans h.update_none,
    ownCloses_closePipePair h.ne h.lookup_readEnd h.lookup_writeEnd⟩

/-- Closing two new pipes, the older one first. -/
theorem closeBoth {p q : PipeFd} {channel : Channel} {direction direction' : Direction}
    {k k' k'' : Kernel} (hp : p.Opened channel direction k k')
    (hq : q.Opened channel direction' k' k'') {closed : Kernel}
    (hclosed : closed =
      (closePipePair (closePipePair k'' channel.worker p).2 channel.worker q).2) :
    closed.fds.lookup = k.fds.lookup ∧ (closed.OwnCloses ↔ k''.OwnCloses) := by
  obtain ⟨hrr, hrw⟩ := hq.ne_of_open hp.lookup_readEnd
  obtain ⟨hwr, hww⟩ := hq.ne_of_open hp.lookup_writeEnd
  have hreadEnd := (hq.lookup_of_ne hrr hrw).trans hp.lookup_readEnd
  have hwriteEnd := (hq.lookup_of_ne hwr hww).trans hp.lookup_writeEnd
  have hfirst := ownCloses_closePipePair hp.ne hreadEnd hwriteEnd
  have hsecond := ownCloses_closePipePair
    (k := (closePipePair k'' channel.worker p).2) hq.ne
    ((lookup_closePipePair_of_ne hrr.symm hwr.symm).trans hq.lookup_readEnd)
    ((lookup_closePipePair_of_ne hrw.symm hww.symm).trans hq.lookup_writeEnd)
  rw [hclosed]
  refine ⟨?_, hsecond.trans hfirst⟩
  rw [lookup_closePipePair, lookup_closePipePair, Function.update_comm hwr,
    Function.update_comm hrr, Function.update_comm hww, Function.update_comm hrw,
    hq.update_none, hp.update_none]

/-- Closing the child's ends of two new pipes. -/
theorem closeChildEnds {p q : PipeFd} {channel : Channel} {k k' k'' : Kernel}
    (hp : p.Opened channel .toWorker k k') (hq : q.Opened channel .fromWorker k' k'')
    {closed : Kernel}
    (hclosed : closed =
      (k''.close channel.worker p.readEnd).close channel.worker q.writeEnd) :
    closed.fds.lookup = Function.update
        (Function.update k.fds.lookup p.writeEnd (some (.pipeEnd channel .toWorker .writeEnd)))
        q.readEnd (some (.pipeEnd channel .fromWorker .readEnd)) ∧
      (closed.fds.lookup p.readEnd = none ∧ closed.fds.lookup q.writeEnd = none) ∧
      (closed.OwnCloses ↔ k''.OwnCloses) := by
  obtain ⟨hrr, hrw⟩ := hq.ne_of_open hp.lookup_readEnd
  have hreadEnd := (hq.lookup_of_ne hrr hrw).trans hp.lookup_readEnd
  rw [hclosed]
  simp only [lookup_close]
  refine ⟨hp.keepEnds hq, ⟨?_, Function.update_self _ _ _⟩, ?_⟩
  · rw [Function.update_of_ne hrw, Function.update_self]
  · rw [ownCloses_close, ownCloses_close, lookup_close, Function.update_of_ne hrw.symm]
    exact ⟨fun h => h.1.1, fun h => ⟨⟨h, _, _, _, hreadEnd⟩, _, _, _, hq.lookup_writeEnd⟩⟩

end PipeFd.Opened

/-- `create_pipe_pair` opens a new pipe or leaves the table as it was. -/
theorem createPipePair_cases (k : Kernel) (channel : Channel) (direction : Direction)
    (outcome : PipeOutcome) (p : PipeFd) {r : PipeCreated}
    (hr : createPipePair k channel direction outcome p = r) :
    (r.kernel.OwnCloses ↔ k.OwnCloses) ∧
      (r.ok = true ∧ r.pipefd.Opened channel direction k r.kernel ∨
        r.ok = false ∧ r.kernel.fds.lookup = k.fds.lookup ∧
          r.pipefd.Spare p r.kernel) := by
  obtain ⟨hread, hwrite, hne, hfreeRead, hfreeWrite, hlookup⟩ :=
    k.fds.openPair_spec (.pipeEnd channel direction .readEnd)
      (.pipeEnd channel direction .writeEnd)
  generalize hpair : k.fds.openPair (.pipeEnd channel direction .readEnd)
    (.pipeEnd channel direction .writeEnd) = opened at *
  have hopened : PipeFd.Opened ⟨opened.1, opened.2.1⟩ channel direction k
      { k with fds := opened.2.2 } :=
    ⟨hread, hwrite, hne, hfreeRead, hfreeWrite, hlookup⟩
  cases outcome with
  | created =>
      rw [← hr, createPipePair, hpair]
      exact ⟨Iff.rfl, Or.inl ⟨rfl, hopened⟩⟩
  | pipeFailed =>
      subst hr
      exact ⟨Iff.rfl, Or.inr ⟨rfl, rfl, Or.inl rfl⟩⟩
  | nonblockingFailed =>
      have hkernel : r.kernel =
          (closePipePair { k with fds := opened.2.2 } channel.worker
            ⟨opened.1, opened.2.1⟩).2 := by
        subst hr
        simp only [createPipePair, closePipePair, closeEnd, hpair]
        rw [if_pos (show opened.1 ≠ -1 by omega), if_pos (show opened.2.1 ≠ -1 by omega)]
      have hpipefd : r.pipefd = ⟨opened.1, opened.2.1⟩ := by
        rw [← hr, createPipePair, hpair]
      obtain ⟨hold, hcloses⟩ := hopened.close
      rw [hkernel, hold, hpipefd]
      exact ⟨hcloses, Or.inr ⟨by rw [← hr]; rfl, rfl,
        Or.inr (Or.inr ⟨hread, hwrite, by rw [hold]; exact hfreeRead,
          by rw [hold]; exact hfreeWrite⟩)⟩⟩

/-- What a failed `create_worker_process` leaves: the open files are the old ones. -/
structure CreateFailed (k : Kernel) (w : WorkerProcess) (r : WorkerOutcome) : Prop where
  status : r.worker.status = w.status
  currentTaskId : r.worker.currentTaskId = w.currentTaskId
  lookup : r.kernel.fds.lookup = k.fds.lookup
  pipeToWorker : r.worker.pipeToWorker.Spare w.pipeToWorker r.kernel
  pipeFromWorker : r.worker.pipeFromWorker.Spare w.pipeFromWorker r.kernel
  kernel : Kernel.FdsOnly { k with sessions := k.sessions + 1 } r.kernel

/-- What a successful `create_worker_process` leaves: the master has gained one end of
each new pipe, and the record's two other numbers are not open. -/
structure CreateSucceeded (i : ℕ) (handler : Option TaskHandler) (k : Kernel)
    (r : WorkerOutcome) : Prop where
  status : r.worker.status = .idle
  currentTaskId : r.worker.currentTaskId = -1
  nonneg : 0 ≤ r.worker.pipeToWorker.readEnd ∧ 0 ≤ r.worker.pipeFromWorker.writeEnd
  stale : r.kernel.fds.lookup r.worker.pipeToWorker.readEnd = none ∧
    r.kernel.fds.lookup r.worker.pipeFromWorker.writeEnd = none
  ne : r.worker.pipeToWorker.writeEnd ≠ r.worker.pipeFromWorker.readEnd
  free : k.fds.lookup r.worker.pipeToWorker.writeEnd = none ∧
    k.fds.lookup r.worker.pipeFromWorker.readEnd = none
  lookup : r.kernel.fds.lookup =
    Function.update
      (Function.update k.fds.lookup r.worker.pipeToWorker.writeEnd
        (some (.pipeEnd ⟨i, k.sessions⟩ .toWorker .writeEnd)))
      r.worker.pipeFromWorker.readEnd
      (some (.pipeEnd ⟨i, k.sessions⟩ .fromWorker .readEnd))
  kernel : ∃ pid, Kernel.FdsOnly
    (Kernel.spawn { k with sessions := k.sessions + 1 } ⟨i, k.sessions⟩ pid handler) r.kernel

/-- `create_worker_process` closes only what it has opened itself. -/
theorem createWorkerProcess_cases (i : ℕ) (handler : Option TaskHandler)
    (outcome : CreateOutcome) (w : WorkerProcess) (k : Kernel) {r : WorkerOutcome}
    (hr : createWorkerProcess i handler outcome w k = r) :
    (r.kernel.OwnCloses ↔ k.OwnCloses) ∧
      (r.ok = true ∧ CreateSucceeded i handler k r ∨ r.ok = false ∧ CreateFailed k w r) := by
  simp only [createWorkerProcess] at hr
  generalize hto : createPipePair { k with sessions := k.sessions + 1 } ⟨i, k.sessions⟩
    .toWorker outcome.toWorker w.pipeToWorker = toPipe at hr
  generalize hfrom : createPipePair toPipe.kernel ⟨i, k.sessions⟩ .fromWorker
    outcome.fromWorker w.pipeFromWorker = fromPipe at hr
  have htoFds : Kernel.FdsOnly { k with sessions := k.sessions + 1 } toPipe.kernel := by
    rw [← hto]
    exact Kernel.FdsOnly.createPipePair _ _ _ _ _
  have hfromFds : Kernel.FdsOnly { k with sessions := k.sessions + 1 } fromPipe.kernel := by
    rw [← hfrom]
    exact htoFds.trans (Kernel.FdsOnly.createPipePair _ _ _ _ _)
  obtain ⟨htoCloses, ⟨htoOk, hto⟩ | ⟨htoOk, htoLookup, hto⟩⟩ := createPipePair_cases _ _ _ _ _ hto
  · obtain ⟨hfromCloses, ⟨hfromOk, hfrom⟩ | ⟨hfromOk, hfromLookup, hfrom⟩⟩ :=
      createPipePair_cases _ _ _ _ _ hfrom
    · rw [htoOk, hfromOk, if_neg (by decide), if_neg (by decide)] at hr
      cases hfork : outcome.fork with
      | none =>
          rw [hfork] at hr
          subst hr
          obtain ⟨hold, hcloses⟩ := hto.closeBoth hfrom rfl
          refine ⟨hcloses.trans (hfromCloses.trans htoCloses), Or.inr ⟨rfl, rfl, rfl, hold,
            Or.inr (Or.inl rfl), Or.inr (Or.inl rfl), ?_⟩⟩
          exact hfromFds.trans
            ((Kernel.FdsOnly.closePipePair _ _ _).trans (Kernel.FdsOnly.closePipePair _ _ _))
      | some pid =>
          rw [hfork] at hr
          subst hr
          have hspawned : fromPipe.pipefd.Opened ⟨i, k.sessions⟩ .fromWorker toPipe.kernel
              (fromPipe.kernel.spawn ⟨i, k.sessions⟩ pid handler) :=
            { hfrom with lookup := hfrom.lookup }
          obtain ⟨hrr, -⟩ := hfrom.ne_of_open hto.lookup_readEnd
          obtain ⟨hwr, -⟩ := hfrom.ne_of_open hto.lookup_writeEnd
          have hreadFree := (hto.lookup_of_ne hrr.symm hwr.symm).symm.trans hfrom.freeRead
          obtain ⟨hlookup, hstale, hcloses⟩ := hto.closeChildEnds hspawned rfl
          refine ⟨hcloses.trans (hfromCloses.trans htoCloses), Or.inl ⟨rfl, rfl, rfl,
            ⟨hto.readEnd, hfrom.writeEnd⟩, hstale, hwr, ⟨hto.freeWrite, hreadFree⟩, hlookup,
            pid, ?_⟩⟩
          rw [Kernel.FdsOnly] at hfromFds ⊢
          simp only [Kernel.close, Kernel.spawn]
          rw [hfromFds]
    · rw [htoOk, hfromOk, if_neg (by decide), if_pos rfl] at hr
      subst hr
      have hkept : toPipe.pipefd.Opened ⟨i, k.sessions⟩ .toWorker
          { k with sessions := k.sessions + 1 } fromPipe.kernel :=
        { hto with lookup := hfromLookup.trans hto.lookup }
      obtain ⟨hold, hcloses⟩ := hkept.close
      exact ⟨hcloses.trans (hfromCloses.trans htoCloses), Or.inr ⟨rfl, rfl, rfl, hold,
        Or.inr (Or.inl rfl), hfrom.closePipePair _ _,
        hfromFds.trans (Kernel.FdsOnly.closePipePair _ _ _)⟩⟩
  · rw [htoOk, if_pos rfl] at hr
    subst hr
    exact ⟨htoCloses, Or.inr ⟨rfl, rfl, rfl, htoLookup, hto, Or.inl rfl, htoFds⟩⟩

end PipePool

end ProcessThreadPool
