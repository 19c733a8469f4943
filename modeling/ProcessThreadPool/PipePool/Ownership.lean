import ProcessThreadPool.PipePool.Worker
import ProcessThreadPool.Lib.Transition

/-!
# Who closes whose descriptors

The master calls `create_worker_process`, `restart_dead_worker` and
`terminate_worker_process` on `n` records in any order, starting from zeroed records
and any set of open numbers. A record that was filled by a successful creation holds
two numbers that its worker does not own, so closing its pairs reaches numbers that
are free or belong to somebody else; only records without numbers are closed
harmlessly.
-/

namespace ProcessThreadPool

namespace PipePool

/-- The worker records and the kernel. -/
structure Records (n : ℕ) where
  workers : Fin n → WorkerProcess
  kernel : Kernel

/-- After the `memset` of `process_pool_create`. -/
def Records.start (n : ℕ) (opened : List Bool) : Records n :=
  ⟨fun _ => .zero, .start opened⟩

/-- The calls on a record. `markDead` stands for the functions of the pool that find
a worker dead. -/
inductive Call (n : ℕ) where
  | create (i : Fin n) (handler : Option TaskHandler) (outcome : CreateOutcome)
  | restart (i : Fin n) (handler : Option TaskHandler) (outcome : CreateOutcome)
  | terminate (i : Fin n)
  | markDead (i : Fin n)

/-- The index of the record being handled. -/
def Call.worker {n : ℕ} : Call n → Fin n
  | .create i _ _ | .restart i _ _ | .terminate i | .markDead i => i

/-- Store a record and the kernel. -/
def Records.put {n : ℕ} (s : Records n) (i : Fin n) (w : WorkerProcess) (k : Kernel) :
    Records n :=
  ⟨Function.update s.workers i w, k⟩

/-- The effect of a call. -/
def Records.call {n : ℕ} (s : Records n) : Call n → Records n
  | .create i handler outcome =>
      let r := createWorkerProcess i handler outcome (s.workers i) s.kernel
      s.put i r.worker r.kernel
  | .restart i handler outcome =>
      let r := restartDeadWorker i handler outcome (s.workers i) s.kernel
      s.put i r.worker r.kernel
  | .terminate i =>
      let r := terminateWorkerProcess i (s.workers i) s.kernel
      s.put i r.1 r.2
  | .markDead i => s.put i { s.workers i with status := .dead } s.kernel

/-- All sequences of calls. -/
def descriptors (n : ℕ) (opened : List Bool) : Transition.System (Records n) (Call n) :=
  Transition.System.ofFun (Records.start n opened) fun s c => some (s.call c)

/-- What the other workers' records refer to as `pipe_to_worker[1]` and
`pipe_from_worker[0]` stays open, under the same numbers. -/
def KeepsEnds {n : ℕ} (s : Records n) (c : Call n) (t : Records n) : Prop :=
  ∀ j, j ≠ c.worker → t.workers j = s.workers j ∧
    ∀ fd, fd = (s.workers j).pipeToWorker.writeEnd ∨
        fd = (s.workers j).pipeFromWorker.readEnd →
      ∀ d, s.kernel.fds.lookup fd = some d → t.kernel.fds.lookup fd = some d

/-- No `close` reaches a number that is not the handled worker's own, and no other
worker loses an end. -/
def Contained {n : ℕ} (s : Records n) (c : Call n) (t : Records n) : Prop :=
  t.kernel.OwnCloses ∧ KeepsEnds s c t

/-- The record holds no descriptor number. -/
def WorkerProcess.Emptied (w : WorkerProcess) : Prop :=
  w.pipeToWorker = ⟨-1, -1⟩ ∧ w.pipeFromWorker = ⟨-1, -1⟩

/-- A dead worker is restarted, and a worker terminated, only when its record holds
no descriptor number. -/
def HandlesEmptied {n : ℕ} (s : Records n) : Call n → Prop
  | .restart i _ _ => (s.workers i).status = .dead → (s.workers i).Emptied
  | .terminate i => (s.workers i).Emptied
  | .create _ _ _ | .markDead _ => True

/-- The number does not refer to a pipe end of worker `i`. -/
def Foreign (i : ℕ) (k : Kernel) (fd : ℤ) : Prop :=
  ∀ session direction side,
    k.fds.lookup fd ≠ some (.pipeEnd ⟨i, session⟩ direction side)

/-- A pair of numbers is empty, or the given one of them is not the worker's own. -/
def Leftover (i : ℕ) (k : Kernel) (p : PipeFd) (fd : ℤ) : Prop :=
  p = ⟨-1, -1⟩ ∨ fd ≠ -1 ∧ Foreign i k fd

/-- The two numbers that the parent closes after `fork` are not the worker's own. -/
structure RecordInv (i : ℕ) (k : Kernel) (w : WorkerProcess) : Prop where
  toWorker : Leftover i k w.pipeToWorker w.pipeToWorker.readEnd
  fromWorker : Leftover i k w.pipeFromWorker w.pipeFromWorker.writeEnd

/-- Worker `i` has gained no descriptor. -/
def GainsNone (i : ℕ) (k k' : Kernel) : Prop :=
  ∀ fd session direction side,
    k'.fds.lookup fd = some (.pipeEnd ⟨i, session⟩ direction side) →
      k.fds.lookup fd = some (.pipeEnd ⟨i, session⟩ direction side)

theorem foreign_of_none {i : ℕ} {k : Kernel} {fd : ℤ} (h : k.fds.lookup fd = none) :
    Foreign i k fd := by
  intro session direction side hfd
  rw [h] at hfd
  cases hfd

namespace GainsNone

theorem of_lookup_eq {i : ℕ} {k k' : Kernel} (h : k'.fds.lookup = k.fds.lookup) :
    GainsNone i k k' := by
  intro fd session direction side hfd
  rwa [h] at hfd

theorem trans {i : ℕ} {k k' k'' : Kernel} (h : GainsNone i k k') (h' : GainsNone i k' k'') :
    GainsNone i k k'' :=
  fun fd session direction side hfd =>
    h fd session direction side (h' fd session direction side hfd)

theorem closePipePair (i : ℕ) (k : Kernel) (worker : ℕ) (p : PipeFd) :
    GainsNone i k (PipePool.closePipePair k worker p).2 := by
  intro fd session direction side hfd
  rw [lookup_closePipePair, Function.update_apply, Function.update_apply] at hfd
  split_ifs at hfd
  exact hfd

theorem leftover {i : ℕ} {k k' : Kernel} {p : PipeFd} {fd : ℤ} (h : GainsNone i k k')
    (hp : Leftover i k p fd) : Leftover i k' p fd :=
  hp.imp_right fun hforeign => ⟨hforeign.1, fun session direction side hfd =>
    hforeign.2 session direction side (h fd session direction side hfd)⟩

theorem recordInv {i : ℕ} {k k' : Kernel} {w : WorkerProcess} (h : GainsNone i k k')
    (hw : RecordInv i k w) : RecordInv i k' w :=
  ⟨h.leftover hw.toWorker, h.leftover hw.fromWorker⟩

end GainsNone

theorem PipeFd.Spare.leftover {i : ℕ} {k k' : Kernel} {p old : PipeFd}
    (h : p.Spare old k') (hgains : GainsNone i k k') :
    (Leftover i k old old.readEnd → Leftover i k' p p.readEnd) ∧
      (Leftover i k old old.writeEnd → Leftover i k' p p.writeEnd) := by
  rcases h with rfl | rfl | ⟨hread, hwrite, hfreeRead, hfreeWrite⟩
  · exact ⟨hgains.leftover, hgains.leftover⟩
  · exact ⟨fun _ => Or.inl rfl, fun _ => Or.inl rfl⟩
  · exact ⟨fun _ => Or.inr ⟨by omega, foreign_of_none hfreeRead⟩,
      fun _ => Or.inr ⟨by omega, foreign_of_none hfreeWrite⟩⟩

section CreateWorkerProcess

variable {i : ℕ} {handler : Option TaskHandler} {outcome : CreateOutcome} {w : WorkerProcess}
  {k : Kernel} {r : WorkerOutcome}

theorem createWorkerProcess_ownCloses (hr : createWorkerProcess i handler outcome w k = r) :
    r.kernel.OwnCloses ↔ k.OwnCloses :=
  (createWorkerProcess_cases i handler outcome w k hr).1

/-- A creation closes no file that was open before. -/
theorem createWorkerProcess_lookup (hr : createWorkerProcess i handler outcome w k = r)
    {fd : ℤ} {d : Descriptor} (hfd : k.fds.lookup fd = some d) :
    r.kernel.fds.lookup fd = some d := by
  rcases (createWorkerProcess_cases i handler outcome w k hr).2 with ⟨-, h⟩ | ⟨-, h⟩
  · have hto : fd ≠ r.worker.pipeToWorker.writeEnd := by
      rintro rfl
      rw [h.free.1] at hfd
      cases hfd
    have hfrom : fd ≠ r.worker.pipeFromWorker.readEnd := by
      rintro rfl
      rw [h.free.2] at hfd
      cases hfd
    rw [h.lookup, Function.update_of_ne hfrom, Function.update_of_ne hto, hfd]
  · rw [h.lookup, hfd]

theorem createWorkerProcess_gainsNone (hr : createWorkerProcess i handler outcome w k = r)
    {j : ℕ} (hj : j ≠ i) : GainsNone j k r.kernel := by
  rcases (createWorkerProcess_cases i handler outcome w k hr).2 with ⟨-, h⟩ | ⟨-, h⟩
  · intro fd session direction side hfd
    rw [h.lookup, Function.update_apply, Function.update_apply] at hfd
    split_ifs at hfd with hfrom hto
    · simp only [Option.some.injEq, Descriptor.pipeEnd.injEq, Channel.mk.injEq] at hfd
      exact absurd hfd.1.1.symm hj
    · simp only [Option.some.injEq, Descriptor.pipeEnd.injEq, Channel.mk.injEq] at hfd
      exact absurd hfd.1.1.symm hj
    · exact hfd
  · exact GainsNone.of_lookup_eq h.lookup

theorem createWorkerProcess_recordInv (hr : createWorkerProcess i handler outcome w k = r)
    (hw : RecordInv i k w) : RecordInv i r.kernel r.worker := by
  rcases (createWorkerProcess_cases i handler outcome w k hr).2 with ⟨-, h⟩ | ⟨-, h⟩
  · obtain ⟨hread, hwrite⟩ := h.nonneg
    exact ⟨Or.inr ⟨by omega, foreign_of_none h.stale.1⟩,
      Or.inr ⟨by omega, foreign_of_none h.stale.2⟩⟩
  · have hgains : GainsNone i k r.kernel := GainsNone.of_lookup_eq h.lookup
    exact ⟨(h.pipeToWorker.leftover hgains).1 hw.toWorker,
      (h.pipeFromWorker.leftover hgains).2 hw.fromWorker⟩

end CreateWorkerProcess

/-- The kernel after both pairs of a record are closed. -/
def closeRecord (i : ℕ) (w : WorkerProcess) (k : Kernel) : Kernel :=
  (closePipePair (closePipePair k i w.pipeToWorker).2 i w.pipeFromWorker).2

theorem GainsNone.closeRecord (j i : ℕ) (w : WorkerProcess) (k : Kernel) :
    GainsNone j k (PipePool.closeRecord i w k) :=
  (GainsNone.closePipePair j k i _).trans (GainsNone.closePipePair j _ i _)

theorem closeRecord_of_emptied {i : ℕ} {w : WorkerProcess} {k : Kernel} (h : w.Emptied) :
    closeRecord i w k = k := by
  rw [closeRecord, h.1, h.2]
  rfl

/-- After closing the pairs of a record, every close has been the worker's own only
if there was nothing to close. -/
theorem closeRecord_ownCloses {i : ℕ} {w : WorkerProcess} {k : Kernel} (hw : RecordInv i k w) :
    (closeRecord i w k).OwnCloses ↔ k.OwnCloses ∧ w.Emptied := by
  constructor
  · intro h
    simp only [closeRecord, closePipePair, ownCloses_closeEnd] at h
    obtain ⟨⟨⟨⟨hk, hread⟩, -⟩, -⟩, hwrite⟩ := h
    refine ⟨hk, ?_, ?_⟩
    · rcases hw.toWorker with hnone | ⟨hne, hforeign⟩
      · exact hnone
      · obtain ⟨session, direction, side, hfd⟩ := hread hne
        exact absurd hfd (hforeign session direction side)
    · rcases hw.fromWorker with hnone | ⟨hne, hforeign⟩
      · exact hnone
      · obtain ⟨session, direction, side, hfd⟩ := hwrite hne
        simp only [lookup_closeEnd, Function.update_apply] at hfd
        split_ifs at hfd
        exact absurd hfd (hforeign session direction side)
  · rintro ⟨hk, hempty⟩
    rwa [closeRecord_of_emptied hempty]

/-- A restart closes the record's numbers, then creates from an emptied record. -/
theorem restartDeadWorker_of_dead {i : ℕ} {handler : Option TaskHandler}
    {outcome : CreateOutcome} {w : WorkerProcess} {k : Kernel} (hdead : w.status = .dead) :
    restartDeadWorker i handler outcome w k =
      createWorkerProcess i handler outcome
        { w with pipeToWorker := ⟨-1, -1⟩, pipeFromWorker := ⟨-1, -1⟩ }
        (closeRecord i w k) := by
  rw [restartDeadWorker, if_neg (not_not_intro hdead)]
  rfl

theorem terminateWorkerProcess_eq {i : ℕ} {w : WorkerProcess} {k : Kernel} :
    ∃ k₀ : Kernel, k₀.fds = k.fds ∧ k₀.closes = k.closes ∧
      (terminateWorkerProcess i w k).2 = closeRecord i w k₀ ∧
      (terminateWorkerProcess i w k).1.Emptied := by
  refine ⟨if 0 < w.pid then k.killAndWait w.pid else k, ?_, ?_, rfl, rfl, rfl⟩
  · split <;> rfl
  · split <;> rfl

namespace Records

/-- The invariant of all records. -/
def Inv {n : ℕ} (s : Records n) : Prop := ∀ j : Fin n, RecordInv j s.kernel (s.workers j)

namespace Inv

variable {n : ℕ} {s : Records n}

/-- Every record keeps the invariant when the stored one does and the other workers
gain nothing. -/
theorem put (h : s.Inv) {i : Fin n} {w : WorkerProcess} {k : Kernel}
    (hself : RecordInv i k w) (hother : ∀ j : Fin n, j ≠ i → GainsNone j s.kernel k) :
    (s.put i w k).Inv := by
  intro j
  simp only [Records.put]
  by_cases hj : j = i
  · subst hj
    rw [Function.update_self]
    exact hself
  · rw [Function.update_of_ne hj]
    exact (hother j hj).recordInv (h j)

theorem start (n : ℕ) (opened : List Bool) : (Records.start n opened).Inv := by
  intro j
  have hforeign : Foreign j (Kernel.start opened) 0 := by
    intro session direction side hfd
    cases opened with
    | nil => cases hfd
    | cons b bs => cases b <;> cases hfd
  have hzero : (0 : ℤ) ≠ -1 := by decide
  exact ⟨Or.inr ⟨hzero, hforeign⟩, Or.inr ⟨hzero, hforeign⟩⟩

/-- Each call keeps the invariant, whether or not it closes foreign numbers. -/
theorem call (h : s.Inv) (c : Call n) : (s.call c).Inv := by
  have hne : ∀ {i j : Fin n}, j ≠ i → (j : ℕ) ≠ i := fun hj heq => hj (Fin.ext heq)
  cases c with
  | create i handler outcome =>
      exact h.put (createWorkerProcess_recordInv rfl (h i)) fun j hj =>
        createWorkerProcess_gainsNone rfl (hne hj)
  | restart i handler outcome =>
      by_cases hdead : (s.workers i).status = .dead
      · simp only [Records.call, restartDeadWorker_of_dead hdead]
        refine h.put
          (createWorkerProcess_recordInv rfl ⟨Or.inl rfl, Or.inl rfl⟩) fun j hj => ?_
        exact (GainsNone.closeRecord j i _ _).trans (createWorkerProcess_gainsNone rfl (hne hj))
      · simp only [Records.call, restartDeadWorker, if_pos hdead]
        exact h.put (h i) fun j _ => GainsNone.of_lookup_eq rfl
  | terminate i =>
      obtain ⟨k₀, hfds, -, hkernel, hto, hfrom⟩ :=
        terminateWorkerProcess_eq (i := i) (w := s.workers i) (k := s.kernel)
      refine h.put ⟨Or.inl hto, Or.inl hfrom⟩ fun j _ => ?_
      rw [hkernel]
      exact (GainsNone.of_lookup_eq (by rw [hfds])).trans (GainsNone.closeRecord j i _ _)
  | markDead i =>
      exact h.put ⟨(h i).toWorker, (h i).fromWorker⟩ fun j _ =>
        GainsNone.of_lookup_eq rfl

end Inv

variable {n : ℕ} {s : Records n}

theorem keepsEnds_put {c : Call n} {w : WorkerProcess} {k : Kernel}
    (h : ∀ fd d, s.kernel.fds.lookup fd = some d → k.fds.lookup fd = some d) :
    KeepsEnds s c (s.put c.worker w k) :=
  fun _ hj => ⟨Function.update_of_ne hj _ _, fun fd _ d hfd => h fd d hfd⟩

/-- A call is contained exactly when a record that it empties was already empty. -/
theorem contained_iff (h : s.Inv)
    (hown : s.kernel.OwnCloses) (c : Call n) :
    Contained s c (s.call c) ↔ HandlesEmptied s c := by
  cases c with
  | create i handler outcome =>
      exact iff_of_true ⟨(createWorkerProcess_ownCloses rfl).mpr hown,
        keepsEnds_put fun _ _ hfd => createWorkerProcess_lookup rfl hfd⟩ trivial
  | restart i handler outcome =>
      by_cases hdead : (s.workers i).status = .dead
      · simp only [Records.call, restartDeadWorker_of_dead hdead, HandlesEmptied, hdead,
          forall_const]
        constructor
        · intro hc
          exact ((closeRecord_ownCloses (h i)).mp
            ((createWorkerProcess_ownCloses rfl).mp hc.1)).2
        · intro hempty
          rw [closeRecord_of_emptied hempty]
          exact ⟨(createWorkerProcess_ownCloses rfl).mpr hown,
            keepsEnds_put fun _ _ hfd => createWorkerProcess_lookup rfl hfd⟩
      · simp only [Records.call, restartDeadWorker, if_pos hdead]
        exact iff_of_true ⟨hown, keepsEnds_put fun _ _ hfd => hfd⟩
          fun hdead' => absurd hdead' hdead
  | terminate i =>
      obtain ⟨k₀, hfds, hcloses, hkernel, -⟩ :=
        terminateWorkerProcess_eq (i := i) (w := s.workers i) (k := s.kernel)
      have hinv : RecordInv i k₀ (s.workers i) :=
        (GainsNone.of_lookup_eq (by rw [hfds])).recordInv (h i)
      have hown₀ : k₀.OwnCloses := by rwa [Kernel.OwnCloses, hcloses]
      simp only [Records.call, hkernel, HandlesEmptied]
      constructor
      · intro hc
        exact ((closeRecord_ownCloses hinv).mp hc.1).2
      · intro hempty
        rw [closeRecord_of_emptied hempty]
        exact ⟨hown₀, keepsEnds_put fun _ _ hfd => by rwa [hfds]⟩
  | markDead i =>
      exact iff_of_true ⟨hown, keepsEnds_put fun _ _ hfd => hfd⟩ trivial

end Records

/-- For every number of workers and every set of open numbers, a run of calls keeps
each `close` and each loss of an end inside the handled worker exactly when it
restarts dead workers, and terminates workers, only with emptied records. -/
theorem close_contained_iff (n : ℕ) (opened : List Bool) (cs : List (Call n)) (t : Records n) :
    Transition.Run ((descriptors n opened).filter Contained) (Records.start n opened) cs t ↔
      Transition.Run ((descriptors n opened).restrict HandlesEmptied)
        (Records.start n opened) cs t := by
  apply Transition.run_filter_iff_restrict (I := fun s => s.Inv ∧ s.kernel.OwnCloses)
  · intro s c t h hc hstep
    obtain rfl := Option.some.inj hstep
    exact ⟨h.1.call c, ((Records.contained_iff h.1 h.2 c).mpr hc).1⟩
  · intro s c t h hstep
    obtain rfl := Option.some.inj hstep
    exact Records.contained_iff h.1 h.2 c
  · refine ⟨Records.Inv.start n opened, fun c hc => ?_⟩
    cases hc

/-- Two workers are created with the numbers 0, 1 and 2 open. The second one's pipes
reuse number 6, so restarting the first one closes `pipe_to_worker[1]` of the
second. -/
theorem close_not_contained : ¬ ∀ (n : ℕ) (opened : List Bool) (cs : List (Call n))
    (t : Records n),
    Transition.Run (descriptors n opened) (Records.start n opened) cs t →
      Transition.Run ((descriptors n opened).filter Contained) (Records.start n opened)
        cs t := by
  intro hclaim
  have hrun := hclaim 2 [true, true, true]
    [.create 0 none ⟨.created, .created, some 7⟩, .create 1 none ⟨.created, .created, some 8⟩,
      .markDead 0, .restart 0 none ⟨.created, .created, some 9⟩] _
    (.cons rfl (.cons rfl (.cons rfl (.cons rfl (.nil _)))))
  have hown := hrun.preserves (I := fun s => s.kernel.OwnCloses)
    (fun _ _ _ _ hstep => hstep.2.1) (fun c hc => by cases hc)
  have hclose : (⟨0, 6, some (.pipeEnd ⟨1, 1⟩ .toWorker .writeEnd)⟩ : CloseCall).Owned :=
    hown _ (by decide)
  obtain ⟨session, direction, side, hfound⟩ := hclose
  simp at hfound

end PipePool

end ProcessThreadPool
