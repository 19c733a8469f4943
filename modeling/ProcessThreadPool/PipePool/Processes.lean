import ProcessThreadPool.PipePool.Destroy

/-!
# The worker processes of the pipe-based pool

`terminate_worker_process` finds a worker process by the pid in its record. `reap_dead_children`
takes the pid out of the record of a process that it has waited for, and a restart puts the pid
of the new process there. So `process_pool_destroy` waits for every process, unless one has been
replaced before it was waited for.
-/

namespace ProcessThreadPool

namespace PipePool

/-- The process has not been waited for. -/
def Child.Unreaped (child : Child) : Prop := child.phase ≠ .reaped

/-- Every worker process that has not been waited for is the one in the record of its worker,
and their pids are distinct. -/
structure Tracked {n : ℕ} (ws : Fin n → WorkerProcess) (k : Kernel) : Prop where
  known : ∀ channel child, k.children channel = some child → child.Unreaped →
    0 < child.pid ∧ ∃ i : Fin n, channel.worker = i ∧ (ws i).pid = child.pid
  present : ∀ i : Fin n, 0 < (ws i).pid → ∃ session child,
    k.children ⟨i, session⟩ = some child ∧ child.Unreaped ∧ child.pid = (ws i).pid
  distinct : ∀ channel channel' child child', k.children channel = some child →
    k.children channel' = some child' → child.Unreaped → child'.Unreaped →
      child.pid = child'.pid → channel = channel'

/-- A pid that `fork` returns is not that of a process still to be waited for. -/
def Kernel.NewPid (k : Kernel) (pid : ℕ) : Prop :=
  0 < pid ∧ ∀ channel child, k.children channel = some child → child.Unreaped → child.pid ≠ pid

/-- A worker is restarted only after its process has been waited for, and gets a new pid. -/
def Waited {n : ℕ} (s : State n) : Action n → Prop
  | .restart i outcome =>
      (s.pool.workers i).pid ≤ 0 ∧ ∀ pid, outcome.fork = some pid → s.kernel.NewPid pid
  | _ => True

theorem Kernel.FdsOnly.children {k k' : Kernel} (h : k.FdsOnly k') : k'.children = k.children := by
  rw [Kernel.FdsOnly] at h
  rw [h]

/-- What `create_worker_process` does to the worker processes. -/
theorem createWorkerProcess_children {i : ℕ} {handler : Option TaskHandler}
    {outcome : CreateOutcome} {w : WorkerProcess} {k : Kernel} {r : WorkerOutcome}
    (hr : createWorkerProcess i handler outcome w k = r) :
    r.ok = true ∧ (∃ pid, outcome.fork = some pid ∧ r.worker.pid = pid ∧ r.kernel.children =
        Function.update k.children ⟨i, k.sessions⟩ (some ⟨pid, handler, .waiting⟩)) ∨
      r.ok = false ∧ r.kernel.children = k.children ∧
        (r.worker.pid = w.pid ∨ r.worker.pid = -1) := by
  simp only [createWorkerProcess] at hr
  generalize hto : createPipePair { k with sessions := k.sessions + 1 } ⟨i, k.sessions⟩
    .toWorker outcome.toWorker w.pipeToWorker = toPipe at hr
  generalize hfrom : createPipePair toPipe.kernel ⟨i, k.sessions⟩ .fromWorker
    outcome.fromWorker w.pipeFromWorker = fromPipe at hr
  have htoSame : toPipe.kernel.children = k.children := by
    rw [← hto]
    exact (Kernel.FdsOnly.createPipePair _ _ _ _ _).children
  have hfromSame : fromPipe.kernel.children = k.children := by
    rw [← htoSame, ← hfrom]
    exact (Kernel.FdsOnly.createPipePair _ _ _ _ _).children
  split_ifs at hr
  · subst hr
    exact Or.inr ⟨rfl, htoSame, Or.inl rfl⟩
  · subst hr
    exact Or.inr ⟨rfl, (Kernel.FdsOnly.closePipePair _ _ _).children.trans hfromSame, Or.inl rfl⟩
  · split at hr
    · subst hr
      exact Or.inr ⟨rfl, ((Kernel.FdsOnly.closePipePair _ _ _).trans
        (Kernel.FdsOnly.closePipePair _ _ _)).children.trans hfromSame, Or.inr rfl⟩
    · next pid hfork =>
        subst hr
        refine Or.inl ⟨rfl, pid, hfork, rfl, ?_⟩
        show Function.update fromPipe.kernel.children _ _ = _
        rw [hfromSame]

/-- The one record that has the pid forgets it. -/
theorem markReaped_of_sole {n : ℕ} {pid : ℤ} {is : List (Fin n)} {ws : Fin n → WorkerProcess}
    {i : Fin n} (hi : i ∈ is) (hpid : (ws i).pid = pid) (hsole : ∀ j, (ws j).pid = pid → j = i) :
    markReaped pid is ws =
      Function.update ws i { ws i with status := .dead, pid := -1 } := by
  induction is with
  | nil => exact absurd hi List.not_mem_nil
  | cons j is ih =>
      rw [markReaped]
      split_ifs with hj
      · rw [hsole j hj]
      · refine ih ((List.mem_cons.mp hi).resolve_left ?_)
        rintro rfl
        exact hj hpid

namespace Tracked

variable {n : ℕ} {ws ws' : Fin n → WorkerProcess} {k k' : Kernel} {i : Fin n}

/-- The processes go on, and the records keep their pids. -/
theorem congr (h : Tracked ws k) (hws : ∀ j, (ws' j).pid = (ws j).pid)
    (hback : ∀ channel child', k'.children channel = some child' → child'.Unreaped →
      ∃ child, k.children channel = some child ∧ child.Unreaped ∧ child.pid = child'.pid)
    (hforth : ∀ channel child, k.children channel = some child → child.Unreaped →
      ∃ child', k'.children channel = some child' ∧ child'.Unreaped ∧ child'.pid = child.pid) :
    Tracked ws' k' where
  known := by
    intro channel child' hchild' hunreaped'
    obtain ⟨child, hchild, hunreaped, hpid⟩ := hback channel child' hchild' hunreaped'
    obtain ⟨hpos, j, hworker, hsame⟩ := h.known channel child hchild hunreaped
    exact ⟨hpid ▸ hpos, j, hworker, by rw [hws, hsame, hpid]⟩
  present := by
    intro j hpos
    rw [hws] at hpos ⊢
    obtain ⟨session, child, hchild, hunreaped, hpid⟩ := h.present j hpos
    obtain ⟨child', hchild', hunreaped', hpid'⟩ := hforth _ child hchild hunreaped
    exact ⟨session, child', hchild', hunreaped', hpid'.trans hpid⟩
  distinct := by
    intro c d child child' hc hd huc hud hpid
    obtain ⟨a, ha, hua, hpa⟩ := hback c child hc huc
    obtain ⟨b, hb, hub, hpb⟩ := hback d child' hd hud
    exact h.distinct c d a b ha hb hua hub (by rw [hpa, hpb, hpid])

/-- Nothing changes with the processes. -/
theorem of_children_eq (h : Tracked ws k) (hws : ∀ j, (ws' j).pid = (ws j).pid)
    (hchildren : k'.children = k.children) : Tracked ws' k' := by
  refine h.congr hws ?_ ?_
  · intro channel child hchild hunreaped
    exact ⟨child, hchildren ▸ hchild, hunreaped, rfl⟩
  · intro channel child hchild hunreaped
    exact ⟨child, by rw [hchildren, hchild], hunreaped, rfl⟩

/-- A process moves on within its life. -/
theorem of_child (h : Tracked ws k) {channel : Channel} {child child' : Child}
    (hchild : k.children channel = some child)
    (hchildren : k'.children = Function.update k.children channel (some child'))
    (hpid : child'.pid = child.pid) (hunreaped : child.Unreaped)
    (hunreaped' : child'.Unreaped) : Tracked ws k' := by
  refine h.congr (fun _ => rfl) ?_ ?_
  · intro c d hd hud
    rw [hchildren, Function.update_apply] at hd
    split_ifs at hd with hc
    · obtain rfl := Option.some.inj hd
      exact ⟨child, hc ▸ hchild, hunreaped, hpid.symm⟩
    · exact ⟨d, hd, hud, rfl⟩
  · intro c d hd hud
    rw [hchildren, Function.update_apply]
    split_ifs with hc
    · rw [hc, hchild] at hd
      obtain rfl := Option.some.inj hd
      exact ⟨child', rfl, hunreaped', hpid⟩
    · exact ⟨d, hd, hud, rfl⟩

/-- A process that has exited is waited for, and its record forgets the pid. -/
theorem reap (h : Tracked ws k) {channel : Channel} {r : ℤ × Kernel}
    (hwait : k.waitChild channel = some r) :
    Tracked (markReaped r.1 (List.finRange n) ws) r.2 := by
  simp only [Kernel.waitChild] at hwait
  split at hwait
  swap
  · cases hwait
  next pid handler hchild =>
  obtain rfl := Option.some.inj hwait
  have hunreaped : Child.Unreaped ⟨pid, handler, .exited⟩ := by simp [Child.Unreaped]
  obtain ⟨hpos, i, hworker, hpid⟩ := h.known channel _ hchild hunreaped
  have hown : ∀ j session child, k.children ⟨j, session⟩ = some child → child.Unreaped →
      child.pid = pid → (⟨j, session⟩ : Channel) = channel := fun j session child hc hu hp =>
    h.distinct _ channel child _ hc hchild hu hunreaped hp
  have hsole : ∀ j, (ws j).pid = pid → j = i := by
    intro j hj
    obtain ⟨session, child, hc, hu, hp⟩ := h.present j (hj ▸ hpos)
    have heq := hown j session child hc hu (hp.trans hj)
    exact Fin.ext ((congrArg Channel.worker heq).trans hworker)
  rw [markReaped_of_sole (List.mem_finRange i) hpid hsole]
  have hother : ∀ c child, Function.update k.children channel (some ⟨pid, handler, .reaped⟩) c =
      some child → child.Unreaped → c ≠ channel ∧ k.children c = some child := by
    intro c child hc hu
    by_cases heq : c = channel
    · rw [heq, Function.update_self] at hc
      obtain rfl := Option.some.inj hc
      exact absurd rfl hu
    · rw [Function.update_of_ne heq] at hc
      exact ⟨heq, hc⟩
  refine ⟨?_, ?_, ?_⟩
  · intro c child hc hu
    obtain ⟨hne, hold⟩ := hother c child hc hu
    obtain ⟨hp, j, hj, hsame⟩ := h.known c child hold hu
    refine ⟨hp, j, hj, ?_⟩
    rw [Function.update_of_ne, hsame]
    rintro rfl
    exact hne (h.distinct c channel child _ hold hchild hu hunreaped (hsame.symm.trans hpid))
  · intro j hj
    by_cases hji : j = i
    · rw [hji, Function.update_self] at hj
      exact absurd (show (0 : ℤ) < -1 from hj) (by decide)
    · rw [Function.update_of_ne hji] at hj ⊢
      obtain ⟨session, child, hc, hu, hp⟩ := h.present j hj
      refine ⟨session, child, ?_, hu, hp⟩
      show Function.update k.children channel _ _ = _
      rw [Function.update_of_ne, hc]
      intro heq
      exact hji (Fin.ext ((congrArg Channel.worker heq).trans hworker))
  · intro c d child child' hc hd hu hu' hp
    exact h.distinct c d child child' (hother c child hc hu).2 (hother d child' hd hu').2 hu hu' hp

/-- A worker whose process has been waited for gets a new one. -/
theorem create (h : Tracked ws k) (hi : (ws i).pid ≤ 0) {pid : ℕ} (hnew : k.NewPid pid)
    {handler : Option TaskHandler} {session : ℕ} {w : WorkerProcess} (hw : w.pid = pid)
    (hchildren : k'.children =
      Function.update k.children ⟨i, session⟩ (some ⟨pid, handler, .waiting⟩)) :
    Tracked (Function.update ws i w) k' := by
  have hpos : (0 : ℤ) < pid := by exact_mod_cast hnew.1
  have hcases : ∀ c child, k'.children c = some child → child.Unreaped →
      c = ⟨i, session⟩ ∧ child.pid = pid ∨ c ≠ ⟨i, session⟩ ∧ k.children c = some child := by
    intro c child hc _
    rw [hchildren, Function.update_apply] at hc
    split_ifs at hc with heq
    · obtain rfl := Option.some.inj hc
      exact Or.inl ⟨heq, rfl⟩
    · exact Or.inr ⟨heq, hc⟩
  refine ⟨?_, ?_, ?_⟩
  · intro c child hc hu
    rcases hcases c child hc hu with ⟨rfl, hp⟩ | ⟨-, hold⟩
    · exact ⟨hp ▸ hpos, i, rfl, by rw [Function.update_self, hw, hp]⟩
    · obtain ⟨hp, j, hj, hsame⟩ := h.known c child hold hu
      refine ⟨hp, j, hj, ?_⟩
      rw [Function.update_of_ne, hsame]
      rintro rfl
      omega
  · intro j hj
    by_cases hji : j = i
    · subst hji
      rw [Function.update_self]
      refine ⟨session, ⟨pid, handler, .waiting⟩, ?_, by simp [Child.Unreaped], hw.symm⟩
      rw [hchildren, Function.update_self]
    · rw [Function.update_of_ne hji] at hj ⊢
      obtain ⟨session', child, hc, hu, hp⟩ := h.present j hj
      refine ⟨session', child, ?_, hu, hp⟩
      rw [hchildren, Function.update_of_ne, hc]
      intro heq
      exact hji (Fin.ext (congrArg Channel.worker heq))
  · intro c d child child' hc hd hu hu' hp
    rcases hcases c child hc hu with ⟨rfl, hpc⟩ | ⟨-, hold⟩
    · rcases hcases d child' hd hu' with ⟨rfl, -⟩ | ⟨-, hold'⟩
      · rfl
      · exact absurd (hp.symm.trans hpc) (hnew.2 d child' hold' hu')
    · rcases hcases d child' hd hu' with ⟨rfl, hpd⟩ | ⟨-, hold'⟩
      · exact absurd (hp.trans hpd) (hnew.2 c child hold hu)
      · exact h.distinct c d child child' hold hold' hu hu' hp

/-- A worker without a process stays without one. -/
theorem createFailed (h : Tracked ws k) (hi : (ws i).pid ≤ 0) {w : WorkerProcess}
    (hw : w.pid ≤ 0) (hchildren : k'.children = k.children) :
    Tracked (Function.update ws i w) k' := by
  refine ⟨?_, ?_, ?_⟩
  · intro c child hc hu
    rw [hchildren] at hc
    obtain ⟨hp, j, hj, hsame⟩ := h.known c child hc hu
    refine ⟨hp, j, hj, ?_⟩
    rw [Function.update_of_ne, hsame]
    rintro rfl
    omega
  · intro j hj
    by_cases hji : j = i
    · rw [hji, Function.update_self] at hj
      omega
    · rw [Function.update_of_ne hji] at hj ⊢
      rw [hchildren]
      exact h.present j hj
  · rw [hchildren]
    exact h.distinct

theorem restart (h : Tracked ws k) {outcome : CreateOutcome} (hdead : (ws i).status = .dead)
    (hi : (ws i).pid ≤ 0) (hnew : ∀ pid, outcome.fork = some pid → k.NewPid pid)
    {r : WorkerOutcome} (hr : restartDeadWorker i none outcome (ws i) k = r) :
    Tracked (Function.update ws i r.worker) r.kernel := by
  rw [restartDeadWorker_of_dead hdead] at hr
  have hclosed : (closeRecord i (ws i) k).children = k.children :=
    (closeRecord_fdsOnly i (ws i) k).children
  have hsessions : (closeRecord i (ws i) k).sessions = k.sessions :=
    (closeRecord_fdsOnly i (ws i) k).sessions_eq
  rcases createWorkerProcess_children hr with
    ⟨-, pid, hfork, hpid, hchildren⟩ | ⟨-, hchildren, hpid⟩
  · rw [hclosed, hsessions] at hchildren
    exact h.create hi (hnew pid hfork) hpid hchildren
  · refine h.createFailed hi ?_ (hchildren.trans hclosed)
    rcases hpid with hsame | hnone
    · exact hsame.trans_le hi
    · rw [hnone]
      decide

theorem step {s t : State n} {l : Action n} (h : Tracked s.pool.workers s.kernel)
    (hl : Waited s l) (hstep : s.step l = some t) : Tracked t.pool.workers t.kernel := by
  cases l with
  | submit taskData dataLen =>
      obtain rfl := Option.some.inj hstep
      refine h.of_children_eq (fun _ => ?_) rfl
      rw [State.submitted, processPoolSubmitTask_workers]
  | dispatch killOk writeOk =>
      simp only [State.step] at hstep
      split_ifs at hstep
      obtain rfl := Option.some.inj hstep
      obtain ⟨hsame, hkernel⟩ := dispatchRound_same lasting_pid killOk writeOk s.pool s.kernel
      exact h.of_children_eq hsame hkernel.2
  | receive i readOk =>
      simp only [State.step] at hstep
      split_ifs at hstep
      obtain rfl := Option.some.inj hstep
      obtain ⟨hsame, hkernel⟩ :=
        receiveResultFromWorker_same lasting_pid s.kernel (s.pool.workers i) readOk
      exact h.of_children_eq (Same.update _ hsame) hkernel.2
  | reap channel =>
      obtain ⟨r, hwait, rfl⟩ := Option.map_eq_some_iff.mp hstep
      exact h.reap hwait
  | restart i outcome =>
      simp only [State.step] at hstep
      split_ifs at hstep with hdead
      obtain rfl := Option.some.inj hstep
      exact h.restart hdead hl.1 hl.2 rfl
  | childRead channel =>
      obtain ⟨k, hk, rfl⟩ := Option.map_eq_some_iff.mp hstep
      simp only [Kernel.childRead] at hk
      split at hk
      · next hchild _ =>
          obtain rfl := Option.some.inj hk
          exact h.of_child hchild rfl rfl (by simp [Child.Unreaped]) (by simp [Child.Unreaped])
      · cases hk
  | childWrite channel =>
      obtain ⟨k, hk, rfl⟩ := Option.map_eq_some_iff.mp hstep
      simp only [Kernel.childWrite] at hk
      split at hk
      · next hchild =>
          obtain rfl := Option.some.inj hk
          exact h.of_child hchild rfl rfl (by simp [Child.Unreaped]) (by simp [Child.Unreaped])
      · cases hk
  | childExit channel =>
      obtain ⟨k, hk, rfl⟩ := Option.map_eq_some_iff.mp hstep
      simp only [Kernel.childExit] at hk
      split at hk
      · next hchild =>
          obtain rfl := Option.some.inj hk
          exact h.of_child hchild rfl rfl (by simp [Child.Unreaped]) (by simp [Child.Unreaped])
      · next hchild =>
          obtain rfl := Option.some.inj hk
          exact h.of_child hchild rfl rfl (by simp [Child.Unreaped]) (by simp [Child.Unreaped])
      · cases hk
  | _ =>
      obtain rfl := Option.some.inj hstep
      exact h.of_children_eq (fun _ => rfl) rfl

end Tracked

/-! ## Terminating -/

section

variable {n : ℕ} {ws : Fin n → WorkerProcess} {k : Kernel}

theorem terminateWorkerProcess_children (i : ℕ) (w : WorkerProcess) (k : Kernel) :
    (terminateWorkerProcess i w k).2.children =
      if 0 < w.pid then (k.killAndWait w.pid).children else k.children := by
  simp only [terminateWorkerProcess]
  rw [(Kernel.FdsOnly.closePipePair _ _ _).children, (Kernel.FdsOnly.closePipePair _ _ _).children]
  split_ifs <;> rfl

/-- Every process is one of those that the given workers have in their records. -/
def LeftTo (ws : Fin n → WorkerProcess) (is : List (Fin n)) (k : Kernel) : Prop :=
  ∀ channel child, k.children channel = some child → child.Unreaped →
    ∃ i ∈ is, 0 < (ws i).pid ∧ (ws i).pid = child.pid

/-- All worker processes have been waited for. -/
def Kernel.AllReaped (k : Kernel) : Prop :=
  ∀ channel child, k.children channel = some child → child.phase = .reaped

/-- When the workers are terminated their processes have been waited for. -/
theorem LeftTo.terminated {is : List (Fin n)} (h : LeftTo ws is k) :
    (PipePool.terminated ws is k).AllReaped := by
  induction is generalizing k with
  | nil =>
      intro channel child hchild
      by_contra hunreaped
      obtain ⟨i, hi, -⟩ := h channel child hchild hunreaped
      exact absurd hi List.not_mem_nil
  | cons i is ih =>
      refine ih fun channel child' hchild' hunreaped' => ?_
      rw [terminateWorkerProcess_children] at hchild'
      -- The process is one that was there before, and not the one just terminated.
      have hold : ∃ child, k.children channel = some child ∧ child.Unreaped ∧
          child.pid = child'.pid ∧ (0 < (ws i).pid → child.pid ≠ (ws i).pid) := by
        split_ifs at hchild' with hpos
        · obtain ⟨child, hchild, heq⟩ := Option.map_eq_some_iff.mp hchild'
          split_ifs at heq with hpid
          · subst heq
            exact absurd rfl hunreaped'
          · subst heq
            exact ⟨child, hchild, hunreaped', rfl, fun _ => hpid⟩
        · exact ⟨child', hchild', hunreaped', rfl, fun hpos' => absurd hpos' hpos⟩
      obtain ⟨child, hchild, hunreaped, hpid, hne⟩ := hold
      obtain ⟨j, hj, hpos, hsame⟩ := h channel child hchild hunreaped
      refine ⟨j, (List.mem_cons.mp hj).resolve_left ?_, hpos, hsame.trans hpid⟩
      rintro rfl
      exact hne hpos hsame.symm

theorem Tracked.leftTo (h : Tracked ws k) : LeftTo ws (List.finRange n) k := by
  intro channel child hchild hunreaped
  obtain ⟨hpos, i, -, hpid⟩ := h.known channel child hchild hunreaped
  exact ⟨i, List.mem_finRange i, hpid ▸ hpos, hpid⟩

/-- The pids that `fork` returns while the pool is created. -/
structure DistinctPids (outcomes : Fin n → CreateOutcome) : Prop where
  pos : ∀ i pid, (outcomes i).fork = some pid → 0 < pid
  unique : ∀ i j pid, (outcomes i).fork = some pid → (outcomes j).fork = some pid → i = j

/-- The records of the workers created so far, and of those to come, during the creation. -/
structure Creating (outcomes : Fin n → CreateOutcome) (done : List (Fin n))
    (ws : Fin n → WorkerProcess) (k : Kernel) : Prop where
  tracked : Tracked ws k
  pending : ∀ i, i ∉ done → (ws i).pid = 0
  forked : ∀ i, 0 < (ws i).pid → ∃ pid : ℕ, (outcomes i).fork = some pid ∧ (ws i).pid = pid

theorem Creating.leftTo {outcomes : Fin n → CreateOutcome} {done : List (Fin n)}
    (h : Creating outcomes done ws k) : LeftTo ws done k := by
  intro channel child hchild hunreaped
  obtain ⟨i, -, hpos, hpid⟩ := h.tracked.leftTo channel child hchild hunreaped
  refine ⟨i, ?_, hpos, hpid⟩
  by_contra hi
  rw [h.pending i hi] at hpos
  exact absurd hpos (lt_irrefl 0)

theorem Creating.newPid {outcomes : Fin n → CreateOutcome} {done : List (Fin n)}
    (h : Creating outcomes done ws k) (hpids : DistinctPids outcomes) {i : Fin n} (hi : i ∉ done)
    {pid : ℕ} (hfork : (outcomes i).fork = some pid) : k.NewPid pid := by
  refine ⟨hpids.pos i pid hfork, fun channel child hchild hunreaped heq => ?_⟩
  obtain ⟨hpos, j, -, hpid⟩ := h.tracked.known channel child hchild hunreaped
  obtain ⟨pid', hfork', hpid'⟩ := h.forked j (hpid ▸ hpos)
  have hsame : pid' = pid := by
    rw [heq] at hpid
    exact_mod_cast hpid'.symm.trans hpid
  rw [hpids.unique j i pid (hsame ▸ hfork') hfork, h.pending i hi] at hpid
  omega

/-- The creation loop keeps track of the processes, and waits for them when it fails. -/
theorem Creating.createAmong {handler : Option TaskHandler} {outcomes : Fin n → CreateOutcome}
    (hpids : DistinctPids outcomes) (is done : List (Fin n)) (hnodup : (done ++ is).Nodup)
    (h : Creating outcomes done ws k) {r : Option (Fin n → WorkerProcess) × Kernel}
    (hr : PipePool.createAmong handler outcomes done is ws k = r) :
    (∀ ws', r.1 = some ws' → Tracked ws' r.2) ∧ (r.1 = none → r.2.AllReaped) := by
  induction is generalizing done ws k with
  | nil =>
      subst hr
      refine ⟨fun ws' heq => ?_, fun heq => (by cases heq)⟩
      obtain rfl := Option.some.inj heq
      exact h.tracked
  | cons i is ih =>
      have hi : i ∉ done := fun hi =>
        (List.nodup_append.mp hnodup).2.2 i hi i List.mem_cons_self rfl
      have hzero : (ws i).pid ≤ 0 := (h.pending i hi).le
      simp only [PipePool.createAmong] at hr
      generalize hcreate : createWorkerProcess i handler (outcomes i) (ws i) k = c at hr
      rcases createWorkerProcess_children hcreate with
        ⟨hok, pid, hfork, hpid, hchildren⟩ | ⟨hok, hchildren, hpid⟩
      · rw [if_pos hok] at hr
        refine ih (done ++ [i]) (by simpa using hnodup) ⟨?_, ?_, ?_⟩ hr
        · exact h.tracked.create hzero (h.newPid hpids hi hfork) hpid hchildren
        · intro j hj
          rw [List.mem_append, List.mem_singleton, not_or] at hj
          rw [Function.update_of_ne hj.2]
          exact h.pending j hj.1
        · intro j hj
          by_cases hji : j = i
          · subst hji
            rw [Function.update_self]
            exact ⟨pid, hfork, hpid⟩
          · rw [Function.update_of_ne hji] at hj ⊢
            exact h.forked j hj
      · rw [if_neg (by rw [hok]; decide)] at hr
        subst hr
        refine ⟨fun _ heq => (by cases heq), fun _ => ?_⟩
        have hleft : LeftTo ws done c.kernel := by
          intro channel child hchild hunreaped
          exact h.leftTo channel child (hchildren ▸ hchild) hunreaped
        exact hleft.terminated

end

theorem reapDeadChildren_allReaped {n : ℕ} {channels : List Channel} {pool : ProcessPool n}
    {k : Kernel} (hk : k.AllReaped) {r : ProcessPool n × Kernel}
    (hr : reapDeadChildren channels pool k = some r) : r.2.AllReaped := by
  cases channels with
  | nil =>
      obtain rfl := Option.some.inj hr
      exact hk
  | cons channel channels =>
      rw [reapDeadChildren, Option.bind_eq_some_iff] at hr
      obtain ⟨w, hwait, -⟩ := hr
      simp only [Kernel.waitChild] at hwait
      split at hwait
      · next hchild => exact absurd (hk channel _ hchild) (by simp)
      · cases hwait

/-- As long as the system does not hand out the pid of a process that is still there, and
workers are restarted only after their processes have been waited for, a
`process_pool_create` that fails and `process_pool_destroy` after any such run leave no
worker process, not even one to be waited for. -/
theorem processes_waited_for {n : ℕ} {handler : Option TaskHandler} {mallocOk signalsOk : Bool}
    {outcomes : Fin n → CreateOutcome} (hpids : DistinctPids outcomes) {opened : List Bool}
    {r : Option (ProcessPool n) × Kernel}
    (hr : processPoolCreate n handler mallocOk signalsOk outcomes (Kernel.start opened) = r) :
    (r.1 = none → r.2.AllReaped) ∧
      ∀ pool ls t channels destroyed, r.1 = some pool →
        Transition.Run ((processPool n).restrict Waited) ⟨pool, r.2, [], []⟩ ls t →
          processPoolDestroy channels t.pool t.kernel = some destroyed →
            destroyed.2.AllReaped := by
  have hstart : Creating outcomes [] (fun _ => .zero) (Kernel.start opened) := by
    have hnone : ∀ channel child, (Kernel.start opened).children channel ≠ some child := by
      simp [Kernel.start]
    refine ⟨⟨fun channel child hchild => absurd hchild (hnone channel child), ?_, ?_⟩,
      fun _ _ => rfl, ?_⟩
    · intro i hi
      exact absurd hi (lt_irrefl 0)
    · intro channel _ child _ hchild
      exact absurd hchild (hnone channel child)
    · intro i hi
      exact absurd hi (lt_irrefl 0)
  have hcreate : createAmong handler outcomes [] (List.finRange n) (fun _ => .zero)
      (Kernel.start opened) = _ := rfl
  obtain ⟨hcreated, hfailed⟩ := hstart.createAmong hpids (List.finRange n) []
    (List.nodup_finRange n) hcreate
  constructor
  · intro hnone
    simp only [processPoolCreate] at hr
    have hstarted : (Kernel.start opened).AllReaped := by simp [Kernel.AllReaped, Kernel.start]
    split_ifs at hr <;> subst hr
    · exact hstarted
    · exact hstarted
    · exact hstarted
    · exact hfailed (Option.map_eq_none_iff.mp hnone)
  · rintro pool ls t channels destroyed hpool hrun hdestroy
    obtain ⟨ws, hws, rfl⟩ := processPoolCreate_cases (hr.trans (Prod.ext hpool rfl))
    have htracked := hcreated ws (congrArg Prod.fst hws)
    rw [congrArg Prod.snd hws] at htracked
    have ht : Tracked t.pool.workers t.kernel :=
      hrun.preserves (I := fun s => Tracked s.pool.workers s.kernel)
        (fun _ _ _ h hstep => h.step hstep.1 hstep.2) htracked
    refine reapDeadChildren_allReaped ?_ hdestroy
    rw [terminateAmong_kernel (List.nodup_finRange n) (fun _ _ => rfl)]
    exact ht.leftTo.terminated

/-- A worker process dies and is replaced, and its successor is busy when the pool is
destroyed. -/
theorem processes_waited_for_one : ∃ (k : Kernel) (pool : ProcessPool 1) (t : State 1)
    (destroyed : ProcessPool 1 × Kernel),
    processPoolCreate 1 none true true (fun _ => ⟨.created, .created, some 7⟩)
        (.start [true, true, true]) = (some pool, k) ∧
      Transition.Run ((processPool 1).restrict Waited) ⟨pool, k, [], []⟩
        [.childExit ⟨0, 0⟩, .reap ⟨0, 0⟩, .restart 0 ⟨.created, .created, some 8⟩,
          .submit (some [97]) 1, .dispatch (fun _ => true) true, .childRead ⟨0, 1⟩] t ∧
      processPoolDestroy [] t.pool t.kernel = some destroyed ∧ destroyed.2.AllReaped := by
  have hrun : ∃ (k : Kernel) (pool : ProcessPool 1) (t : State 1)
      (destroyed : ProcessPool 1 × Kernel),
      processPoolCreate 1 none true true (fun _ => ⟨.created, .created, some 7⟩)
          (.start [true, true, true]) = (some pool, k) ∧
        Transition.Run ((processPool 1).restrict Waited) ⟨pool, k, [], []⟩
          [.childExit ⟨0, 0⟩, .reap ⟨0, 0⟩, .restart 0 ⟨.created, .created, some 8⟩,
            .submit (some [97]) 1, .dispatch (fun _ => true) true, .childRead ⟨0, 1⟩] t ∧
        processPoolDestroy [] t.pool t.kernel = some destroyed := by
    refine ⟨_, _, _, _, rfl, .cons ⟨trivial, rfl⟩ (.cons ⟨trivial, rfl⟩ (.cons ⟨?_, rfl⟩
      (.cons ⟨trivial, rfl⟩ (.cons ⟨trivial, rfl⟩ (.cons ⟨trivial, rfl⟩ (.nil _)))))), rfl⟩
    refine ⟨by decide, fun pid hfork => ?_⟩
    obtain rfl := Option.some.inj hfork
    refine ⟨by decide, fun channel child hchild hunreaped => ?_⟩
    by_cases hchannel : channel = ⟨0, 0⟩
    · subst hchannel
      obtain rfl := Option.some.inj hchild
      exact absurd rfl hunreaped
    · change Function.update (Function.update (Function.update (fun _ => none) ⟨0, 0⟩ _)
        ⟨0, 0⟩ _) ⟨0, 0⟩ _ channel = some child at hchild
      rw [Function.update_of_ne hchannel, Function.update_of_ne hchannel,
        Function.update_of_ne hchannel] at hchild
      cases hchild
  obtain ⟨k, pool, t, destroyed, hcreate, ht, hdestroy⟩ := hrun
  have hpids : DistinctPids fun _ : Fin 1 => ⟨.created, .created, some 7⟩ :=
    ⟨fun _ _ h => Option.some.inj h ▸ by decide, fun _ _ _ _ _ => Subsingleton.elim _ _⟩
  exact ⟨k, pool, t, destroyed, hcreate, ht, hdestroy,
    (processes_waited_for hpids hcreate).2 pool _ t [] destroyed rfl ht hdestroy⟩

/-- A worker whose empty pipe has been read is replaced while its process is waiting for a
task: the process outlives the pool. -/
example : ∃ (k : Kernel) (pool : ProcessPool 1) (t : State 1)
    (destroyed : ProcessPool 1 × Kernel),
    processPoolCreate 1 none true true (fun _ => ⟨.created, .created, some 7⟩)
        (.start [true, true, true]) = (some pool, k) ∧
      Transition.Run (processPool 1) ⟨pool, k, [], []⟩
        [.setRunning true, .receive 0 true, .restart 0 ⟨.created, .created, some 8⟩] t ∧
      processPoolDestroy [] t.pool t.kernel = some destroyed ∧
      destroyed.2.children ⟨0, 0⟩ = some ⟨7, none, .waiting⟩ :=
  ⟨_, _, _, _, rfl, .cons rfl (.cons rfl (.cons rfl (.nil _))), rfl, rfl⟩

end PipePool

end ProcessThreadPool
