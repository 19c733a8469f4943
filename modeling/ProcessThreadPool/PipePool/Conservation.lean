import ProcessThreadPool.PipePool.Master
import ProcessThreadPool.PipePool.Messages
import ProcessThreadPool.PipePool.Queue
import ProcessThreadPool.Lib.ThreadFamily

/-!
# No accepted task is lost

A task id that `process_pool_submit_task` returned is in the task queue, outstanding
at one worker, or returned by `process_pool_get_result`. Every step of the master
moves a task from one place to the next, a failed send puts it back into the queue,
and a worker found dead keeps it in its record. The one step that forgets a task is
the successful restart of a worker whose record still has one: the record is filled
anew and the task is not put back.
-/

namespace ProcessThreadPool

namespace PipePool

open ThreadFamily

/-- Every accepted id is in exactly one place: the task queue, the record of one
worker, or the returned results. -/
def Conserved {n : ℕ} (s : State n) : Prop :=
  ∀ id ∈ s.accepted,
    s.pool.taskQueue.ids.count id +
      (total WorkerProcess.outstanding s.pool.workers).count id + s.returned.count id = 1

/-- `next_task_id` does not overflow, and a restart closes no number under which
another worker's pipe end is open. -/
def Sound {n : ℕ} (s : State n) : Action n → Prop
  | .submit taskData dataLen =>
      taskData.isSome = true → 0 < dataLen → dataLen < maxTaskData →
        s.pool.taskQueue.count < maxTaskQueue → s.pool.nextTaskId ≠ 2 ^ 31 - 1
  | .restart i _ => (s.pool.workers i).Apart i s.kernel
  | _ => True

/-- Creating the worker process anew succeeds. -/
def CreateOutcome.Succeeds (outcome : CreateOutcome) : Prop :=
  outcome.toWorker = .created ∧ outcome.fromWorker = .created ∧ outcome.fork.isSome = true

/-- A worker whose record has an outstanding task is not restarted successfully. -/
def KeepsOutstanding {n : ℕ} (s : State n) : Action n → Prop
  | .restart i outcome => outcome.Succeeds → (s.pool.workers i).currentTaskId = -1
  | _ => True

/-- The places of the accepted ids, and what keeps the messages of each worker in
step with its record. -/
structure Ledger {n : ℕ} (s : State n) : Prop where
  queue : ∃ l, s.pool.taskQueue.Holds l
  sum : (s.pool.taskQueue.ids : Multiset ℤ) +
    total WorkerProcess.outstanding s.pool.workers + (s.returned : Multiset ℤ) = s.accepted
  nodup : s.accepted.Nodup
  ids : ∀ id ∈ s.accepted, 0 < id ∧ id < s.pool.nextTaskId
  next : 0 < s.pool.nextTaskId ∧ s.pool.nextTaskId ≤ 2 ^ 31 - 1
  workers : ∀ i : Fin n, WorkerInv i s.kernel (s.pool.workers i)
  fresh : s.kernel.Fresh

theorem increment_eq {x : ℤ} (hpos : 0 < x) (hlt : x < 2 ^ 31 - 1) : increment x = x + 1 := by
  rw [increment, Int.bmod_def]
  omega

/-! ## Records that are only marked -/

/-- Some workers are marked dead; every record keeps its task. -/
def Marked {n : ℕ} (ws ws' : Fin n → WorkerProcess) : Prop :=
  ∀ j, ws' j = ws j ∨
    (ws' j).status = .dead ∧ (ws' j).currentTaskId = (ws j).currentTaskId

namespace Marked

variable {n : ℕ} {ws ws' ws'' : Fin n → WorkerProcess}

theorem refl (ws : Fin n → WorkerProcess) : Marked ws ws := fun _ => Or.inl rfl

theorem trans (h : Marked ws ws') (h' : Marked ws' ws'') : Marked ws ws'' := by
  intro j
  rcases h' j with heq | ⟨hdead, htask⟩
  · rw [heq]
    exact h j
  · refine Or.inr ⟨hdead, ?_⟩
    rcases h j with heq | ⟨-, htask'⟩
    · rw [htask, heq]
    · rw [htask, htask']

theorem update (ws : Fin n → WorkerProcess) {i : Fin n} {w : WorkerProcess}
    (h : w = ws i ∨ w.status = .dead ∧ w.currentTaskId = (ws i).currentTaskId) :
    Marked ws (Function.update ws i w) := by
  intro j
  by_cases hj : j = i
  · subst hj
    rw [Function.update_self]
    exact h
  · exact Or.inl (Function.update_of_ne hj _ _)

theorem workers (h : Marked ws ws') {k : Kernel} (hws : ∀ i : Fin n, WorkerInv i k (ws i))
    (i : Fin n) : WorkerInv i k (ws' i) := by
  rcases h i with heq | ⟨hdead, -⟩
  · rw [heq]
    exact hws i
  · exact WorkerInv.of_dead hdead

theorem total_eq (h : Marked ws ws') :
    total WorkerProcess.outstanding ws' = total WorkerProcess.outstanding ws := by
  refine total_congr fun i => ?_
  rcases h i with heq | ⟨-, htask⟩
  · rw [heq]
  · rw [WorkerProcess.outstanding, WorkerProcess.outstanding, htask]

theorem markReaped (pid : ℤ) (is : List (Fin n)) (ws : Fin n → WorkerProcess) :
    Marked ws (PipePool.markReaped pid is ws) := by
  induction is with
  | nil => exact refl ws
  | cons i is ih =>
      rw [PipePool.markReaped]
      split_ifs
      · exact update ws (Or.inr ⟨rfl, rfl⟩)
      · exact ih

end Marked

theorem isWorkerAlive_cases (killOk : Bool) (w : WorkerProcess) :
    (isWorkerAlive killOk w).2 = w ∨ (isWorkerAlive killOk w).1 = false ∧
      (isWorkerAlive killOk w).2 = { w with status := .dead } := by
  rw [isWorkerAlive]
  split_ifs
  · exact Or.inl rfl
  · exact Or.inl rfl
  · exact Or.inr ⟨rfl, rfl⟩

/-- The search marks dead workers on its way, and finds an idle one. -/
theorem findIdleAmong_spec {n : ℕ} (killOk : Fin n → Bool) (is : List (Fin n))
    (ws : Fin n → WorkerProcess) {r : Option (Fin n) × (Fin n → WorkerProcess)}
    (hr : findIdleAmong killOk is ws = r) :
    Marked ws r.2 ∧ ∀ i, r.1 = some i → (r.2 i).status = .idle := by
  induction is generalizing ws with
  | nil =>
      subst hr
      exact ⟨Marked.refl ws, nofun⟩
  | cons i is ih =>
      simp only [findIdleAmong] at hr
      split_ifs at hr with hidle halive
      · subst hr
        rcases isWorkerAlive_cases (killOk i) (ws i) with hsame | ⟨hdead, -⟩
        · refine ⟨Marked.update ws (Or.inl hsame), fun j hj => ?_⟩
          obtain rfl := Option.some.inj hj
          simp only [Function.update_self, hsame, hidle]
        · rw [hdead] at halive
          cases halive
      · obtain ⟨hmarked, hfound⟩ := ih _ hr
        refine ⟨Marked.trans (Marked.update ws ?_) hmarked, hfound⟩
        rcases isWorkerAlive_cases (killOk i) (ws i) with hsame | ⟨-, hdead⟩
        · exact Or.inl hsame
        · rw [hdead]
          exact Or.inr ⟨rfl, rfl⟩
      · exact ih ws hr

/-! ## One step -/

/-- One worker's record is replaced, and the others are not disturbed. -/
theorem workerInv_update {n : ℕ} {ws : Fin n → WorkerProcess} {k k' : Kernel} {i : Fin n}
    {w : WorkerProcess} (hws : ∀ j : Fin n, WorkerInv j k (ws j)) (hself : WorkerInv i k' w)
    (hother : ∀ j : Fin n, j ≠ i → Kernel.Quiet j k k') (j : Fin n) :
    WorkerInv j k' (Function.update ws i w j) := by
  by_cases hj : j = i
  · subst hj
    rw [Function.update_self]
    exact hself
  · rw [Function.update_of_ne hj]
    exact (hws j).quiet (hother j hj)

theorem processPoolSubmitTask_cases {n : ℕ} {pool : ProcessPool n} {l : List Task}
    (hqueue : pool.taskQueue.Holds l) (taskData : Option (List UInt8)) (dataLen : ℤ) :
    processPoolSubmitTask pool taskData dataLen = (-1, pool) ∨
      ∃ task q, task.taskId = pool.nextTaskId ∧ q.Holds (l ++ [task]) ∧
        (taskData.isSome = true ∧ 0 < dataLen ∧ dataLen < maxTaskData ∧
          pool.taskQueue.count < maxTaskQueue) ∧
        processPoolSubmitTask pool taskData dataLen = (task.taskId,
          { pool with nextTaskId := increment pool.nextTaskId, taskQueue := q }) := by
  cases taskData with
  | none => exact Or.inl rfl
  | some bytes =>
      simp only [processPoolSubmitTask]
      split_ifs with hlen hfull hstored
      · exact Or.inl rfl
      · exact Or.inl rfl
      · rw [(hqueue.enqueue (by omega) _).1] at hstored
        cases hstored
      · exact Or.inr ⟨⟨pool.nextTaskId, bytes.take dataLen.toNat ++ [0], dataLen⟩, _, rfl,
          (hqueue.enqueue (by omega) _).2, ⟨rfl, by omega, by omega, by omega⟩, rfl⟩

/-- A round of `dispatch_tasks` finds no idle worker, or takes the oldest task and
sends it, or puts it back at the end. -/
theorem dispatchRound_cases {n : ℕ} {pool : ProcessPool n} {k : Kernel} {l : List Task}
    (hqueue : pool.taskQueue.Holds l) (hcount : 0 < pool.taskQueue.count)
    (killOk : Fin n → Bool) (writeOk : Bool) {r : Bool × ProcessPool n × Kernel}
    (hr : dispatchRound killOk writeOk pool k = r) :
    ∃ ws, Marked pool.workers ws ∧
      (r.2 = ({ pool with workers := ws }, k) ∨
        ∃ i task l' w k' q, (ws i).status = .idle ∧ l = task :: l' ∧
          (sendTaskToWorker k (ws i) task writeOk = ⟨false, w, k'⟩ ∧ q.Holds (l' ++ [task]) ∧
              r.2 = ({ pool with
                workers := Function.update ws i { w with status := .dead }
                taskQueue := q }, k') ∨
            sendTaskToWorker k (ws i) task writeOk = ⟨true, w, k'⟩ ∧ q.Holds l' ∧
              r.2 = ({ pool with
                workers := Function.update ws i w
                taskQueue := q }, k'))) := by
  have hle := hqueue.count_le
  obtain ⟨task, l', hl, htask, hrest⟩ := hqueue.dequeue (by omega)
  have hroom : (dequeueTask pool.taskQueue).2.count < maxTaskQueue := by
    have hold := hqueue.count_eq
    rw [hl, List.length_cons] at hold
    have hnew := hrest.count_eq
    omega
  simp only [dispatchRound, findIdleWorker] at hr
  obtain ⟨hmarked, hidle⟩ := findIdleAmong_spec killOk (List.finRange n) pool.workers rfl
  refine ⟨_, hmarked, ?_⟩
  cases hfound : (findIdleAmong killOk (List.finRange n) pool.workers).1 with
  | none =>
      simp only [hfound] at hr
      subst hr
      exact Or.inl rfl
  | some i =>
      simp only [hfound, htask] at hr
      refine Or.inr ⟨i, task, l', ?_⟩
      split at hr
      · next w k' hsent =>
          subst hr
          exact ⟨w, k', _, hidle i hfound, hl,
            Or.inl ⟨hsent, (hrest.enqueue hroom task).2, rfl⟩⟩
      · next w k' hsent =>
          subst hr
          exact ⟨w, k', _, hidle i hfound, hl, Or.inr ⟨hsent, hrest, rfl⟩⟩

namespace Ledger

variable {n : ℕ} {s t : State n}

theorem conserved (h : Ledger s) : Conserved s := by
  intro id hid
  have hcount := congrArg (Multiset.count id) h.sum
  rw [Multiset.count_add, Multiset.count_add, Multiset.coe_count, Multiset.coe_count,
    Multiset.coe_count, List.count_eq_one_of_mem h.nodup hid] at hcount
  exact hcount

/-- Descriptors and messages may change as long as every worker keeps what it has. -/
theorem kernel (h : Ledger s) {k : Kernel} (hquiet : ∀ i : Fin n, Kernel.Quiet i s.kernel k)
    (hfresh : k.Fresh) : Ledger { s with kernel := k } :=
  ⟨h.queue, h.sum, h.nodup, h.ids, h.next, fun i => (h.workers i).quiet (hquiet i), hfresh⟩

theorem handsOn (h : Ledger s) {k : Kernel} (hk : s.kernel.HandsOn k) :
    Ledger { s with kernel := k } :=
  h.kernel (fun i => hk.quiet i) (hk.fresh h.fresh)

theorem marked (h : Ledger s) {ws : Fin n → WorkerProcess} (hws : Marked s.pool.workers ws) :
    Ledger { s with pool := { s.pool with workers := ws } } :=
  ⟨h.queue, by rw [← h.sum, ← hws.total_eq], h.nodup, h.ids, h.next, hws.workers h.workers,
    h.fresh⟩

theorem submit (h : Ledger s) {taskData : Option (List UInt8)} {dataLen : ℤ}
    (hsound : Sound s (.submit taskData dataLen)) :
    Ledger (s.submitted (processPoolSubmitTask s.pool taskData dataLen)) := by
  obtain ⟨l, hl⟩ := h.queue
  rcases processPoolSubmitTask_cases hl taskData dataLen with
    heq | ⟨task, q, hid, hq, hvalid, heq⟩
  · rw [heq]
    exact h
  · obtain ⟨hpos, hle⟩ := h.next
    have hne : s.pool.nextTaskId ≠ 2 ^ 31 - 1 :=
      hsound hvalid.1 hvalid.2.1 hvalid.2.2.1 hvalid.2.2.2
    have hnext : increment s.pool.nextTaskId = s.pool.nextTaskId + 1 :=
      increment_eq hpos (by omega)
    rw [heq, State.submitted, hid, hnext, if_neg (by omega)]
    refine ⟨⟨_, hq⟩, ?_, ?_, ?_, ⟨by simp only; omega, by simp only; omega⟩, h.workers, h.fresh⟩
    · have hsum := h.sum
      rw [hl.ids_eq] at hsum
      simp only [hq.ids_eq, List.map_append, List.map_cons, List.map_nil, hid,
        ← Multiset.coe_add]
      rw [← hsum, Multiset.coe_singleton, add_right_comm (_ : Multiset ℤ) {_},
        add_right_comm (_ : Multiset ℤ) {_}]
    · refine List.nodup_append.mpr ⟨h.nodup, List.nodup_singleton _, fun a ha b hb => ?_⟩
      rw [List.mem_singleton] at hb
      have hlt := (h.ids a ha).2
      omega
    · intro id hmem
      rw [List.mem_append, List.mem_singleton] at hmem
      rcases hmem with hmem | rfl
      · have hold := h.ids id hmem
        simp only
        omega
      · simp only
        omega

/-- A queued id was accepted, so it is positive. -/
theorem id_pos (h : Ledger s) {id : ℤ} (hid : id ∈ s.pool.taskQueue.ids) : 0 < id := by
  have hmem : id ∈ (s.accepted : Multiset ℤ) := by
    rw [← h.sum, Multiset.mem_add, Multiset.mem_add]
    exact Or.inl (Or.inl hid)
  exact (h.ids id hmem).1

theorem dispatch (h : Ledger s) (hcount : 0 < s.pool.taskQueue.count) (killOk : Fin n → Bool)
    (writeOk : Bool) : Ledger (s.put (dispatchRound killOk writeOk s.pool s.kernel).2) := by
  obtain ⟨l, hl⟩ := h.queue
  obtain ⟨ws, hmarked, hnone | ⟨i, task, l', w, k', q, hidle, rfl, hcases⟩⟩ :=
    dispatchRound_cases hl hcount killOk writeOk (k := s.kernel) rfl
  · rw [hnone]
    exact h.marked hmarked
  have hworkers := hmarked.workers h.workers
  have hid : 0 < task.taskId := h.id_pos (by rw [hl.ids_eq]; exact List.mem_cons_self)
  have hsum := h.sum
  rw [hl.ids_eq, List.map_cons, ← Multiset.cons_coe, ← hmarked.total_eq] at hsum
  rcases hcases with ⟨hsent, hq, hr⟩ | ⟨hsent, hq, hr⟩
  · rcases sendTaskToWorker_cases (hworkers i) hidle (by omega) hsent with
      ⟨-, rfl, rfl⟩ | ⟨hfalse, -⟩
    · have hdead : Marked ws (Function.update ws i { ws i with status := .dead }) :=
        Marked.update ws (Or.inr ⟨rfl, rfl⟩)
      rw [hr]
      refine ⟨⟨_, hq⟩, ?_, h.nodup, h.ids, h.next, hdead.workers hworkers, h.fresh⟩
      simp only [State.put, hq.ids_eq, List.map_append, List.map_cons, List.map_nil,
        hdead.total_eq]
      rw [← hsum, ← Multiset.coe_add, Multiset.coe_singleton, add_comm _ ({_} : Multiset ℤ),
        Multiset.singleton_add]
    · cases hfalse
  · rcases sendTaskToWorker_cases (hworkers i) hidle (by omega) hsent with
      ⟨hfalse, -⟩ | ⟨-, hself, hcurrent, hfresh, hquiet⟩
    · cases hfalse
    · have hold : (ws i).outstanding = 0 := outstanding_eq_zero ((hworkers i).idle hidle)
      have hnew : w.outstanding = {task.taskId} := by
        rw [outstanding_eq_singleton (by rw [hcurrent]; omega), hcurrent]
      have htotal := total_update_of_zero WorkerProcess.outstanding ws w hold
      rw [hnew] at htotal
      rw [hr]
      refine ⟨⟨_, hq⟩, ?_, h.nodup, h.ids, h.next, workerInv_update hworkers hself
        fun j hj => hquiet j fun heq => hj (Fin.ext heq), hfresh h.fresh⟩
      simp only [State.put, hq.ids_eq, htotal]
      rw [← hsum, ← add_assoc, add_comm _ ({_} : Multiset ℤ), Multiset.singleton_add,
        Multiset.cons_add, Multiset.cons_add, Multiset.cons_add]

theorem receive (h : Ledger s) (i : Fin n) (readOk : Bool)
    (hwatched : (s.pool.workers i).watched = true) :
    Ledger (s.received (receiveRound i readOk s.pool s.kernel)) := by
  have hne : (s.pool.workers i).status ≠ .dead := by
    rw [WorkerProcess.watched, Bool.and_eq_true] at hwatched
    exact of_decide_eq_true hwatched.1
  rcases receiveResultFromWorker_cases (h.workers i) hne readOk rfl with
    ⟨hnone, hworker, hkernel⟩ | ⟨result, hresult, hcurrent, hid, hclear, hself, hhands⟩
  · have hmarked : Marked s.pool.workers (Function.update s.pool.workers i
        (receiveResultFromWorker s.kernel (s.pool.workers i) readOk).2.1) := by
      refine Marked.update _ (hworker.imp_right fun hdead => ?_)
      rw [hdead]
      exact ⟨rfl, rfl⟩
    simp only [State.received, State.put, receiveRound, hnone, hkernel, Option.map_none,
      Option.toList_none, List.append_nil]
    exact h.marked hmarked
  · have hold : (s.pool.workers i).outstanding = {result.taskId} := by
      rw [outstanding_eq_singleton (by rw [hcurrent]; exact hid), hcurrent]
    have htotal := total_update_to_zero WorkerProcess.outstanding s.pool.workers i
      (outstanding_eq_zero hclear)
    rw [hold] at htotal
    refine ⟨h.queue, ?_, h.nodup, h.ids, h.next,
      workerInv_update h.workers hself fun j _ => hhands.quiet j, hhands.fresh h.fresh⟩
    simp only [State.received, State.put, receiveRound, hresult, Option.map_some,
      Option.toList_some]
    rw [← h.sum, ← htotal, ← Multiset.coe_add, Multiset.coe_singleton, add_assoc, add_assoc,
      add_assoc, add_comm (s.returned : Multiset ℤ)]

/-- A restart of a dead worker either fails and leaves its task in the record, or
succeeds and forgets it. -/
theorem restartRound_cases (h : Ledger s) {i : Fin n} (outcome : CreateOutcome)
    (hdead : (s.pool.workers i).status = .dead)
    (hapart : (s.pool.workers i).Apart i s.kernel) :
    ∃ w k, restartRound i outcome s.pool s.kernel =
        ({ s.pool with workers := Function.update s.pool.workers i w }, k) ∧
      (∀ j : Fin n, WorkerInv j k (Function.update s.pool.workers i w j)) ∧ k.Fresh ∧
      (¬ outcome.Succeeds ∧ w.currentTaskId = (s.pool.workers i).currentTaskId ∨
        outcome.Succeeds ∧ w.currentTaskId = -1) := by
  rw [restartRound, restartDeadWorker_of_dead hdead]
  generalize hr : createWorkerProcess i none outcome _ (closeRecord i (s.pool.workers i)
    s.kernel) = r
  have hok := createWorkerProcess_ok hr
  have hclosed := closeRecord_fdsOnly i (s.pool.workers i) s.kernel
  have hquiet : ∀ j : Fin n, j ≠ i → Kernel.Quiet j s.kernel r.kernel := by
    intro j hj
    have hne : (j : ℕ) ≠ i := fun heq => hj (Fin.ext heq)
    exact (closeRecord_quiet hapart hne).trans (createWorkerProcess_quiet hr hne)
  have hfresh := createWorkerProcess_fresh hr (hclosed.fresh h.fresh)
  refine ⟨r.worker, r.kernel, rfl, ?_⟩
  cases hresult : r.ok with
  | true =>
      obtain ⟨hself, hcurrent⟩ :=
        createWorkerProcess_workerInv hr (hclosed.fresh h.fresh) hresult
      exact ⟨workerInv_update h.workers hself hquiet, hfresh,
        Or.inr ⟨hok.mp hresult, hcurrent⟩⟩
  | false =>
      rcases (createWorkerProcess_cases _ _ _ _ _ hr).2 with ⟨htrue, -⟩ | ⟨-, hfailed⟩
      · rw [hresult] at htrue
        cases htrue
      · refine ⟨workerInv_update h.workers (WorkerInv.of_dead (hfailed.status.trans hdead))
          hquiet, hfresh, Or.inl ⟨fun hsucceeds => ?_, hfailed.currentTaskId⟩⟩
        rw [hok.mpr hsucceeds] at hresult
        cases hresult

/-- A restart keeps the ledger exactly when it forgets no task. -/
theorem restart (h : Ledger s) {i : Fin n} {outcome : CreateOutcome}
    (hdead : (s.pool.workers i).status = .dead)
    (hapart : (s.pool.workers i).Apart i s.kernel) :
    (KeepsOutstanding s (.restart i outcome) →
        Ledger (s.put (restartRound i outcome s.pool s.kernel))) ∧
      (Conserved (s.put (restartRound i outcome s.pool s.kernel)) →
        KeepsOutstanding s (.restart i outcome)) := by
  obtain ⟨w, k, hround, hworkers, hfresh, hcases⟩ :=
    h.restartRound_cases outcome hdead hapart
  rw [hround]
  constructor
  · intro hkeeps
    have hsame : w.outstanding = (s.pool.workers i).outstanding := by
      rcases hcases with ⟨-, hcurrent⟩ | ⟨hsucceeds, hcurrent⟩
      · rw [WorkerProcess.outstanding, hcurrent, WorkerProcess.outstanding]
      · rw [outstanding_eq_zero hcurrent, outstanding_eq_zero (hkeeps hsucceeds)]
    refine ⟨h.queue, ?_, h.nodup, h.ids, h.next, hworkers, hfresh⟩
    simp only [State.put]
    rw [total_update_of_eq _ _ hsame, h.sum]
  · intro hconserved hsucceeds
    by_contra hne
    rcases hcases with ⟨hfails, -⟩ | ⟨-, hcurrent⟩
    · exact hfails hsucceeds
    · have htotal := total_update_to_zero WorkerProcess.outstanding s.pool.workers i
        (outstanding_eq_zero hcurrent)
      rw [outstanding_eq_singleton hne] at htotal
      -- The id in the record is counted once before the restart, so nowhere after it.
      have hid : (s.pool.workers i).currentTaskId ∈ s.accepted := by
        rw [← Multiset.mem_coe, ← h.sum, ← htotal, Multiset.mem_add, Multiset.mem_add,
          Multiset.mem_add]
        exact Or.inl (Or.inr (Or.inr (Multiset.mem_singleton_self _)))
      have hbefore := h.conserved _ hid
      have hafter := hconserved _ hid
      rw [← htotal, Multiset.count_add, Multiset.count_singleton_self] at hbefore
      simp only [State.put] at hafter
      omega

theorem reap (h : Ledger s) {channel : Channel} {r : ℤ × Kernel}
    (hwait : s.kernel.waitChild channel = some r) :
    Ledger (s.put ({ s.pool with
      workers := markReaped r.1 (List.finRange n) s.pool.workers }, r.2)) :=
  (h.handsOn (Kernel.HandsOn.waitChild hwait)).marked (Marked.markReaped _ _ _)

/-- A sound step keeps the ledger when it forgets no task. -/
theorem step (h : Ledger s) {l : Action n} (hsound : Sound s l) (hkeeps : KeepsOutstanding s l)
    (hstep : s.step l = some t) : Ledger t := by
  cases l with
  | submit taskData dataLen =>
      obtain rfl := Option.some.inj hstep
      exact h.submit hsound
  | dispatch killOk writeOk =>
      simp only [State.step] at hstep
      split_ifs at hstep with hcount
      obtain rfl := Option.some.inj hstep
      exact h.dispatch hcount killOk writeOk
  | receive i readOk =>
      simp only [State.step] at hstep
      split_ifs at hstep with hwatched
      obtain rfl := Option.some.inj hstep
      rw [Bool.and_eq_true] at hwatched
      exact h.receive i readOk hwatched.2
  | reap channel =>
      obtain ⟨r, hwait, rfl⟩ := Option.map_eq_some_iff.mp hstep
      exact h.reap hwait
  | restart i outcome =>
      simp only [State.step] at hstep
      split_ifs at hstep with hdead
      obtain rfl := Option.some.inj hstep
      exact (h.restart hdead hsound).1 hkeeps
  | setRunning running =>
      obtain rfl := Option.some.inj hstep
      exact ⟨h.queue, h.sum, h.nodup, h.ids, h.next, h.workers, h.fresh⟩
  | tick now =>
      obtain rfl := Option.some.inj hstep
      exact h.handsOn ⟨rfl, rfl, id, fun _ => le_rfl⟩
  | childRead channel =>
      obtain ⟨k, hk, rfl⟩ := Option.map_eq_some_iff.mp hstep
      exact h.handsOn (Kernel.HandsOn.childRead hk)
  | childWrite channel =>
      obtain ⟨k, hk, rfl⟩ := Option.map_eq_some_iff.mp hstep
      exact h.handsOn (Kernel.HandsOn.childWrite hk)
  | childExit channel =>
      obtain ⟨k, hk, rfl⟩ := Option.map_eq_some_iff.mp hstep
      exact h.handsOn (Kernel.HandsOn.childExit hk)

/-- After a sound step every id is in one place exactly when the step forgets no
task. -/
theorem conserved_step_iff (h : Ledger s) {l : Action n} (hsound : Sound s l)
    (hstep : s.step l = some t) : Conserved t ↔ KeepsOutstanding s l := by
  refine ⟨fun hconserved => ?_, fun hkeeps => (h.step hsound hkeeps hstep).conserved⟩
  cases l with
  | restart i outcome =>
      simp only [State.step] at hstep
      split_ifs at hstep with hdead
      obtain rfl := Option.some.inj hstep
      exact (h.restart hdead hsound).2 hconserved
  | _ => trivial

end Ledger

/-! ## Whole runs -/

/-- The creation loop attaches one worker after the other. -/
theorem createAmong_spec {n : ℕ} {handler : Option TaskHandler}
    {outcomes : Fin n → CreateOutcome} (is done : List (Fin n)) (ws : Fin n → WorkerProcess)
    (k : Kernel) (hfresh : k.Fresh)
    (hdone : ∀ j ∈ done, WorkerInv j k (ws j) ∧ (ws j).currentTaskId = -1)
    {ws' : Fin n → WorkerProcess} {k' : Kernel}
    (hr : createAmong handler outcomes done is ws k = (some ws', k')) :
    k'.Fresh ∧ ∀ j ∈ done ++ is, WorkerInv j k' (ws' j) ∧ (ws' j).currentTaskId = -1 := by
  induction is generalizing done ws k with
  | nil =>
      simp only [createAmong, Prod.mk.injEq, Option.some.injEq] at hr
      obtain ⟨rfl, rfl⟩ := hr
      rw [List.append_nil]
      exact ⟨hfresh, hdone⟩
  | cons i is ih =>
      rw [createAmong] at hr
      generalize hcreate : createWorkerProcess i handler (outcomes i) (ws i) k = r at hr
      cases hok : r.ok with
      | false => simp [hok] at hr
      | true =>
          simp only [hok, if_true] at hr
          have hself := createWorkerProcess_workerInv hcreate hfresh hok
          have hnew : ∀ j ∈ done ++ [i],
              WorkerInv j r.kernel (Function.update ws i r.worker j) ∧
                (Function.update ws i r.worker j).currentTaskId = -1 := by
            intro j hj
            by_cases heq : j = i
            · subst heq
              rw [Function.update_self]
              exact hself
            · rw [Function.update_of_ne heq]
              have hmem : j ∈ done := by simpa [heq] using hj
              exact ⟨(hdone j hmem).1.quiet (createWorkerProcess_quiet hcreate
                fun hval => heq (Fin.ext hval)), (hdone j hmem).2⟩
          have hspec := ih (done ++ [i]) _ _
            (createWorkerProcess_fresh hcreate hfresh) hnew hr
          rwa [List.append_assoc, List.singleton_append] at hspec

theorem ledger_created {n : ℕ} {s : State n} (h : s.Created) : Ledger s := by
  obtain ⟨opened, handler, mallocOk, signalsOk, outcomes, pool, kernel, hcreate, rfl⟩ := h
  obtain ⟨ws, hamong, rfl⟩ := processPoolCreate_cases hcreate
  obtain ⟨hfresh, hws⟩ := createAmong_spec (List.finRange n) [] (fun _ => .zero)
    (Kernel.start opened) (fun _ _ => ⟨rfl, rfl, rfl⟩) nofun hamong
  have hzero : total WorkerProcess.outstanding ws = 0 :=
    total_eq_zero fun i => outstanding_eq_zero (hws i (List.mem_finRange i)).2
  refine ⟨⟨[], TaskQueue.Holds.init⟩, ?_, List.nodup_nil, nofun,
    show (0 : ℤ) < 1 ∧ (1 : ℤ) ≤ 2 ^ 31 - 1 by decide,
    fun i => (hws i (List.mem_finRange i)).1, hfresh⟩
  simp only [hzero, TaskQueue.Holds.init.ids_eq]
  rfl

/-- As long as no id overflows and no restart closes another worker's descriptors, a
run keeps every accepted task in one place at all times exactly when it restarts no
worker that has an outstanding task. -/
theorem conserved_iff {n : ℕ} {s₀ : State n} (h₀ : s₀.Created) (ls : List (Action n))
    (t : State n) :
    Transition.Run (((processPool n).restrict Sound).filter fun _ _ t => Conserved t) s₀ ls t ↔
      Transition.Run (((processPool n).restrict Sound).restrict KeepsOutstanding) s₀ ls t := by
  apply Transition.run_filter_iff_restrict (I := Ledger)
  · intro s l t h hkeeps hstep
    exact h.step hstep.1 hkeeps hstep.2
  · intro s l t h hstep
    exact h.conserved_step_iff hstep.1 hstep.2
  · exact ledger_created h₀

theorem conserved_one_answered : ∃ s₀ t : State 1, s₀.Created ∧
    Transition.Run (((processPool 1).restrict Sound).filter fun _ _ t => Conserved t) s₀
      [.submit (some [97]) 1, .dispatch (fun _ => true) true, .childRead ⟨0, 0⟩,
        .childWrite ⟨0, 0⟩, .setRunning true, .receive 0 true, .childExit ⟨0, 0⟩,
        .reap ⟨0, 0⟩, .restart 0 ⟨.created, .created, some 8⟩] t ∧
    t.accepted = [1] ∧ t.returned = [1] := by
  have hcreated : State.Created _ := ⟨[true, true, true], none, true, true,
    fun _ : Fin 1 => ⟨.created, .created, some 7⟩, _, _, rfl, rfl⟩
  refine ⟨_, _, hcreated, (conserved_iff hcreated _ _).mpr
    (.cons ⟨trivial, fun _ _ _ _ => by decide, rfl⟩ (.cons ⟨trivial, trivial, rfl⟩
    (.cons ⟨trivial, trivial, rfl⟩ (.cons ⟨trivial, trivial, rfl⟩
    (.cons ⟨trivial, trivial, rfl⟩ (.cons ⟨trivial, trivial, rfl⟩
    (.cons ⟨trivial, trivial, rfl⟩ (.cons ⟨trivial, trivial, rfl⟩
    (.cons ⟨fun _ => rfl, ?_, rfl⟩ (.nil _)))))))))), rfl, rfl⟩
  rintro fd (rfl | rfl | rfl | rfl) channel direction side hfd
  · cases hfd
  · cases hfd
    rfl
  · cases hfd
    rfl
  · cases hfd

/-- A pool of one worker: the task is sent, the worker process dies, is reaped and
replaced, and the task is nowhere. -/
theorem task_lost : ¬ ∀ (n : ℕ) (s : State n),
    Transition.Reachable (processPool n) s → Conserved s := by
  intro hclaim
  have hcreated : State.Created _ := ⟨[true, true, true], none, true, true,
    fun _ : Fin 1 => ⟨.created, .created, some 7⟩, _, _, rfl, rfl⟩
  have hlost := hclaim 1 _ ⟨_, [.submit (some [97]) 1, .dispatch (fun _ => true) true,
    .childExit ⟨0, 0⟩, .reap ⟨0, 0⟩, .restart 0 ⟨.created, .created, some 8⟩], hcreated,
    .cons rfl (.cons rfl (.cons rfl (.cons rfl (.cons rfl (.nil _)))))⟩
  have hcount := hlost 1 (by decide)
  revert hcount
  decide

end PipePool

end ProcessThreadPool
