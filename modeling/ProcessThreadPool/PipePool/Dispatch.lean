import Mathlib.Order.Fin.Basic
import Mathlib.Data.Fin.VecNotation
import ProcessThreadPool.PipePool.Queue

/-!
# The pipe-based process pool: one call of `dispatch_tasks`

When no write fails and no process dies during the call, the oldest tasks go to the
idle workers whose process lives, one each, in the order of the indices. The loop asks
for the liveness of a worker only when it gets to its index, so a dead process behind
the last worker that was needed stays unnoticed.
-/

namespace ProcessThreadPool

namespace PipePool

open DescriptorTable

/-- The worker is idle and its process lives. -/
def WorkerProcess.Ready (killOk : Bool) (w : WorkerProcess) : Prop :=
  w.status = .idle ∧ 0 < w.pid ∧ killOk = true

/-- The worker is idle in the record, and `kill` says that its process is gone. -/
def WorkerProcess.Vanished (killOk : Bool) (w : WorkerProcess) : Prop :=
  w.status = .idle ∧ 0 < w.pid ∧ killOk = false

instance (killOk : Bool) (w : WorkerProcess) : Decidable (w.Ready killOk) :=
  inferInstanceAs (Decidable (_ ∧ _))

instance (killOk : Bool) (w : WorkerProcess) : Decidable (w.Vanished killOk) :=
  inferInstanceAs (Decidable (_ ∧ _))

/-- The idle workers whose process lives, by increasing index. -/
def readyWorkers {n : ℕ} (killOk : Fin n → Bool) (ws : Fin n → WorkerProcess) :
    List (Fin n) :=
  (List.finRange n).filter fun i => (ws i).Ready (killOk i)

/-- The record of a worker that was sent a task. -/
def WorkerProcess.sent (w : WorkerProcess) (task : Task) (now : ℤ) : WorkerProcess :=
  { w with status := .busy, currentTaskId := task.taskId, lastActive := now }

/-- The record of a worker that `find_idle_worker` looked at. -/
def WorkerProcess.looked (killOk : Bool) (w : WorkerProcess) : WorkerProcess :=
  if w.Vanished killOk then { w with status := .dead } else w

/-- The pipes after a task was written to each of these workers. -/
def writtenTo {n : ℕ} (channel : Fin n → Channel) (sends : List (Fin n × Task))
    (pipes : Channel → List Task) : Channel → List Task :=
  sends.foldl (fun pipes send => Function.update pipes (channel send.1)
    (pipes (channel send.1) ++ [send.2])) pipes

section Looking

variable {n : ℕ} (killOk : Fin n → Bool)

theorem WorkerProcess.Ready.not_vanished {killOk : Bool} {w : WorkerProcess}
    (h : w.Ready killOk) : ¬ w.Vanished killOk := by
  intro hvanished
  have htrue := h.2.2
  rw [hvanished.2.2] at htrue
  cases htrue

theorem WorkerProcess.Ready.looked_eq {killOk : Bool} {w : WorkerProcess}
    (h : w.Ready killOk) : w.looked killOk = w := if_neg h.not_vanished

/-- What `is_worker_alive` answers about an idle worker and leaves in its record. -/
theorem isWorkerAlive_of_idle {killOk : Bool} {w : WorkerProcess} (hidle : w.status = .idle) :
    isWorkerAlive killOk w = (decide (w.Ready killOk), w.looked killOk) := by
  by_cases hpid : w.pid ≤ 0
  · have hready : ¬ w.Ready killOk := fun h => absurd h.2.1 (Int.not_lt.mpr hpid)
    have hvanished : ¬ w.Vanished killOk := fun h => absurd h.2.1 (Int.not_lt.mpr hpid)
    rw [isWorkerAlive, if_pos hpid, WorkerProcess.looked, if_neg hvanished,
      decide_eq_false hready]
  · have hpos := Int.not_le.mp hpid
    cases killOk with
    | true =>
        have hready : w.Ready true := ⟨hidle, hpos, rfl⟩
        rw [isWorkerAlive, if_neg hpid, if_pos rfl, hready.looked_eq,
          decide_eq_true hready]
    | false =>
        have hready : ¬ w.Ready false := fun h => by cases h.2.2
        rw [isWorkerAlive, if_neg hpid, if_neg Bool.false_ne_true, WorkerProcess.looked,
          if_pos ⟨hidle, hpos, rfl⟩, decide_eq_false hready]

theorem WorkerProcess.looked_of_not_idle {killOk : Bool} {w : WorkerProcess}
    (h : w.status ≠ .idle) : w.looked killOk = w := if_neg fun hvanished => h hvanished.1

theorem WorkerProcess.looked_ready_iff {killOk : Bool} {w : WorkerProcess} :
    (w.looked killOk).Ready killOk ↔ w.Ready killOk := by
  rw [WorkerProcess.looked]
  split_ifs with hvanished
  · exact ⟨fun h => (by cases h.1), fun h => absurd hvanished h.not_vanished⟩
  · exact Iff.rfl

theorem WorkerProcess.looked_looked (killOk : Bool) (w : WorkerProcess) :
    (w.looked killOk).looked killOk = w.looked killOk := by
  by_cases hvanished : w.Vanished killOk
  · refine WorkerProcess.looked_of_not_idle ?_
    rw [WorkerProcess.looked, if_pos hvanished]
    exact fun hidle => by cases hidle
  · have hsame : w.looked killOk = w := if_neg hvanished
    rw [hsame, hsame]

/-- The loop stops at the first ready worker, and has looked at those before it. -/
theorem findIdleAmong_eq (is : List (Fin n)) (hsorted : is.Pairwise (· < ·))
    (ws : Fin n → WorkerProcess) :
    findIdleAmong killOk is ws =
      ((is.filter fun i => (ws i).Ready (killOk i)).head?, fun j =>
        if j ∈ is ∧ ∀ i ∈ is, i < j → ¬ (ws i).Ready (killOk i) then (ws j).looked (killOk j)
        else ws j) := by
  induction is generalizing ws with
  | nil => simp [findIdleAmong]
  | cons i is ih =>
      obtain ⟨hfirst, hrest⟩ := List.pairwise_cons.mp hsorted
      by_cases hready : (ws i).Ready (killOk i)
      · -- The loop returns here, and no other worker in the list has a smaller index.
        have hfilter : ((i :: is).filter fun i => (ws i).Ready (killOk i)).head? = some i := by
          rw [List.filter_cons, if_pos (decide_eq_true hready), List.head?_cons]
        rw [findIdleAmong, if_pos hready.1, isWorkerAlive_of_idle hready.1, hfilter]
        simp only [decide_eq_true hready, if_true]
        refine Prod.ext rfl (funext fun j => ?_)
        simp only
        by_cases hj : j = i
        · subst hj
          simp only [hready.looked_eq, Function.update_eq_self, ite_self]
        · rw [Function.update_of_ne hj]
          refine (if_neg fun hmem => ?_).symm
          exact hmem.2 i List.mem_cons_self
            (hfirst j ((List.mem_cons.mp hmem.1).resolve_left hj)) hready
      · -- The loop goes on with the record of `i` looked at.
        have hfilter : ((i :: is).filter fun i => (ws i).Ready (killOk i)) =
            is.filter fun i => (ws i).Ready (killOk i) :=
          List.filter_cons_of_neg (by simpa using hready)
        have hstep : findIdleAmong killOk (i :: is) ws =
            findIdleAmong killOk is (Function.update ws i ((ws i).looked (killOk i))) := by
          by_cases hidle : (ws i).status = .idle
          · rw [findIdleAmong, if_pos hidle, isWorkerAlive_of_idle hidle]
            simp only [decide_eq_false hready, Bool.false_eq_true, if_false]
          · rw [findIdleAmong, if_neg hidle, WorkerProcess.looked_of_not_idle hidle,
              Function.update_eq_self]
        have hother : ∀ j ∈ is,
            Function.update ws i ((ws i).looked (killOk i)) j = ws j := by
          intro j hj
          exact Function.update_of_ne (hfirst j hj).ne' _ _
        rw [hstep, ih hrest, hfilter]
        refine Prod.ext (congrArg List.head? (List.filter_congr fun j hj => ?_))
          (funext fun j => ?_)
        · rw [hother j hj]
        · simp only
          by_cases hj : j = i
          · subst hj
            have hnot : j ∉ is := fun hmem => (hfirst j hmem).false
            have hpos : j ∈ j :: is ∧ ∀ i ∈ j :: is, i < j → ¬ (ws i).Ready (killOk i) := by
              refine ⟨List.mem_cons_self, fun i hi hlt => ?_⟩
              rcases List.mem_cons.mp hi with rfl | hi
              · exact absurd hlt (lt_irrefl _)
              · exact absurd hlt (hfirst i hi).not_gt
            rw [if_neg fun h => hnot h.1, if_pos hpos, Function.update_self]
          · rw [Function.update_of_ne hj]
            refine if_congr ?_ rfl rfl
            rw [List.mem_cons, or_iff_right hj, List.forall_mem_cons]
            refine and_congr_right fun _ => ⟨fun h => ⟨fun _ => hready, fun i' hi' => ?_⟩,
              fun h i' hi' => ?_⟩
            · rw [← hother i' hi']
              exact h i' hi'
            · rw [hother i' hi']
              exact h.2 i' hi'

theorem findIdleWorker_eq (ws : Fin n → WorkerProcess) :
    findIdleWorker killOk ws =
      ((readyWorkers killOk ws).head?, fun j =>
        if ∀ i ∈ readyWorkers killOk ws, j ≤ i then (ws j).looked (killOk j) else ws j) := by
  rw [findIdleWorker, findIdleAmong_eq killOk _ (List.pairwise_lt_finRange n)]
  refine Prod.ext rfl (funext fun j => if_congr ?_ rfl rfl)
  simp only [readyWorkers, List.mem_finRange, List.mem_filter, decide_eq_true_eq, true_and,
    true_imp_iff]
  exact forall_congr' fun i => by rw [← not_imp_not, not_not, not_lt]

theorem readyWorkers_sorted (ws : Fin n → WorkerProcess) :
    (readyWorkers killOk ws).Pairwise (· < ·) :=
  (List.pairwise_lt_finRange n).filter _

theorem mem_readyWorkers {ws : Fin n → WorkerProcess} {i : Fin n} :
    i ∈ readyWorkers killOk ws ↔ (ws i).Ready (killOk i) := by
  simp [readyWorkers]

end Looking

/-- What `dispatch_tasks` makes of the worker records. The `m`-th ready worker is sent
the `m`-th task. Another worker was looked at when a task was left for it, which is when
fewer ready workers have a smaller index than there are tasks. -/
structure Dispatched {n : ℕ} (now : ℕ → ℤ) (killOk : Fin n → Bool) (l : List Task)
    (ws ws' : Fin n → WorkerProcess) : Prop where
  sent : ∀ m i task, (readyWorkers killOk ws)[m]? = some i → l[m]? = some task →
    ws' i = (ws i).sent task (now m)
  others : ∀ i, i ∉ (readyWorkers killOk ws).take l.length →
    ws' i = if ((readyWorkers killOk ws).filter (· < i)).length < l.length then
      (ws i).looked (killOk i) else ws i

section Rounds

variable {n : ℕ} {killOk : Fin n → Bool} {pool : ProcessPool n} {k : Kernel}

/-- A round without a ready worker leaves the loop. -/
theorem dispatchRound_of_nil (writeOk : Bool)
    (hready : readyWorkers killOk pool.workers = []) :
    dispatchRound killOk writeOk pool k =
      (false, { pool with
        workers := fun i => (pool.workers i).looked (killOk i) }, k) := by
  simp only [dispatchRound, findIdleWorker_eq, hready, List.head?_nil, List.not_mem_nil,
    false_imp_iff, implies_true, if_true]

/-- The workers after a round that sent a task to `i`, the first ready worker. -/
def roundWorkers (killOk : Fin n → Bool) (ws : Fin n → WorkerProcess) (i : Fin n)
    (task : Task) (now : ℤ) (j : Fin n) : WorkerProcess :=
  if j < i then (ws j).looked (killOk j) else if j = i then (ws i).sent task now else ws j

/-- A round with a ready worker sends it the oldest task. -/
theorem dispatchRound_of_cons {i : Fin n} {is : List (Fin n)} {task : Task} {l : List Task}
    {channel : Channel} (hready : readyWorkers killOk pool.workers = i :: is)
    (hqueue : pool.taskQueue.Holds (task :: l))
    (hpipe : k.fds.lookup (pool.workers i).pipeToWorker.writeEnd =
      some (.pipeEnd channel .toWorker .writeEnd)) :
    ∃ q : TaskQueue, q.Holds l ∧ dispatchRound killOk true pool k =
      (true, { pool with
        workers := roundWorkers killOk pool.workers i task k.now
        taskQueue := q },
      { k with
        toWorker := Function.update k.toWorker channel (k.toWorker channel ++ [task]) }) := by
  have hcount := hqueue.count_eq
  rw [List.length_cons] at hcount
  obtain ⟨task', l', hl, htask, hrest⟩ := hqueue.dequeue (by omega)
  obtain ⟨rfl, rfl⟩ := List.cons.inj hl
  have hself : (pool.workers i).Ready (killOk i) := by
    rw [← mem_readyWorkers, hready]
    exact List.mem_cons_self
  have hfirst : ∀ j : Fin n, (∀ i' ∈ i :: is, j ≤ i') ↔ j ≤ i := by
    have hsorted := readyWorkers_sorted killOk pool.workers
    rw [hready, List.pairwise_cons] at hsorted
    intro j
    rw [List.forall_mem_cons]
    exact ⟨And.left, fun h => ⟨h, fun i' hi' => h.trans (hsorted.1 i' hi').le⟩⟩
  refine ⟨_, hrest, ?_⟩
  have hsend : sendTaskToWorker k (pool.workers i) task true =
      ⟨true, (pool.workers i).sent task k.now, { k with
        toWorker := Function.update k.toWorker channel (k.toWorker channel ++ [task]) }⟩ := by
    simp only [sendTaskToWorker, Kernel.writeTask, hpipe, if_true]
    rfl
  simp only [dispatchRound, findIdleWorker_eq, hready, List.head?_cons, htask, hfirst,
    le_refl, if_true, hself.looked_eq, hsend]
  refine Prod.ext rfl (Prod.ext ?_ rfl)
  refine congrArg (fun ws => ({ pool with workers := ws, taskQueue := _ } : ProcessPool n))
    (funext fun j => ?_)
  rw [roundWorkers]
  by_cases hj : j = i
  · subst hj
    rw [Function.update_self, if_neg (lt_irrefl j), if_pos rfl]
  · rw [Function.update_of_ne hj, if_neg hj]
    exact if_congr ⟨fun h => lt_of_le_of_ne h hj, le_of_lt⟩ rfl rfl

section RoundWorkers

variable {ws : Fin n → WorkerProcess} {i j : Fin n} {is : List (Fin n)} {task : Task}
  {time : ℤ}

theorem roundWorkers_of_lt (h : j < i) :
    roundWorkers killOk ws i task time j = (ws j).looked (killOk j) := if_pos h

theorem roundWorkers_self :
    roundWorkers killOk ws i task time i = (ws i).sent task time := by
  rw [roundWorkers, if_neg (lt_irrefl i), if_pos rfl]

theorem roundWorkers_of_gt (h : i < j) : roundWorkers killOk ws i task time j = ws j := by
  rw [roundWorkers, if_neg h.not_gt, if_neg h.ne']

/-- After such a round the other ready workers are left. -/
theorem readyWorkers_roundWorkers (task : Task) (time : ℤ)
    (hready : readyWorkers killOk ws = i :: is) :
    readyWorkers killOk (roundWorkers killOk ws i task time) = is := by
  have hsorted := readyWorkers_sorted killOk ws
  rw [hready, List.pairwise_cons] at hsorted
  have hnew : ∀ j, (roundWorkers killOk ws i task time j).Ready (killOk j) ↔
      i < j ∧ (ws j).Ready (killOk j) := by
    intro j
    rcases lt_trichotomy j i with hlt | rfl | hgt
    · have hnot : ¬ (ws j).Ready (killOk j) := by
        rw [← mem_readyWorkers, hready, List.mem_cons, not_or]
        exact ⟨hlt.ne, fun hmem => (hsorted.1 j hmem).not_gt hlt⟩
      rw [roundWorkers_of_lt hlt, WorkerProcess.looked_ready_iff]
      exact ⟨fun h => absurd h hnot, And.right⟩
    · rw [roundWorkers_self]
      exact ⟨fun h => (by cases h.1), fun h => absurd h.1 (lt_irrefl j)⟩
    · rw [roundWorkers_of_gt hgt]
      exact (and_iff_right hgt).symm
  calc readyWorkers killOk (roundWorkers killOk ws i task time)
      = (readyWorkers killOk ws).filter (i < ·) := by
        rw [readyWorkers, readyWorkers, List.filter_filter]
        refine List.filter_congr fun j _ => ?_
        rw [← Bool.decide_and]
        exact decide_eq_decide.mpr (hnew j)
    _ = is := by
        rw [hready, List.filter_cons, if_neg (by simp), List.filter_eq_self.mpr]
        exact fun j hj => decide_eq_true (hsorted.1 j hj)

end RoundWorkers

/-- A round, and what the later ones make of the workers it leaves. -/
theorem Dispatched.cons {now : ℕ → ℤ} {task : Task} {l : List Task}
    {ws ws' : Fin n → WorkerProcess} {i : Fin n} {is : List (Fin n)}
    (hready : readyWorkers killOk ws = i :: is)
    (h : Dispatched (fun m => now (m + 1)) killOk l (roundWorkers killOk ws i task (now 0)) ws') :
    Dispatched now killOk (task :: l) ws ws' := by
  have hsorted := readyWorkers_sorted killOk ws
  rw [hready, List.pairwise_cons] at hsorted
  have hself : i ∉ is := fun hmem => (hsorted.1 i hmem).false
  obtain ⟨hsent, hothers⟩ := h
  rw [readyWorkers_roundWorkers _ _ hready] at hsent hothers
  constructor
  · intro m j task' hj htask
    rw [hready] at hj
    cases m with
    | zero =>
        cases hj
        cases htask
        -- The later rounds leave a busy worker alone.
        have hlater := hothers i fun hmem => hself (List.mem_of_mem_take hmem)
        rw [roundWorkers_self, WorkerProcess.looked_of_not_idle fun hidle => (by cases hidle),
          ite_self] at hlater
        exact hlater
    | succ m =>
        have hlater := hsent m j task' hj htask
        rwa [roundWorkers_of_gt (hsorted.1 j (List.mem_of_getElem? hj))] at hlater
  · intro j hj
    rw [hready, List.length_cons, List.take_succ_cons, List.mem_cons, not_or] at hj
    have hlater := hothers j hj.2
    rw [hready, List.length_cons]
    rcases lt_or_gt_of_ne hj.1 with hlt | hgt
    · have hnone : (i :: is).filter (· < j) = [] := by
        refine List.filter_eq_nil_iff.mpr fun j' hj' hlt' => ?_
        rcases List.mem_cons.mp hj' with rfl | hj'
        · exact hlt.not_gt (of_decide_eq_true hlt')
        · exact ((hsorted.1 j' hj').trans (of_decide_eq_true hlt')).not_gt hlt
      rw [roundWorkers_of_lt hlt, WorkerProcess.looked_looked, ite_self] at hlater
      rw [hlater, hnone, List.length_nil, if_pos (Nat.succ_pos _)]
    · rw [roundWorkers_of_gt hgt] at hlater
      rw [hlater, List.filter_cons, if_pos (decide_eq_true hgt), List.length_cons]
      exact if_congr Nat.succ_lt_succ_iff.symm rfl rfl

theorem Dispatched.of_empty (now : ℕ → ℤ) (ws : Fin n → WorkerProcess) :
    Dispatched now killOk [] ws ws where
  sent := fun m i task _ htask => (by cases htask)
  others := fun i _ => (if_neg (Nat.not_lt_zero _)).symm

theorem Dispatched.of_not_ready {now : ℕ → ℤ} {ws : Fin n → WorkerProcess}
    (hready : readyWorkers killOk ws = []) (task : Task) (l : List Task) :
    Dispatched now killOk (task :: l) ws fun i => (ws i).looked (killOk i) where
  sent := fun m i task hi _ => by
    rw [hready] at hi
    cases hi
  others := fun i _ => by
    rw [hready]
    exact (if_pos (Nat.succ_pos _)).symm

theorem dispatchRounds_spec (now : ℕ → ℤ) (channel : Fin n → Channel) (rounds : ℕ)
    (pool : ProcessPool n) (k : Kernel) {l : List Task} (hqueue : pool.taskQueue.Holds l)
    (hrounds : l.length ≤ rounds)
    (hpipes : ∀ i ∈ (readyWorkers killOk pool.workers).take l.length,
      k.fds.lookup (pool.workers i).pipeToWorker.writeEnd =
        some (.pipeEnd (channel i) .toWorker .writeEnd))
    {r : ℕ × ProcessPool n × Kernel}
    (hr : dispatchRounds now (fun _ => killOk) (fun _ => true) rounds pool k = r) :
    r.1 = min l.length (readyWorkers killOk pool.workers).length ∧
      r.2.1.taskQueue.Holds (l.drop r.1) ∧
      Dispatched (fun m => now (rounds - 1 - m)) killOk l pool.workers r.2.1.workers ∧
      r.2.1 = { pool with workers := r.2.1.workers, taskQueue := r.2.1.taskQueue } ∧
      r.2.2 = { k with
        now := r.2.2.now
        toWorker := writtenTo channel ((readyWorkers killOk pool.workers).zip l)
          k.toWorker } := by
  induction rounds generalizing l pool k r with
  | zero =>
      obtain rfl := List.eq_nil_of_length_eq_zero (Nat.le_zero.mp hrounds)
      subst hr
      refine ⟨(Nat.zero_min _).symm, hqueue, Dispatched.of_empty _ _, rfl, ?_⟩
      rw [List.zip_nil_right]
      rfl
  | succ rounds ih =>
      have hcount := hqueue.count_eq
      cases l with
      | nil =>
          rw [dispatchRounds, if_neg (by rw [hcount]; decide)] at hr
          subst hr
          refine ⟨(Nat.zero_min _).symm, hqueue, Dispatched.of_empty _ _, rfl, ?_⟩
          rw [List.zip_nil_right]
          rfl
      | cons task l =>
          rw [List.length_cons] at hcount
          simp only [dispatchRounds, if_pos (show 0 < pool.taskQueue.count by omega)] at hr
          cases hready : readyWorkers killOk pool.workers with
          | nil =>
              rw [dispatchRound_of_nil _ hready] at hr
              simp only [Bool.false_eq_true, if_false] at hr
              subst hr
              exact ⟨(Nat.min_zero _).symm, hqueue, Dispatched.of_not_ready hready task l,
                rfl, rfl⟩
          | cons i is =>
              have hsorted := readyWorkers_sorted killOk pool.workers
              rw [hready, List.pairwise_cons] at hsorted
              rw [hready, List.length_cons, List.take_succ_cons, List.forall_mem_cons] at hpipes
              obtain ⟨q, hq, hround⟩ := dispatchRound_of_cons
                (k := { k with now := now rounds }) hready hqueue hpipes.1
              have hleft := readyWorkers_roundWorkers task (now rounds) hready
              have hpipesLeft : ∀ j ∈ is.take l.length, k.fds.lookup (roundWorkers killOk
                  pool.workers i task (now rounds) j).pipeToWorker.writeEnd =
                    some (.pipeEnd (channel j) .toWorker .writeEnd) := by
                intro j hj
                rw [roundWorkers_of_gt (hsorted.1 j (List.mem_of_mem_take hj))]
                exact hpipes.2 j hj
              rw [hround] at hr
              simp only [if_true] at hr
              -- What is left is the same call on the other tasks and the other workers.
              obtain ⟨hsent, hrest, hworkers, hpool, hkernel⟩ := ih
                { pool with
                  workers := roundWorkers killOk pool.workers i task (now rounds)
                  taskQueue := q }
                { k with
                  now := now rounds
                  toWorker := Function.update k.toWorker (channel i)
                    (k.toWorker (channel i) ++ [task]) } hq
                (Nat.le_of_succ_le_succ hrounds) (by rw [hleft]; exact hpipesLeft) rfl
              simp only [hleft] at hsent hkernel
              subst hr
              refine ⟨?_, hrest, ?_, hpool, hkernel⟩
              · simp only [hsent, List.length_cons, Nat.succ_min_succ]
              · refine Dispatched.cons hready ?_
                simp only [Nat.add_sub_cancel, Nat.sub_zero, Nat.sub_add_eq,
                  Nat.sub_right_comm _ _ 1]
                exact hworkers

/-- When every write succeeds, `dispatch_tasks` sends the oldest tasks to the ready
workers, one each, by increasing index, keeps the other tasks in the queue, marks the
workers that were sent a task and the vanished workers it looked at, and changes nothing
else. `now m` is the time in the round with `m` rounds still granted; the rounds run out
only when the queue is empty. -/
theorem dispatchTasks_spec (now : ℕ → ℤ) (killOk : Fin n → Bool) (channel : Fin n → Channel)
    (pool : ProcessPool n) (k : Kernel) {l : List Task} (hqueue : pool.taskQueue.Holds l)
    (hpipes : ∀ i ∈ (readyWorkers killOk pool.workers).take l.length,
      k.fds.lookup (pool.workers i).pipeToWorker.writeEnd =
        some (.pipeEnd (channel i) .toWorker .writeEnd))
    {r : ℕ × ProcessPool n × Kernel}
    (hr : dispatchTasks now (fun _ => killOk) (fun _ => true) pool k = r) :
    r.1 = min l.length (readyWorkers killOk pool.workers).length ∧
      (readyWorkers killOk pool.workers).Pairwise (· < ·) ∧
      r.2.1.taskQueue.Holds (l.drop r.1) ∧
      (r.1 = l.length → r.2.1.taskQueue.count = 0) ∧
      Dispatched (fun m => now (l.length - 1 - m)) killOk l pool.workers r.2.1.workers ∧
      r.2.1 = { pool with workers := r.2.1.workers, taskQueue := r.2.1.taskQueue } ∧
      r.2.2 = { k with
        now := r.2.2.now
        toWorker := writtenTo channel ((readyWorkers killOk pool.workers).zip l)
          k.toWorker } := by
  have hrounds : pool.taskQueue.count.toNat = l.length := by rw [hqueue.count_eq, Int.toNat_natCast]
  rw [dispatchTasks, hrounds] at hr
  obtain ⟨hsent, hrest, hworkers, hpool, hkernel⟩ :=
    dispatchRounds_spec now channel l.length pool k hqueue le_rfl hpipes hr
  refine ⟨hsent, readyWorkers_sorted killOk pool.workers, hrest, fun hall => ?_, hworkers,
    hpool, hkernel⟩
  rw [hrest.count_eq, hall, List.drop_length]
  rfl

end Rounds

/-- Three workers, the first idle in its record but gone, the third busy, and two tasks:
the second worker is sent the first task. -/
theorem dispatchTasks_spec_three : ∃ r : ℕ × ProcessPool 3 × Kernel,
    dispatchTasks (fun _ => 9) (fun _ => ![false, true, true]) (fun _ => true)
      ⟨![⟨5, .idle, ⟨-1, 0⟩, ⟨-1, -1⟩, 0, -1⟩, ⟨6, .idle, ⟨-1, 1⟩, ⟨-1, -1⟩, 0, -1⟩,
        ⟨7, .busy, ⟨-1, 2⟩, ⟨-1, -1⟩, 0, 1⟩],
        (enqueueTask (enqueueTask initTaskQueue ⟨2, [97, 0], 1⟩).2 ⟨3, [98, 0], 1⟩).2,
        true, 4⟩
      { Kernel.start [] with
        fds := ⟨[none, some (.pipeEnd ⟨1, 0⟩ .toWorker .writeEnd)]⟩ } = r ∧
    r.1 = 1 ∧ r.2.1.taskQueue.Holds [⟨3, [98, 0], 1⟩] ∧
    (r.2.1.workers 0).status = .dead ∧
    r.2.1.workers 1 = ⟨6, .busy, ⟨-1, 1⟩, ⟨-1, -1⟩, 9, 2⟩ ∧
    r.2.2.toWorker ⟨1, 0⟩ = [⟨2, [97, 0], 1⟩] := by
  have hfirst := (TaskQueue.Holds.init.enqueue (by decide) ⟨2, [97, 0], 1⟩).2
  have hqueue := (hfirst.enqueue (by decide) ⟨3, [98, 0], 1⟩).2
  obtain ⟨hsent, -, hrest, -, ⟨hbusy, hothers⟩, -, hkernel⟩ :=
    dispatchTasks_spec (fun _ => 9) ![false, true, true] (fun i => ⟨i, 0⟩)
      ⟨![⟨5, .idle, ⟨-1, 0⟩, ⟨-1, -1⟩, 0, -1⟩, ⟨6, .idle, ⟨-1, 1⟩, ⟨-1, -1⟩, 0, -1⟩,
        ⟨7, .busy, ⟨-1, 2⟩, ⟨-1, -1⟩, 0, 1⟩], _, true, 4⟩
      { Kernel.start [] with
        fds := ⟨[none, some (.pipeEnd ⟨1, 0⟩ .toWorker .writeEnd)]⟩ } hqueue (by decide) rfl
  rw [hsent] at hrest
  exact ⟨_, rfl, hsent, hrest, congrArg WorkerProcess.status (hothers 0 (by decide)),
    hbusy 0 1 _ rfl rfl, congrFun (congrArg Kernel.toWorker hkernel) ⟨1, 0⟩⟩

end PipePool

end ProcessThreadPool
