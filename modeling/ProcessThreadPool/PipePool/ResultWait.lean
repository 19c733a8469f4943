import ProcessThreadPool.Lib.DrivenLoop
import ProcessThreadPool.PipePool.Conservation
import ProcessThreadPool.PipePool.SafeRead

/-!
# Waiting for a result

`process_pool_get_result` round by round, in a master that does nothing else meanwhile. The
timeout decides only what `select` does, and `select` is called only if some worker can be
watched. The statuses are changed only by reading the pipes.
-/

namespace ProcessThreadPool

namespace PipePool

namespace ByteReads

open DrivenLoop

/-- The outcomes of `read` in a `safe_read` of a result, which returns. -/
structure Reading where
  outcomes : List ReadOutcome
  returns : (safeRead sizeofTaskResult outcomes).isSome

def Reading.result (reading : Reading) : SafeRead :=
  (safeRead sizeofTaskResult reading.outcomes).get reading.returns

/-- What `select` does, with the bits that it leaves in the set, and how the reads go. -/
inductive SelectRound (n : ℕ) where
  | interrupted
  | failed
  | timedOut
  | ready (isset : Fin n → Bool) (readings : Fin n → Reading) (now : ℤ)

/-- The loop of `process_pool_get_result` over the workers. -/
def receiveAmong {n : ℕ} (isset : Fin n → Bool) (readings : Fin n → Reading) (now : ℤ) :
    List (Fin n) → ProcessPool n → Option (List UInt8) × ProcessPool n
  | [], pool => (none, pool)
  | i :: is, pool =>
      if (pool.workers i).watched && isset i then
        let r := (readings i).result
        let pool' := { pool with
          workers := Function.update pool.workers i (afterRead now (pool.workers i) r.returned) }
        if r.returned = (sizeofTaskResult : ℤ) then (some r.data, pool')
        else receiveAmong isset readings now is pool'
      else receiveAmong isset readings now is pool

/-- The pool, and what `process_pool_get_result` has returned: -1, or 0 with a result. -/
structure Waiting (n : ℕ) where
  pool : ProcessPool n
  returned : Option (Option (List UInt8))

/-- Once round the loop of `process_pool_get_result`. -/
def resultRound {n : ℕ} (s : Waiting n) (round : SelectRound n) : Waiting n :=
  match s.returned with
  | some _ => s
  | none =>
      if s.pool.running = false then ⟨s.pool, some none⟩
      else if maxFd s.pool = -1 then s
      else
        match round with
        | .interrupted => s
        | .failed | .timedOut => ⟨s.pool, some none⟩
        | .ready isset readings now =>
            let r := receiveAmong isset readings now (List.finRange n) s.pool
            ⟨r.2, r.1.map some⟩

/-- The loop has been left, with rounds to come that are not looked at. -/
def HasReturned {n : ℕ} (p : Waiting n × (ℕ → SelectRound n)) : Prop :=
  p.1.returned.isSome = true

/-- `process_pool_get_result` leaves its loop after finitely many rounds. -/
def Returns {n : ℕ} (pool : ProcessPool n) (rounds : ℕ → SelectRound n) : Prop :=
  ∃ k, HasReturned ((feed resultRound)^[k] (⟨pool, none⟩, rounds))

/-- The pipe of worker `i` is read, and nothing is there. -/
def SelectRound.Empties {n : ℕ} (i : Fin n) : SelectRound n → Prop
  | .ready isset readings _ => isset i = true ∧ (readings i).result.returned = 0
  | _ => False

/-- `select` fails or times out, or the pipe of worker `i` is read and has a whole result. -/
def SelectRound.Answers {n : ℕ} (i : Fin n) : SelectRound n → Prop
  | .interrupted => False
  | .failed | .timedOut => True
  | .ready isset readings _ =>
      isset i = true ∧ (readings i).result.returned = (sizeofTaskResult : ℤ)

/-- Worker `i` can be watched at first, and its pipe has not been found empty before round
`k`. -/
def StillWatched {n : ℕ} (pool : ProcessPool n) (rounds : ℕ → SelectRound n) (k : ℕ)
    (i : Fin n) : Prop :=
  (pool.workers i).watched = true ∧ ∀ j < k, ¬ (rounds j).Empties i

/-- In some round `select` is called and ends the wait, or a whole result is read. -/
def Answered {n : ℕ} (pool : ProcessPool n) (rounds : ℕ → SelectRound n) : Prop :=
  ∃ k i, StillWatched pool rounds k i ∧ (rounds k).Answers i

section

variable {n : ℕ} {pool : ProcessPool n} {round : SelectRound n} {rounds : ℕ → SelectRound n}

/-- The workers that are watched have descriptors. -/
def FdsValid (pool : ProcessPool n) : Prop :=
  ∀ i, (pool.workers i).watched = true → 0 ≤ (pool.workers i).pipeFromWorker.readEnd

/-- The states of the master, whose records are attached to open pipes, are such. -/
theorem fdsValid_of_ledger {s : State n} (h : Ledger s) : FdsValid s.pool := by
  intro i hwatched
  rw [WorkerProcess.watched, Bool.and_eq_true, decide_eq_true_eq] at hwatched
  obtain ⟨session, hattached⟩ := (h.workers i).attached hwatched.1
  by_contra hneg
  have hlookup := hattached.fromWorker
  rw [s.kernel.fds.lookup_of_neg (Int.not_le.mp hneg)] at hlookup
  cases hlookup

theorem afterRead_pipeFromWorker {now : ℤ} {w : WorkerProcess} {bytesRead : ℤ} :
    (afterRead now w bytesRead).pipeFromWorker = w.pipeFromWorker := by
  rw [afterRead]
  split_ifs <;> rfl

/-- A worker that was watched is given up when its pipe is found empty. -/
theorem watched_afterRead {now : ℤ} {w : WorkerProcess} {bytesRead : ℤ}
    (hw : w.watched = true) :
    (afterRead now w bytesRead).watched = true ↔ bytesRead ≠ 0 := by
  rw [WorkerProcess.watched, Bool.and_eq_true, decide_eq_true_eq, decide_eq_true_eq] at hw ⊢
  rw [afterRead_pipeFromWorker, and_iff_left hw.2, afterRead]
  split_ifs with hfull hzero
  · simp [hzero]
  · simp [hzero, hw.1]
  · have hne : bytesRead ≠ 0 := by
      rw [not_not.mp hfull]
      decide
    simp [hne]

theorem foldl_max_eq_neg_one {l : List (Fin n)} {m : ℤ} (hm : -1 ≤ m) :
    l.foldl (fun m i => if (pool.workers i).watched then
      max m (pool.workers i).pipeFromWorker.readEnd else m) m = -1 ↔
      m = -1 ∧ ∀ i ∈ l, (pool.workers i).watched = true →
        (pool.workers i).pipeFromWorker.readEnd ≤ -1 := by
  induction l generalizing m with
  | nil => simp
  | cons i l ih =>
    rw [List.foldl_cons, List.forall_mem_cons]
    split_ifs with hwatched
    · rw [ih (le_max_of_le_left hm)]
      constructor
      · rintro ⟨hmax, hrest⟩
        exact ⟨by omega, fun _ => by omega, hrest⟩
      · rintro ⟨rfl, hi, hrest⟩
        exact ⟨max_eq_left (hi hwatched), hrest⟩
    · rw [ih hm]
      constructor
      · rintro ⟨hm, hrest⟩
        exact ⟨hm, fun h => absurd h hwatched, hrest⟩
      · rintro ⟨hm, -, hrest⟩
        exact ⟨hm, hrest⟩

/-- `select` is called unless no worker can be watched. -/
theorem maxFd_eq_neg_one_iff (hfds : FdsValid pool) :
    maxFd pool = -1 ↔ ∀ i, ¬ (pool.workers i).watched = true := by
  rw [maxFd, foldl_max_eq_neg_one le_rfl, and_iff_right rfl]
  refine ⟨fun h i hwatched => ?_, fun h i _ hwatched => absurd hwatched (h i)⟩
  have hle := h i (List.mem_finRange i) hwatched
  have hvalid := hfds i hwatched
  omega

/-- The record of one worker after its pipe was read. -/
def readWorker (pool : ProcessPool n) (now : ℤ) (reading : Reading) (i : Fin n) : ProcessPool n :=
  { pool with workers :=
    Function.update pool.workers i (afterRead now (pool.workers i) reading.result.returned) }

variable {isset : Fin n → Bool} {readings : Fin n → Reading} {now : ℤ} {l : List (Fin n)}
  {i : Fin n}

/-- The three ways of the loop. -/
theorem receiveAmong_cons : receiveAmong isset readings now (i :: l) pool =
    if (pool.workers i).watched && isset i then
      if (readings i).result.returned = (sizeofTaskResult : ℤ) then
        (some (readings i).result.data, readWorker pool now (readings i) i)
      else receiveAmong isset readings now l (readWorker pool now (readings i) i)
    else receiveAmong isset readings now l pool := rfl

theorem readWorker_self {reading : Reading} : (readWorker pool now reading i).workers i =
    afterRead now (pool.workers i) reading.result.returned :=
  Function.update_self _ _ _

theorem readWorker_of_ne {reading : Reading} {j : Fin n} (hj : j ≠ i) :
    (readWorker pool now reading i).workers j = pool.workers j :=
  Function.update_of_ne hj _ _

theorem readWorker_pipeFromWorker {reading : Reading} (j : Fin n) :
    ((readWorker pool now reading i).workers j).pipeFromWorker =
      (pool.workers j).pipeFromWorker := by
  by_cases hj : j = i
  · rw [hj, readWorker_self, afterRead_pipeFromWorker]
  · rw [readWorker_of_ne hj]

/-- Reading the pipes changes neither `running` nor the descriptors. -/
theorem receiveAmong_keeps : (receiveAmong isset readings now l pool).2.running = pool.running ∧
    ∀ j, ((receiveAmong isset readings now l pool).2.workers j).pipeFromWorker =
      (pool.workers j).pipeFromWorker := by
  induction l generalizing pool with
  | nil => exact ⟨rfl, fun _ => rfl⟩
  | cons i l ih =>
    rw [receiveAmong_cons]
    split_ifs
    · exact ⟨rfl, readWorker_pipeFromWorker⟩
    · exact ⟨ih.1, fun j => (ih.2 j).trans (readWorker_pipeFromWorker j)⟩
    · exact ih

/-- A result is found when the pipe of some worker that is watched has a whole one. -/
theorem receiveAmong_isSome_iff (hl : l.Nodup) :
    (receiveAmong isset readings now l pool).1.isSome = true ↔
      ∃ i ∈ l, (pool.workers i).watched = true ∧ isset i = true ∧
        (readings i).result.returned = (sizeofTaskResult : ℤ) := by
  induction l generalizing pool with
  | nil => simp [receiveAmong]
  | cons i l ih =>
    obtain ⟨hi, hl⟩ := List.nodup_cons.mp hl
    rw [receiveAmong_cons]
    split_ifs with hread hfull
    · rw [Bool.and_eq_true] at hread
      exact iff_of_true rfl ⟨i, List.mem_cons_self, hread.1, hread.2, hfull⟩
    · have hothers : ∀ j ∈ l, (readWorker pool now (readings i) i).workers j =
          pool.workers j := fun j hj => readWorker_of_ne fun hji => hi (hji ▸ hj)
      rw [ih hl, List.exists_mem_cons_iff]
      constructor
      · rintro ⟨j, hj, hrest⟩
        rw [hothers j hj] at hrest
        exact Or.inr ⟨j, hj, hrest⟩
      · rintro (⟨-, -, hwhole⟩ | ⟨j, hj, hrest⟩)
        · exact absurd hwhole hfull
        · rw [← hothers j hj] at hrest
          exact ⟨j, hj, hrest⟩
    · rw [ih hl, List.exists_mem_cons_iff]
      refine ⟨Or.inr, fun h => h.resolve_left fun ⟨hwatched, hset, _⟩ => hread ?_⟩
      rw [hwatched, hset]
      rfl

/-- Without a result exactly those workers are given up whose pipes were read and found
empty. -/
theorem receiveAmong_watched (hl : l.Nodup)
    (hnone : (receiveAmong isset readings now l pool).1 = none) (j : Fin n) :
    ((receiveAmong isset readings now l pool).2.workers j).watched = true ↔
      (pool.workers j).watched = true ∧
        (j ∈ l → ¬ (isset j = true ∧ (readings j).result.returned = 0)) := by
  induction l generalizing pool with
  | nil => simp [receiveAmong]
  | cons i l ih =>
    obtain ⟨hi, hl⟩ := List.nodup_cons.mp hl
    rw [receiveAmong_cons] at hnone ⊢
    split_ifs at hnone ⊢ with hread hfull
    · rw [Bool.and_eq_true] at hread
      rw [ih hl hnone]
      by_cases hji : j = i
      · subst hji
        have hself : ((readWorker pool now (readings j) j).workers j).watched = true ↔
            (readings j).result.returned ≠ 0 := by
          rw [readWorker_self, watched_afterRead hread.1]
        rw [hself]
        constructor
        · rintro ⟨hne, -⟩
          exact ⟨hread.1, fun _ hempty => hne hempty.2⟩
        · rintro ⟨-, hnot⟩
          exact ⟨fun hzero => hnot List.mem_cons_self ⟨hread.2, hzero⟩, fun hj => absurd hj hi⟩
      · rw [readWorker_of_ne hji, List.mem_cons, or_iff_right hji]
    · rw [ih hl hnone]
      by_cases hji : j = i
      · subst hji
        refine and_congr_right fun hwatched => iff_of_true (fun hj => absurd hj hi) fun _ h => ?_
        rw [hwatched, h.1] at hread
        exact hread rfl
      · rw [List.mem_cons, or_iff_right hji]

/-! ## One round -/

theorem resultRound_returned (hrunning : pool.running = true) (hfds : FdsValid pool) :
    (resultRound ⟨pool, none⟩ round).returned.isSome = true ↔
      ∃ i, (pool.workers i).watched = true ∧ round.Answers i := by
  simp only [resultRound, hrunning, Bool.true_eq_false, if_false]
  split_ifs with hmax
  · rw [maxFd_eq_neg_one_iff hfds] at hmax
    exact iff_of_false Bool.false_ne_true fun ⟨i, hi, _⟩ => hmax i hi
  · rw [maxFd_eq_neg_one_iff hfds, not_forall] at hmax
    obtain ⟨i, hi⟩ := hmax
    rw [not_not] at hi
    cases round with
    | interrupted => exact iff_of_false Bool.false_ne_true fun ⟨_, _, h⟩ => h
    | failed => exact iff_of_true rfl ⟨i, hi, trivial⟩
    | timedOut => exact iff_of_true rfl ⟨i, hi, trivial⟩
    | ready isset readings now =>
      simp only [Option.isSome_map, receiveAmong_isSome_iff (List.nodup_finRange n),
        List.mem_finRange, true_and, SelectRound.Answers]

/-- A round that ends without an answer. -/
theorem resultRound_continues (hrunning : pool.running = true) (hfds : FdsValid pool)
    (hnone : (resultRound ⟨pool, none⟩ round).returned = none) : ∃ pool',
      resultRound ⟨pool, none⟩ round = ⟨pool', none⟩ ∧ pool'.running = true ∧ FdsValid pool' ∧
        ∀ i, (pool'.workers i).watched = true ↔
          (pool.workers i).watched = true ∧ ¬ round.Empties i := by
  have hsame : (∀ i, ¬ ((pool.workers i).watched = true ∧ round.Empties i)) → ∃ pool',
      (⟨pool, none⟩ : Waiting n) = ⟨pool', none⟩ ∧ pool'.running = true ∧ FdsValid pool' ∧
        ∀ i, (pool'.workers i).watched = true ↔
          (pool.workers i).watched = true ∧ ¬ round.Empties i := by
    intro hnot
    refine ⟨pool, rfl, hrunning, hfds, fun i => ?_⟩
    exact ⟨fun hi => ⟨hi, fun hempty => hnot i ⟨hi, hempty⟩⟩, And.left⟩
  simp only [resultRound, hrunning, Bool.true_eq_false, if_false] at hnone ⊢
  split_ifs at hnone ⊢ with hmax
  · rw [maxFd_eq_neg_one_iff hfds] at hmax
    exact hsame fun i hi => hmax i hi.1
  · cases round with
    | interrupted => exact hsame fun i hi => hi.2
    | failed => cases hnone
    | timedOut => cases hnone
    | ready isset readings now =>
      have hnothing : (receiveAmong isset readings now (List.finRange n) pool).1 = none :=
        Option.map_eq_none_iff.mp hnone
      have hkeeps : (receiveAmong isset readings now (List.finRange n) pool).2.running =
          pool.running ∧ _ := receiveAmong_keeps
      refine ⟨(receiveAmong isset readings now (List.finRange n) pool).2, ?_,
        hkeeps.1.trans hrunning, fun i hwatched => ?_, fun i => ?_⟩
      · simp only [hnothing, Option.map_none]
      · rw [receiveAmong_watched (List.nodup_finRange n) hnothing] at hwatched
        rw [hkeeps.2]
        exact hfds i hwatched.1
      · rw [receiveAmong_watched (List.nodup_finRange n) hnothing]
        simp only [List.mem_finRange, true_imp_iff, SelectRound.Empties]

/-! ## All rounds -/

theorem stillWatched_succ {pool' : ProcessPool n} {k : ℕ} {i : Fin n}
    (hnext : (pool'.workers i).watched = true ↔
      (pool.workers i).watched = true ∧ ¬ (rounds 0).Empties i) :
    StillWatched pool' (fun j => rounds (j + 1)) k i ↔ StillWatched pool rounds (k + 1) i := by
  rw [StillWatched, StillWatched, hnext]
  constructor
  · rintro ⟨⟨hwatched, hfirst⟩, hrest⟩
    refine ⟨hwatched, fun j hj => ?_⟩
    cases j with
    | zero => exact hfirst
    | succ j => exact hrest j (Nat.lt_of_succ_lt_succ hj)
  · rintro ⟨hwatched, hrest⟩
    exact ⟨⟨hwatched, hrest 0 (Nat.succ_pos k)⟩, fun j hj =>
      hrest (j + 1) (Nat.succ_lt_succ hj)⟩

/-- The wait goes on as the wait from the pool that a round leaves. -/
theorem returns_iff_of_continues {pool' : ProcessPool n}
    (hround : resultRound ⟨pool, none⟩ (rounds 0) = ⟨pool', none⟩) :
    Returns pool rounds ↔ Returns pool' fun j => rounds (j + 1) := by
  have hfeed : feed resultRound (⟨pool, none⟩, rounds) =
      (⟨pool', none⟩, fun j => rounds (j + 1)) := by
    rw [feed, hround]
  have hgoes : ¬ HasReturned ((⟨pool, none⟩, rounds) : Waiting n × (ℕ → SelectRound n)) :=
    Bool.false_ne_true
  rw [Returns, ends_iff_step hgoes, hfeed, Returns]

theorem answered_iff_of_continues {pool' : ProcessPool n}
    (hfirst : ¬ ∃ i, (pool.workers i).watched = true ∧ (rounds 0).Answers i)
    (hnext : ∀ i, (pool'.workers i).watched = true ↔
      (pool.workers i).watched = true ∧ ¬ (rounds 0).Empties i) :
    Answered pool rounds ↔ Answered pool' fun j => rounds (j + 1) := by
  constructor
  · rintro ⟨k, i, hwatched, hanswers⟩
    cases k with
    | zero => exact absurd ⟨i, hwatched.1, hanswers⟩ hfirst
    | succ k => exact ⟨k, i, (stillWatched_succ (hnext i)).mpr hwatched, hanswers⟩
  · rintro ⟨k, i, hwatched, hanswers⟩
    exact ⟨k + 1, i, (stillWatched_succ (hnext i)).mp hwatched, hanswers⟩

end

/-- With `running` set, `process_pool_get_result` leaves its loop exactly when some round, with
a worker that can still be watched, ends the wait or brings a whole result. -/
theorem returns_iff_answered {n : ℕ} {pool : ProcessPool n} (hrunning : pool.running = true)
    (hfds : FdsValid pool) (rounds : ℕ → SelectRound n) :
    Returns pool rounds ↔ Answered pool rounds := by
  constructor
  · rintro ⟨k, hk⟩
    induction k generalizing pool rounds with
    | zero => cases hk
    | succ k ih =>
      by_cases hfirst : ∃ i, (pool.workers i).watched = true ∧ (rounds 0).Answers i
      · obtain ⟨i, hwatched, hanswers⟩ := hfirst
        exact ⟨0, i, ⟨hwatched, nofun⟩, hanswers⟩
      · have hnone : (resultRound ⟨pool, none⟩ (rounds 0)).returned = none := by
          rwa [← resultRound_returned hrunning hfds, Option.not_isSome_iff_eq_none] at hfirst
        obtain ⟨pool', hround, hrunning', hfds', hnext⟩ :=
          resultRound_continues hrunning hfds hnone
        rw [answered_iff_of_continues hfirst hnext]
        rw [Function.iterate_succ_apply, feed] at hk
        simp only [hround] at hk
        exact ih hrunning' hfds' _ hk
  · rintro ⟨k, i, hwatched, hanswers⟩
    induction k generalizing pool rounds with
    | zero => exact ⟨1, (resultRound_returned hrunning hfds).mpr ⟨i, hwatched.1, hanswers⟩⟩
    | succ k ih =>
      by_cases hfirst : ∃ i, (pool.workers i).watched = true ∧ (rounds 0).Answers i
      · exact ⟨1, (resultRound_returned hrunning hfds).mpr hfirst⟩
      · have hnone : (resultRound ⟨pool, none⟩ (rounds 0)).returned = none := by
          rwa [← resultRound_returned hrunning hfds, Option.not_isSome_iff_eq_none] at hfirst
        obtain ⟨pool', hround, hrunning', hfds', hnext⟩ :=
          resultRound_continues hrunning hfds hnone
        rw [returns_iff_of_continues hround]
        exact ih hrunning' hfds' (fun j => rounds (j + 1))
          ((stillWatched_succ (hnext i)).mpr hwatched) hanswers

/-- A pool of one worker with the given status and with open pipes. -/
def poolOfOne (status : WorkerStatus) : ProcessPool 1 where
  workers := fun _ => ⟨7, status, ⟨-1, 4⟩, ⟨5, -1⟩, 0, -1⟩
  taskQueue := initTaskQueue
  running := true
  nextTaskId := 1

theorem fdsValid_poolOfOne (status : WorkerStatus) : FdsValid (poolOfOne status) :=
  fun _ _ => show (0 : ℤ) ≤ 5 by decide

/-- The worker is there, and the timeout passes. -/
theorem returns_iff_answered_idle : Returns (poolOfOne .idle) fun _ => .timedOut :=
  (returns_iff_answered rfl (fdsValid_poolOfOne _) _).mpr ⟨0, 0, ⟨rfl, nofun⟩, trivial⟩

/-- No worker can be watched, and the timeout is not looked at. -/
theorem not_returns_without_workers : ¬ ∀ (n : ℕ) (pool : ProcessPool n)
    (rounds : ℕ → SelectRound n), pool.running = true → FdsValid pool →
      (∃ m, ∀ k, m ≤ k → rounds k ≠ .interrupted) → Returns pool rounds := by
  intro h
  have hreturns : Returns (poolOfOne .dead) fun _ => .timedOut :=
    h 1 (poolOfOne .dead) (fun _ => .timedOut) rfl (fdsValid_poolOfOne _) ⟨0, fun _ _ => nofun⟩
  refine not_ends_of_invariant (I := fun p => p.1 = ⟨poolOfOne .dead, none⟩) ?_ ?_ ?_ hreturns
  · rintro ⟨_, rounds⟩ rfl
    rfl
  · rintro ⟨_, rounds⟩ rfl
    exact Bool.false_ne_true
  · rfl

end ByteReads

end PipePool

end ProcessThreadPool
