import ProcessThreadPool.Lib.Transition
import ProcessThreadPool.PipePool.Pool

/-!
# What `safe_read` makes of the outcomes of `read`

`safe_read` on a non-blocking pipe, with its callers in both processes:
`receive_result_from_worker` in the master and the loop of `worker_main`. The number that
`safe_read` returns is 0 at the end of the file, and also when the pipe is empty.
-/

namespace ProcessThreadPool

namespace PipePool

namespace ByteReads

open Transition

/-- How `read` ends: with a positive number of bytes, of which it takes as many as were asked
for, interrupted, with `EAGAIN`, at the end of the file, or with another error. -/
inductive ReadOutcome where
  | bytes (first : UInt8) (rest : List UInt8)
  | interrupted
  | again
  | eof
  | failed
  deriving DecidableEq, Repr

/-- What `safe_read` returns and leaves in the buffer, and the outcome that has ended its loop,
unless the buffer was full. -/
structure SafeRead where
  returned : ℤ
  data : List UInt8
  stopped : Option ReadOutcome
  deriving DecidableEq, Repr

/-- The loop of `safe_read` with the bytes that have been read. `none`: after the given
outcomes it is still in its loop. -/
def safeReadLoop (count : ℕ) : List ReadOutcome → List UInt8 → Option SafeRead
  | [], got => if got.length < count then none else some ⟨got.length, got, none⟩
  | outcome :: outcomes, got =>
      if got.length < count then
        match outcome with
        | .bytes first rest =>
            safeReadLoop count outcomes (got ++ (first :: rest).take (count - got.length))
        | .interrupted => safeReadLoop count outcomes got
        | .again => some ⟨got.length, got, some .again⟩
        | .eof => some ⟨got.length, got, some .eof⟩
        | .failed => some ⟨-1, got, some .failed⟩
      else some ⟨got.length, got, none⟩

/-- `safe_read`. -/
def safeRead (count : ℕ) (outcomes : List ReadOutcome) : Option SafeRead :=
  safeReadLoop count outcomes []

/-- `sizeof(task_t)`. -/
def sizeofTask : ℕ := 1032

/-- `sizeof(task_result_t)`. -/
def sizeofTaskResult : ℕ := 1036

/-- What `receive_result_from_worker` does to the record when `safe_read` has returned. -/
def afterRead (now : ℤ) (w : WorkerProcess) (bytesRead : ℤ) : WorkerProcess :=
  if bytesRead ≠ sizeofTaskResult then
    if bytesRead = 0 then { w with status := .dead } else w
  else { w with
    status := .idle
    currentTaskId := -1
    lastActive := now }

/-- `receive_result_from_worker`: its result, the record, and what `safe_read` has done. -/
def receiveResultFromWorker (now : ℤ) (w : WorkerProcess) (outcomes : List ReadOutcome) :
    Option (ℤ × WorkerProcess × SafeRead) :=
  (safeRead sizeofTaskResult outcomes).map fun r =>
    (if r.returned ≠ (sizeofTaskResult : ℤ) then -1 else 0, afterRead now w r.returned, r)

/-- Once round the loop of `worker_main`: `worker_should_exit` is set, or `select` is
interrupted, fails, times out or returns. `isset` is the bit that it leaves for the task pipe,
`written` says that all of the result could be written. -/
inductive Round where
  | told
  | interrupted
  | selectFailed
  | timedOut
  | ready (isset : Bool) (outcomes : List ReadOutcome) (written : Bool)
  deriving DecidableEq, Repr

/-- Why `worker_main` leaves its loop. For a zero result of `safe_read`, with the outcome that
has ended that. -/
inductive Exit where
  | told
  | selectFailed
  | zeroRead (stopped : Option ReadOutcome)
  | notSent
  deriving DecidableEq, Repr

/-- The body of the loop of `worker_main`, and whether it leaves the loop. -/
def workerRound : Round → Option (Option Exit)
  | .told => some (some .told)
  | .interrupted | .timedOut => some none
  | .selectFailed => some (some .selectFailed)
  | .ready false _ _ => some none
  | .ready true outcomes written =>
      (safeRead sizeofTask outcomes).map fun r =>
        if r.returned = 0 then some (.zeroRead r.stopped)
        else if r.returned ≠ (sizeofTask : ℤ) then none
        else if written then none
        else some .notSent

/-- `worker_main`, in its loop until it has left it. -/
def workerMain : System (Option Exit) Round :=
  System.ofFun none fun s round => if s = none then workerRound round else none

/-- The call sets the status to `DEAD` only if `safe_read` has met the end of the file. -/
def DeadOnlyAtEof (now : ℤ) (w : WorkerProcess) (outcomes : List ReadOutcome) : Prop :=
  ∀ returned w' r, receiveResultFromWorker now w outcomes = some (returned, w', r) →
    w'.status = .dead → w.status = .dead ∨ r.stopped = some .eof

/-- A zero result of `safe_read` has ended the loop only if the pipe was closed. -/
def LeftAtEof (s : Option Exit) : Prop :=
  ∀ stopped, s = some (.zeroRead stopped) → stopped = some .eof

/-- The first outcome other than `EINTR` is `EAGAIN`. -/
def MeetsAgain (outcomes : List ReadOutcome) : Prop :=
  (outcomes.dropWhile (· = .interrupted)).head? = some .again

/-- The task pipe is read in this round and turns out to be empty. -/
def Round.MeetsAgain : Round → Prop
  | .ready true outcomes _ => ByteReads.MeetsAgain outcomes
  | _ => False

section

variable {count : ℕ} {outcomes : List ReadOutcome} {got : List UInt8} {r : SafeRead}

theorem safeReadLoop_full (hfull : ¬ got.length < count) :
    safeReadLoop count outcomes got = some ⟨got.length, got, none⟩ := by
  cases outcomes with
  | nil => rw [safeReadLoop, if_neg hfull]
  | cons outcome outcomes => cases outcome <;> rw [safeReadLoop, if_neg hfull]

/-- What has been read stays in the buffer. -/
theorem prefix_safeReadLoop (h : safeReadLoop count outcomes got = some r) :
    got <+: r.data ∧ (r.returned = -1 ∨ r.returned = r.data.length) := by
  by_cases hroom : got.length < count
  · induction outcomes generalizing got with
    | nil =>
      rw [safeReadLoop, if_pos hroom] at h
      cases h
    | cons outcome outcomes ih =>
      cases outcome with
      | bytes first rest =>
        rw [safeReadLoop, if_pos hroom] at h
        have hgot := List.prefix_append got ((first :: rest).take (count - got.length))
        by_cases hmore : (got ++ (first :: rest).take (count - got.length)).length < count
        · obtain ⟨hbegins, hreturned⟩ := ih h hmore
          exact ⟨hgot.trans hbegins, hreturned⟩
        · rw [safeReadLoop_full hmore] at h
          obtain rfl := Option.some.inj h
          exact ⟨hgot, Or.inr rfl⟩
      | interrupted =>
        rw [safeReadLoop, if_pos hroom] at h
        exact ih h hroom
      | failed =>
        rw [safeReadLoop, if_pos hroom] at h
        obtain rfl := Option.some.inj h
        exact ⟨List.prefix_refl _, Or.inl rfl⟩
      | _ =>
        rw [safeReadLoop, if_pos hroom] at h
        obtain rfl := Option.some.inj h
        exact ⟨List.prefix_refl _, Or.inr rfl⟩
  · rw [safeReadLoop_full hroom] at h
    obtain rfl := Option.some.inj h
    exact ⟨List.prefix_refl _, Or.inr rfl⟩

/-- After some bytes the number that is returned is not zero. -/
theorem returned_ne_zero (hgot : got ≠ []) (h : safeReadLoop count outcomes got = some r) :
    r.returned ≠ 0 := by
  obtain ⟨hbegins, hfailed | hlength⟩ := prefix_safeReadLoop h
  · rw [hfailed]
    decide
  · have hpos := List.length_pos_of_ne_nil hgot
    have hle := hbegins.length_le
    rw [hlength]
    omega

/-- `safe_read` returns zero at an outcome that no byte has preceded. -/
theorem stopped_of_zero (hcount : 0 < count) (h : safeRead count outcomes = some r)
    (hzero : r.returned = 0) : (outcomes.dropWhile (· = .interrupted)).head? = r.stopped ∧
      (r.stopped = some .again ∨ r.stopped = some .eof) := by
  have hroom : ([] : List UInt8).length < count := hcount
  rw [safeRead] at h
  induction outcomes with
  | nil =>
    rw [safeReadLoop, if_pos hroom] at h
    cases h
  | cons outcome outcomes ih =>
    cases outcome with
    | bytes first rest =>
      rw [safeReadLoop, if_pos hroom] at h
      have hgot : [] ++ (first :: rest).take (count - ([] : List UInt8).length) ≠ [] := by
        obtain ⟨n, rfl⟩ := Nat.exists_eq_succ_of_ne_zero hcount.ne'
        exact List.cons_ne_nil _ _
      exact absurd hzero (returned_ne_zero hgot h)
    | interrupted =>
      rw [safeReadLoop, if_pos hroom] at h
      exact ih h
    | again =>
      rw [safeReadLoop, if_pos hroom] at h
      obtain rfl := Option.some.inj h
      exact ⟨rfl, Or.inl rfl⟩
    | eof =>
      rw [safeReadLoop, if_pos hroom] at h
      obtain rfl := Option.some.inj h
      exact ⟨rfl, Or.inr rfl⟩
    | failed =>
      rw [safeReadLoop, if_pos hroom] at h
      obtain rfl := Option.some.inj h
      cases hzero

theorem safeRead_of_meetsAgain (hcount : 0 < count) (h : MeetsAgain outcomes) :
    safeRead count outcomes = some ⟨0, [], some .again⟩ := by
  have hroom : ([] : List UInt8).length < count := hcount
  rw [safeRead]
  induction outcomes with
  | nil => cases h
  | cons outcome outcomes ih =>
    cases outcome with
    | interrupted =>
      rw [safeReadLoop, if_pos hroom]
      exact ih h
    | again =>
      rw [safeReadLoop, if_pos hroom]
      rfl
    | _ => cases h

/-- A zero result stands for the end of the file exactly when the pipe was not empty. -/
theorem eof_of_zero_iff (hcount : 0 < count) :
    (∀ r, safeRead count outcomes = some r → r.returned = 0 → r.stopped = some .eof) ↔
      ¬ MeetsAgain outcomes := by
  constructor
  · intro h hagain
    cases h _ (safeRead_of_meetsAgain hcount hagain) rfl
  · intro hagain r h hzero
    obtain ⟨hhead, hstopped | hstopped⟩ := stopped_of_zero hcount h hzero
    · exact absurd (hhead.trans hstopped) hagain
    · exact hstopped

/-! ## The two callers -/

theorem afterRead_dead {now : ℤ} {w : WorkerProcess} {bytesRead : ℤ}
    (h : (afterRead now w bytesRead).status = .dead) : w.status = .dead ∨ bytesRead = 0 := by
  rw [afterRead] at h
  split_ifs at h with hfull hzero
  · exact Or.inr hzero
  · exact Or.inl h

theorem deadOnlyAtEof_iff {now : ℤ} {w : WorkerProcess} :
    DeadOnlyAtEof now w outcomes ↔ w.status = .dead ∨ ¬ MeetsAgain outcomes := by
  have hsize : 0 < sizeofTaskResult := by decide
  constructor
  · intro h
    by_contra hnot
    obtain ⟨halive, hagain⟩ := not_or.mp hnot
    have hread := safeRead_of_meetsAgain hsize (not_not.mp hagain)
    have hcall : receiveResultFromWorker now w outcomes =
        some (-1, { w with status := .dead }, ⟨0, [], some .again⟩) := by
      rw [receiveResultFromWorker, hread, Option.map_some]
      rfl
    rcases h _ _ _ hcall rfl with hdead | heof
    · exact halive hdead
    · cases heof
  · rintro (hdead | hagain) returned w' r hcall hstatus
    · exact Or.inl hdead
    · obtain ⟨r', hread, hr⟩ := Option.map_eq_some_iff.mp hcall
      cases hr
      exact (afterRead_dead hstatus).imp_right ((eof_of_zero_iff hsize).mpr hagain r hread)

theorem leftAtEof_iff {s t : Option Exit} {round : Round} (hstep : workerMain.step s round t) :
    LeftAtEof t ↔ ¬ round.MeetsAgain := by
  obtain ⟨-, hround⟩ := Option.ite_none_right_eq_some.mp hstep
  have hcontinues : ∀ t : Option Exit, (∀ stopped, t ≠ some (.zeroRead stopped)) →
      LeftAtEof t := fun t hne stopped ht => absurd ht (hne stopped)
  cases round with
  | ready isset outcomes written =>
    cases isset with
    | false =>
      obtain rfl := Option.some.inj hround
      exact iff_of_true (hcontinues _ nofun) id
    | true =>
      obtain ⟨r, hread, rfl⟩ := Option.map_eq_some_iff.mp hround
      have hsize : 0 < sizeofTask := by decide
      rw [Round.MeetsAgain, ← eof_of_zero_iff hsize]
      constructor
      · intro hleft r' hread' hzero
        obtain rfl := Option.some.inj (hread.symm.trans hread')
        exact hleft r.stopped (if_pos hzero)
      · intro heof
        split_ifs with hzero
        · rintro stopped ⟨⟩
          exact heof r hread hzero
        all_goals exact hcontinues _ nofun
  | _ =>
    obtain rfl := Option.some.inj hround
    exact iff_of_true (hcontinues _ nofun) id

end

/-- The master takes a worker for dead, and a worker leaves its loop, only at the end of the
file exactly when no read meets `EAGAIN` before anything else. -/
theorem only_eof_kills_iff (now : ℤ) (w : WorkerProcess) (outcomes : List ReadOutcome)
    (rounds : List Round) (s : Option Exit) :
    (DeadOnlyAtEof now w outcomes ↔ w.status = .dead ∨ ¬ MeetsAgain outcomes) ∧
      (Run (workerMain.filter fun _ _ t => LeftAtEof t) none rounds s ↔
        Run (workerMain.restrict fun _ round => ¬ round.MeetsAgain) none rounds s) := by
  refine ⟨deadOnlyAtEof_iff, run_filter_iff_restrict (I := fun _ => True) ?_ ?_ trivial⟩
  · exact fun _ _ _ _ _ _ => trivial
  · exact fun _ _ _ _ hstep => leftAtEof_iff hstep

/-- The pipe of a worker that is running is empty, and the master marks it `DEAD`. -/
theorem not_deadOnlyAtEof_again :
    ¬ ∀ now w outcomes, DeadOnlyAtEof now w outcomes := by
  intro h
  have hcall : receiveResultFromWorker 0 .zero [.interrupted, .again] =
      some (-1, { WorkerProcess.zero with status := .dead }, ⟨0, [], some .again⟩) := by decide
  rcases h _ _ _ _ _ _ hcall rfl with hdead | heof
  · cases hdead
  · cases heof

/-! ## The pipe as a list of results -/

/-- The number that `safe_read` returns for an outcome on a pipe that holds whole results. -/
def ReadResult.returned : ReadResult → ℤ
  | .full _ _ => sizeofTaskResult
  | .empty => 0
  | .failed => -1

/-- On such a pipe the record changes in the same way. -/
theorem receiveResultFromWorker_record (k : Kernel) (w : WorkerProcess) (readOk : Bool) :
    (PipePool.receiveResultFromWorker k w readOk).2.1 =
      afterRead k.now w
        (ReadResult.returned (k.readResult w.pipeFromWorker.readEnd readOk)) := by
  rw [PipePool.receiveResultFromWorker]
  cases k.readResult w.pipeFromWorker.readEnd readOk <;> rfl

end ByteReads

end PipePool

end ProcessThreadPool
