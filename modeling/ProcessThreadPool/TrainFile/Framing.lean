import ProcessThreadPool.Lib.DrivenLoop
import ProcessThreadPool.TrainFile.Protocol

/-!
# The trains of a transfer

`transFile` round by round, for every way in which `open` and the reads of the file go. Only a
read of zero bytes ends the loop, and a failed read puts `-1` into the header of the train.
-/

namespace ProcessThreadPool

namespace TrainFile

open DrivenLoop

/-- What `read` of the file returns: a number of bytes that fits into the car, 0, or -1. -/
inductive FileRead where
  | car (chunk : List UInt8) (pos : 0 < chunk.length) (fits : chunk.length ≤ carSize)
  | eof
  | failed

/-- The outcome for the loop of `transFile`. -/
def FileRead.outcome : FileRead → ReadOutcome
  | .car chunk _ _ => .bytes chunk
  | .eof => .bytes []
  | .failed => .failed

/-- The trains that `transFile` has sent, and whether it has left its loop. -/
structure Transfer where
  sent : List (List UInt8)
  returned : Bool
  deriving DecidableEq, Repr

/-- The trains before the loop. -/
def Transfer.start (layout : Layout) (filesize : ℤ) : Transfer where
  sent := [sendTrain layout fileName.length fileName,
    sendTrain layout 8 (layout.offT.encode filesize)]
  returned := false

/-- Once round the loop of `transFile`. -/
def transferRound (layout : Layout) (s : Transfer) (read : FileRead) : Transfer :=
  if s.returned then s
  else
    match read.outcome with
    | .bytes chunk =>
        ⟨s.sent ++ [sendTrain layout chunk.length chunk], decide (chunk.length = 0)⟩
    | .failed => ⟨s.sent ++ [sendTrain layout (-1) []], false⟩

/-- What the reads of the loop return. Without a descriptor they all fail. -/
def readsOf (opened : Bool) (reads : ℕ → FileRead) : ℕ → FileRead :=
  if opened then reads else fun _ => .failed

/-- The header says how many bytes follow it, and these fit into the car. -/
def WellFormed (layout : Layout) (train : List UInt8) : Prop :=
  ∃ payload : List UInt8, payload.length ≤ carSize ∧
    train = layout.int.encode payload.length ++ payload

/-- `transFile` comes to its end, and all trains that it sends are well formed. -/
def EndsWell (layout : Layout) (filesize : ℤ) (opened : Bool) (reads : ℕ → FileRead) : Prop :=
  Settles (feed (transferRound layout)) (fun p => p.1.returned = true)
    (fun p => ∀ train ∈ p.1.sent, WellFormed layout train)
    (Transfer.start layout filesize, readsOf opened reads)

/-- No read fails before the end of the file, which is reached. -/
def ReadsThrough (reads : ℕ → FileRead) : Prop :=
  ∃ k, reads k = .eof ∧ ∀ j < k, reads j ≠ .failed

section

variable {layout : Layout} {s : Transfer} {reads : ℕ → FileRead}

theorem wellFormed_sendTrain {data : List UInt8} (hdata : data.length ≤ carSize) :
    WellFormed layout (sendTrain layout data.length data) :=
  ⟨data, hdata, sendTrain_eq layout data⟩

theorem wellFormed_empty : WellFormed layout (sendTrain layout 0 []) := by
  have hfits : ([] : List UInt8).length ≤ carSize := Nat.zero_le carSize
  exact wellFormed_sendTrain hfits

/-- A train with the header `-1` is three bytes of the header. -/
theorem not_wellFormed_failed (layout : Layout) :
    ¬ WellFormed layout (sendTrain layout (-1) []) := by
  rintro ⟨payload, -, htrain⟩
  have hlength := congrArg List.length htrain
  have hint := layout.int.length_encode
  rw [sendTrain, List.length_take, List.length_append, List.length_append, hint, hint] at hlength
  have hthree : (4 + -1 : ℤ).toNat = 3 := rfl
  omega

theorem transferRound_car {chunk : List UInt8} {pos : 0 < chunk.length}
    {fits : chunk.length ≤ carSize} (hs : s.returned = false) :
    transferRound layout s (.car chunk pos fits) =
      ⟨s.sent ++ [sendTrain layout chunk.length chunk], false⟩ := by
  rw [transferRound, hs]
  simp only [FileRead.outcome, Bool.false_eq_true, if_false, pos.ne', decide_false]

theorem transferRound_eof (hs : s.returned = false) :
    transferRound layout s .eof = ⟨s.sent ++ [sendTrain layout 0 []], true⟩ := by
  rw [transferRound, hs]
  rfl

theorem transferRound_failed (hs : s.returned = false) :
    transferRound layout s .failed = ⟨s.sent ++ [sendTrain layout (-1) []], false⟩ := by
  rw [transferRound, hs]
  rfl

theorem readsThrough_iff : ReadsThrough reads ↔
    reads 0 = .eof ∨ reads 0 ≠ .failed ∧ ReadsThrough fun k => reads (k + 1) := by
  constructor
  · rintro ⟨k, hk, hbefore⟩
    cases k with
    | zero => exact Or.inl hk
    | succ k =>
      exact Or.inr ⟨hbefore 0 (Nat.succ_pos k), k, hk,
        fun j hj => hbefore (j + 1) (Nat.succ_lt_succ hj)⟩
  · rintro (heof | ⟨hread, k, hk, hbefore⟩)
    · exact ⟨0, heof, nofun⟩
    · refine ⟨k + 1, hk, fun j hj => ?_⟩
      cases j with
      | zero => exact hread
      | succ j => exact hbefore j (Nat.lt_of_succ_lt_succ hj)

/-- A well-formed train more. -/
theorem wellFormed_concat {trains : List (List UInt8)} {train : List UInt8}
    (htrains : ∀ t ∈ trains, WellFormed layout t) (htrain : WellFormed layout train) :
    ∀ t ∈ trains ++ [train], WellFormed layout t :=
  List.forall_mem_append.mpr ⟨htrains, List.forall_mem_singleton.mpr htrain⟩

/-- The loop of `transFile` settles. -/
def LoopSettles (layout : Layout) (s : Transfer) (reads : ℕ → FileRead) : Prop :=
  Settles (feed (transferRound layout)) (fun p => p.1.returned = true)
    (fun p => ∀ train ∈ p.1.sent, WellFormed layout train) (s, reads)

theorem loopSettles_iff_step (hs : s.returned = false) : LoopSettles layout s reads ↔
    (∀ train ∈ s.sent, WellFormed layout train) ∧
      LoopSettles layout (transferRound layout s (reads 0)) fun k => reads (k + 1) :=
  settles_iff_step (by simp [hs])

theorem loopSettles_of_returned (hs : s.returned = true)
    (hsent : ∀ train ∈ s.sent, WellFormed layout train) : LoopSettles layout s reads := by
  refine settles_of_invariant (I := fun p => p.1 = s) ?_ ?_ rfl
  · rintro ⟨_, reads'⟩ rfl
    exact if_pos hs
  · rintro ⟨_, reads'⟩ rfl
    exact ⟨hs, hsent⟩

theorem not_loopSettles_of_failed (hs : s.returned = false) :
    ¬ LoopSettles layout (transferRound layout s .failed) reads := by
  refine not_settles_of_not_ok fun hok => not_wellFormed_failed layout (hok _ ?_)
  rw [transferRound_failed hs]
  exact List.mem_append_right _ List.mem_cons_self

theorem readsThrough_of_loopSettles {k : ℕ} (hs : s.returned = false)
    (hends : ((feed (transferRound layout))^[k] (s, reads)).1.returned = true)
    (h : LoopSettles layout s reads) : ReadsThrough reads := by
  induction k generalizing s reads with
  | zero => cases hs.symm.trans hends
  | succ k ih =>
    have hnext := ((loopSettles_iff_step hs).mp h).2
    rw [readsThrough_iff]
    rw [Function.iterate_succ_apply, feed] at hends
    cases hread : reads 0 with
    | eof => exact Or.inl rfl
    | failed =>
      rw [hread] at hnext
      exact absurd hnext (not_loopSettles_of_failed hs)
    | car chunk pos fits =>
      rw [hread] at hnext
      simp only [hread] at hends
      rw [transferRound_car hs] at hnext hends
      exact Or.inr ⟨nofun, ih rfl hends hnext⟩

theorem loopSettles_of_readsThrough {k : ℕ} (hs : s.returned = false)
    (hsent : ∀ train ∈ s.sent, WellFormed layout train) (hk : reads k = .eof)
    (hbefore : ∀ j < k, reads j ≠ .failed) : LoopSettles layout s reads := by
  induction k generalizing s reads with
  | zero =>
    refine (loopSettles_iff_step hs).mpr ⟨hsent, ?_⟩
    rw [hk, transferRound_eof hs]
    exact loopSettles_of_returned rfl (wellFormed_concat hsent wellFormed_empty)
  | succ k ih =>
    have hrest : ∀ j < k, reads (j + 1) ≠ .failed := fun j hj =>
      hbefore (j + 1) (Nat.succ_lt_succ hj)
    refine (loopSettles_iff_step hs).mpr ⟨hsent, ?_⟩
    cases hread : reads 0 with
    | eof =>
      rw [transferRound_eof hs]
      exact loopSettles_of_returned rfl (wellFormed_concat hsent wellFormed_empty)
    | failed => exact absurd hread (hbefore 0 (Nat.succ_pos k))
    | car chunk pos fits =>
      rw [transferRound_car hs]
      exact ih rfl (wellFormed_concat hsent (wellFormed_sendTrain fits)) hk hrest

/-- The bytes that the loop sends up to the end of the file. -/
theorem sent_eq_sendChunks {k : ℕ} (hs : s.returned = false) (hk : reads k = .eof)
    (hbefore : ∀ j < k, reads j ≠ .eof) :
    ((feed (transferRound layout))^[k + 1] (s, reads)).1.sent.flatten =
      s.sent.flatten ++ sendChunks layout ((List.range k).map fun j => (reads j).outcome) := by
  induction k generalizing s reads with
  | zero =>
    rw [Function.iterate_one, feed]
    simp only [hk, transferRound_eof hs, List.flatten_append, List.flatten_singleton]
    rfl
  | succ k ih =>
    have hrest : ∀ j < k, reads (j + 1) ≠ .eof := fun j hj =>
      hbefore (j + 1) (Nat.succ_lt_succ hj)
    rw [Function.iterate_succ_apply, feed, List.range_succ_eq_map, List.map_cons, List.map_map]
    cases hread : reads 0 with
    | eof => exact absurd hread (hbefore 0 (Nat.succ_pos k))
    | failed =>
      simp only [hread, transferRound_failed hs]
      rw [ih rfl hk hrest, List.flatten_append, List.flatten_singleton, List.append_assoc]
      rfl
    | car chunk pos fits =>
      simp only [hread, transferRound_car hs]
      rw [ih rfl hk hrest, List.flatten_append, List.flatten_singleton, List.append_assoc,
        FileRead.outcome, sendChunks, if_neg pos.ne']
      rfl

end

/-- A transfer up to the end of the file sends what `transFile` does with the reads before
it. -/
theorem sent_eq_transFile {layout : Layout} {filesize : ℤ} {reads : ℕ → FileRead} {k : ℕ}
    (hk : reads k = .eof) (hbefore : ∀ j < k, reads j ≠ .eof) :
    ((feed (transferRound layout))^[k + 1] (.start layout filesize, reads)).1.sent.flatten =
      transFile layout filesize ((List.range k).map fun j => (reads j).outcome) := by
  have hstart : (Transfer.start layout filesize).sent.flatten =
      sendTrain layout fileName.length fileName ++
        sendTrain layout 8 (layout.offT.encode filesize) := by
    simp only [Transfer.start, List.flatten_cons, List.flatten_nil, List.append_nil]
  rw [sent_eq_sendChunks (s := .start layout filesize) rfl hk hbefore, hstart, transFile,
    List.append_assoc]

/-- The trains before the loop are well formed. -/
theorem wellFormed_start (layout : Layout) (filesize : ℤ) :
    ∀ train ∈ (Transfer.start layout filesize).sent, WellFormed layout train := by
  have hoff := layout.offT.length_encode filesize
  have hfits : (layout.offT.encode filesize).length ≤ carSize := by
    rw [hoff]
    decide
  have hsize : WellFormed layout (sendTrain layout _ (layout.offT.encode filesize)) :=
    wellFormed_sendTrain hfits
  rw [hoff] at hsize
  exact List.forall_mem_cons.mpr ⟨wellFormed_sendTrain (by decide),
    List.forall_mem_singleton.mpr hsize⟩

/-- A transfer comes to an end with well-formed trains exactly when the file could be opened
and read to its end. -/
theorem endsWell_iff (layout : Layout) (filesize : ℤ) (opened : Bool) (reads : ℕ → FileRead) :
    EndsWell layout filesize opened reads ↔ opened = true ∧ ReadsThrough reads := by
  have hloop : EndsWell layout filesize opened reads ↔
      ReadsThrough (readsOf opened reads) := by
    constructor
    · intro h
      obtain ⟨k, hk⟩ := h.ends
      exact readsThrough_of_loopSettles rfl hk h
    · rintro ⟨k, hk, hbefore⟩
      exact loopSettles_of_readsThrough rfl (wellFormed_start layout filesize) hk hbefore
  rw [hloop]
  cases opened with
  | true => exact (and_iff_right rfl).symm
  | false => exact iff_of_false (fun ⟨_, hk, _⟩ => nomatch hk) fun h => Bool.false_ne_true h.1

/-- The first read of the file fails. -/
theorem not_endsWell_failed : ¬ ∀ layout filesize opened reads,
    EndsWell layout filesize opened reads := by
  intro h
  have hsafe := (h .littleEndian 3 true fun _ => .failed).safe 1
  exact not_wellFormed_failed .littleEndian (hsafe _ (by decide))

end TrainFile

end ProcessThreadPool
