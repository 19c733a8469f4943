import ProcessThreadPool.ModernPool.Task

/-!
# The timeouts of `task_batch_wait`

`task_batch_wait` hands each future what is left of its own timeout. It computes the rest
in nanoseconds and truncates it to milliseconds, so in the last millisecond it passes 0,
which `task_wait` takes for no timeout at all.
-/

namespace ProcessThreadPool

namespace ModernPool

/-- `task_future_t`, as far as `future_wait` reads it. -/
structure TaskFuture (τ : Type*) where
  task : Option τ
  deriving DecidableEq, Repr

/-- `future_wait` on a future that is not `NULL`; `result` is what `task_wait` returns. -/
def futureWait {τ : Type*} (future : TaskFuture τ) (result : PoolError) : PoolError :=
  match future.task with
  | none => .invalidParam
  | some _ => result

/-- A call of `future_wait`: the position in the array, and the timeout passed. -/
structure WaitCall where
  index : ℕ
  timeoutMs : UInt32
  deriving DecidableEq, Repr

/-- `timeout_ns`. -/
def timeoutNs (timeoutMs : UInt32) : UInt64 := timeoutMs.toUInt64 * 1000000

/-- The loop of `task_batch_wait` from position `i` on, and the calls of `future_wait` it
makes. `now 0` is the clock before the loop, `now (i + 1)` the reading at position `i`, and
`results i` what `task_wait` returns there. -/
def batchWaitAmong {τ : Type*} (timeoutMs : UInt32) (now : ℕ → UInt64)
    (results : ℕ → PoolError) : ℕ → List (Option (TaskFuture τ)) → PoolError × List WaitCall
  | _, [] => (.success, [])
  | i, none :: futures => batchWaitAmong timeoutMs now results (i + 1) futures
  | i, some future :: futures =>
      let elapsedNs := now (i + 1) - now 0
      if 0 < timeoutMs ∧ timeoutNs timeoutMs ≤ elapsedNs then (.timeout, [])
      else
        let remainingTimeout :=
          if 0 < timeoutMs then ((timeoutNs timeoutMs - elapsedNs) / 1000000).toUInt32
          else timeoutMs
        let result := futureWait future (results i)
        if result ≠ .success then (result, [⟨i, remainingTimeout⟩])
        else
          let rest := batchWaitAmong timeoutMs now results (i + 1) futures
          (rest.1, ⟨i, remainingTimeout⟩ :: rest.2)

/-- `task_batch_wait`, with the calls of `future_wait` it makes. -/
def taskBatchWait {τ : Type*} (timeoutMs : UInt32) (now : ℕ → UInt64)
    (results : ℕ → PoolError) (futures : Option (List (Option (TaskFuture τ)))) :
    PoolError × List WaitCall :=
  match futures with
  | none => (.invalidParam, [])
  | some futures =>
      if futures.length = 0 then (.invalidParam, [])
      else batchWaitAmong timeoutMs now results 0 futures

/-- The call waits, and no longer than until `timeout_ms` is over. -/
def WaitCall.Bounded (call : WaitCall) (timeoutMs : UInt32) (now : ℕ → UInt64) : Prop :=
  1 ≤ call.timeoutMs.toNat ∧
    (now (call.index + 1)).toNat - (now 0).toNat + call.timeoutMs.toNat * 1000000 ≤
      timeoutMs.toNat * 1000000

/-- The reading at a position falls into the last millisecond before the timeout. -/
def LastMillisecond (timeoutMs : UInt32) (now : ℕ → UInt64) (i : ℕ) : Prop :=
  (now (i + 1)).toNat - (now 0).toNat < timeoutMs.toNat * 1000000 ∧
    timeoutMs.toNat * 1000000 < (now (i + 1)).toNat - (now 0).toNat + 1000000

/-- Every future before position `i` of the list is `NULL` or has been waited for with
success. The list starts at position `start` of the array. -/
def WaitedBefore {τ : Type*} (results : ℕ → PoolError) (start : ℕ)
    (futures : List (Option (TaskFuture τ))) (i : ℕ) : Prop :=
  ∀ j < i, ∀ future, futures[j]? = some (some future) →
    futureWait future (results (start + j)) = .success

/-- No future is reached in the last millisecond. -/
def NoneInLastMillisecond {τ : Type*} (timeoutMs : UInt32) (now : ℕ → UInt64)
    (results : ℕ → PoolError) (start : ℕ) (futures : List (Option (TaskFuture τ))) : Prop :=
  ∀ i future, futures[i]? = some (some future) → WaitedBefore results start futures i →
    ¬ LastMillisecond timeoutMs now (start + i)

theorem timeoutNs_toNat (timeoutMs : UInt32) :
    (timeoutNs timeoutMs).toNat = timeoutMs.toNat * 1000000 := by
  have hlt := timeoutMs.toNat_lt
  have hunit : (1000000 : UInt64).toNat = 1000000 := rfl
  rw [timeoutNs, UInt64.toNat_mul, UInt32.toNat_toUInt64, hunit]
  omega

theorem elapsedNs_toNat {a b : UInt64} (h : a ≤ b) : (b - a).toNat = b.toNat - a.toNat :=
  UInt64.toNat_sub_of_le _ _ h

/-- The remaining time, in whole milliseconds. -/
theorem remainingTimeout_toNat {timeoutMs : UInt32} {elapsedNs : UInt64}
    (h : ¬ timeoutNs timeoutMs ≤ elapsedNs) :
    ((timeoutNs timeoutMs - elapsedNs) / 1000000).toUInt32.toNat =
      (timeoutMs.toNat * 1000000 - elapsedNs.toNat) / 1000000 := by
  have hlt := timeoutMs.toNat_lt
  have hunit : (1000000 : UInt64).toNat = 1000000 := rfl
  have hle : elapsedNs ≤ timeoutNs timeoutMs := UInt64.le_of_lt (UInt64.not_le.mp h)
  rw [UInt64.toNat_toUInt32, UInt64.toNat_div, elapsedNs_toNat hle, timeoutNs_toNat,
    hunit]
  omega

section Loop

variable {τ : Type*} {timeoutMs : UInt32} {now : ℕ → UInt64} {results : ℕ → PoolError}
  {start : ℕ} {future : TaskFuture τ} {futures : List (Option (TaskFuture τ))}

theorem waitedBefore_succ {i : ℕ} {entry : Option (TaskFuture τ)} :
    WaitedBefore results start (entry :: futures) (i + 1) ↔
      (∀ future, entry = some future → futureWait future (results start) = .success) ∧
        WaitedBefore results (start + 1) futures i := by
  constructor
  · intro h
    refine ⟨fun future hentry => h 0 (Nat.succ_pos i) future ?_, fun j hj future hfuture => ?_⟩
    · rw [List.getElem?_cons_zero, hentry]
    · have hlater := h (j + 1) (Nat.succ_lt_succ hj) future hfuture
      rwa [← Nat.add_assoc, Nat.add_right_comm] at hlater
  · rintro ⟨hfirst, hrest⟩ j hj future hfuture
    cases j with
    | zero => exact hfirst future (Option.some.inj hfuture)
    | succ j =>
        rw [← Nat.add_assoc, Nat.add_right_comm]
        exact hrest j (Nat.lt_of_succ_lt_succ hj) future hfuture

theorem noneInLastMillisecond_null :
    NoneInLastMillisecond timeoutMs now results start (none :: futures) ↔
      NoneInLastMillisecond timeoutMs now results (start + 1) futures := by
  constructor
  · intro h i future hfuture hwaited
    rw [Nat.add_assoc, Nat.add_comm 1]
    exact h (i + 1) future hfuture (waitedBefore_succ.mpr ⟨fun _ h => (by cases h), hwaited⟩)
  · intro h i future hfuture hwaited
    cases i with
    | zero => cases hfuture
    | succ i =>
        rw [← Nat.add_assoc, Nat.add_right_comm]
        exact h i future hfuture (waitedBefore_succ.mp hwaited).2

theorem noneInLastMillisecond_cons :
    NoneInLastMillisecond timeoutMs now results start (some future :: futures) ↔
      ¬ LastMillisecond timeoutMs now start ∧ (futureWait future (results start) = .success →
        NoneInLastMillisecond timeoutMs now results (start + 1) futures) := by
  constructor
  · intro h
    refine ⟨h 0 future rfl fun j hj => absurd hj (Nat.not_lt_zero j),
      fun hsuccess i later hlater hwaited => ?_⟩
    rw [Nat.add_assoc, Nat.add_comm 1]
    refine h (i + 1) later hlater (waitedBefore_succ.mpr ⟨fun future' h => ?_, hwaited⟩)
    rwa [← Option.some.inj h]
  · rintro ⟨hfirst, hrest⟩ i later hlater hwaited
    cases i with
    | zero => exact hfirst
    | succ i =>
        obtain ⟨hsuccess, hbefore⟩ := waitedBefore_succ.mp hwaited
        rw [← Nat.add_assoc, Nat.add_right_comm]
        exact hrest (hsuccess future rfl) i later hlater hbefore

/-- The call at a position is bounded exactly when the reading there is not in the last
millisecond. -/
theorem waitCall_bounded_iff (hstart : now 0 ≤ now (start + 1))
    (hleft : ¬ timeoutNs timeoutMs ≤ now (start + 1) - now 0) :
    WaitCall.Bounded ⟨start, ((timeoutNs timeoutMs - (now (start + 1) - now 0)) /
      1000000).toUInt32⟩ timeoutMs now ↔ ¬ LastMillisecond timeoutMs now start := by
  have hlt := UInt64.lt_iff_toNat_lt.mp (UInt64.not_le.mp hleft)
  rw [timeoutNs_toNat, elapsedNs_toNat hstart] at hlt
  simp only [WaitCall.Bounded, remainingTimeout_toNat hleft, elapsedNs_toNat hstart,
    LastMillisecond]
  omega

/-- Once the timeout is over no reading falls into its last millisecond. -/
theorem noneInLastMillisecond_of_le (hmono : ∀ i j, i ≤ j → now i ≤ now j)
    (hover : timeoutNs timeoutMs ≤ now (start + 1) - now 0) :
    NoneInLastMillisecond timeoutMs now results start futures := by
  intro i _ _ _ hlast
  have hlater := UInt64.le_iff_toNat_le.mp (hmono (start + 1) (start + i + 1) (by omega))
  have hend := UInt64.le_iff_toNat_le.mp hover
  rw [timeoutNs_toNat, elapsedNs_toNat (hmono 0 _ (Nat.zero_le _))] at hend
  have hbefore := hlast.1
  omega

theorem batchWaitAmong_bounded_iff (hpos : 0 < timeoutMs)
    (hmono : ∀ i j, i ≤ j → now i ≤ now j) (start : ℕ)
    (futures : List (Option (TaskFuture τ))) :
    (∀ call ∈ (batchWaitAmong timeoutMs now results start futures).2,
      call.Bounded timeoutMs now) ↔
        NoneInLastMillisecond timeoutMs now results start futures := by
  induction futures generalizing start with
  | nil =>
      refine ⟨fun _ i future hfuture => ?_, fun _ call hcall => ?_⟩
      · cases hfuture
      · cases hcall
  | cons entry futures ih =>
      cases entry with
      | none =>
          rw [batchWaitAmong, noneInLastMillisecond_null]
          exact ih (start + 1)
      | some future =>
          simp only [batchWaitAmong, hpos, true_and, if_true]
          split_ifs with hover hresult
          · refine ⟨fun _ => noneInLastMillisecond_of_le hmono hover, fun _ call hcall => ?_⟩
            cases hcall
          · rw [List.forall_mem_singleton, noneInLastMillisecond_cons,
              waitCall_bounded_iff (hmono 0 _ (Nat.zero_le _)) hover]
            exact (and_iff_left fun h => absurd h hresult).symm
          · rw [List.forall_mem_cons, noneInLastMillisecond_cons,
              waitCall_bounded_iff (hmono 0 _ (Nat.zero_le _)) hover, ih (start + 1)]
            exact and_congr_right fun _ => ⟨fun h _ => h, fun h => h (not_not.mp hresult)⟩

end Loop

/-- Every call of `future_wait` passes at least one millisecond and at most the time that
remains, exactly when no future is reached in the last millisecond before the timeout. -/
theorem taskBatchWait_bounded_iff {τ : Type*} (timeoutMs : UInt32) (hpos : 0 < timeoutMs)
    (now : ℕ → UInt64) (hmono : ∀ i j, i ≤ j → now i ≤ now j) (results : ℕ → PoolError)
    (futures : List (Option (TaskFuture τ))) :
    (∀ call ∈ (taskBatchWait timeoutMs now results (some futures)).2,
      call.Bounded timeoutMs now) ↔
        NoneInLastMillisecond timeoutMs now results 0 futures := by
  rw [← batchWaitAmong_bounded_iff hpos hmono 0 futures, taskBatchWait]
  split_ifs with hempty
  · rw [List.eq_nil_of_length_eq_zero hempty]
    exact Iff.rfl
  · exact Iff.rfl

/-- Two futures, and a timeout of 5 ms of which 2.5 ms are over at the second. -/
theorem taskBatchWait_bounded_two :
    (taskBatchWait 5 (fun i => if i ≤ 1 then 0 else 2500000) (fun _ => .success)
      (some [some (⟨some ()⟩ : TaskFuture Unit), none, some ⟨some ()⟩])).2 =
        [⟨0, 5⟩, ⟨2, 2⟩] ∧
    ∀ call ∈ (taskBatchWait 5 (fun i => if i ≤ 1 then 0 else 2500000) (fun _ => .success)
      (some [some (⟨some ()⟩ : TaskFuture Unit), none, some ⟨some ()⟩])).2,
      call.Bounded 5 fun i => if i ≤ 1 then 0 else 2500000 := by
  refine ⟨by decide, (taskBatchWait_bounded_iff 5 (by decide) _ (fun i j hij => ?_) _ _).mpr
    fun i _ _ _ => ?_⟩
  · split_ifs <;> first | decide | omega
  · rintro ⟨-, hlast⟩
    simp only at hlast
    split_ifs at hlast <;> revert hlast <;> decide

/-- A nanosecond of a timeout of 1 ms is over at the first future: it is waited for
without a timeout. -/
theorem batch_wait_unbounded : ¬ ∀ (futures : List (Option (TaskFuture Unit)))
    (timeoutMs : UInt32) (now : ℕ → UInt64) (results : ℕ → PoolError), 0 < timeoutMs →
      (∀ i j, i ≤ j → now i ≤ now j) →
        ∀ call ∈ (taskBatchWait timeoutMs now results (some futures)).2,
          call.Bounded timeoutMs now := by
  intro hclaim
  have hbounded := hclaim [some ⟨some ()⟩] 1 (fun i => if i = 0 then 0 else 1)
    (fun _ => .success) (by decide) (fun i j hij => by split_ifs <;> first | decide | omega)
    ⟨0, 0⟩ (by decide)
  exact absurd hbounded.1 (by decide)

end ModernPool

end ProcessThreadPool
