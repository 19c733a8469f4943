import ProcessThreadPool.Lib.SortedBuckets
import ProcessThreadPool.Lib.Transition
import ProcessThreadPool.Lib.WordOrder
import Mathlib.Data.List.GetD

/-!
# Histograms

`metrics_histogram_register` keeps as many boundaries as there are buckets, and fills the rest
with `UINT64_MAX`. `metrics_histogram_observe` adds to the first bucket whose boundary the
value does not exceed, and to the total count in any case. A shorter array of boundaries so
gets a bucket for all larger values; an array that fills the buckets does not.
-/

namespace ProcessThreadPool

namespace Metrics

open WordOrder SortedBuckets

/-- `histogram_t` without its name, its mutex and the time of its reset. -/
structure Histogram where
  values : List UInt64
  bucketBoundaries : List UInt64
  totalCount : UInt64
  totalSum : UInt64
  deriving DecidableEq, Repr

/-- The boundaries that `init_histogram_buckets` stores in so many buckets. -/
def storedBoundaries (buckets : ℕ) (boundaries : List UInt64) : List UInt64 :=
  boundaries.take buckets ++ List.replicate (buckets - boundaries.length) uint64Max

/-- The histogram that `metrics_histogram_register` sets up. -/
def initHistogramBuckets (buckets : ℕ) (boundaries : List UInt64) : Histogram where
  values := List.replicate buckets 0
  bucketBoundaries := storedBoundaries buckets boundaries
  totalCount := 0
  totalSum := 0

/-- `metrics_histogram_observe`. -/
def metricsHistogramObserve (hist : Histogram) (value : UInt64) : Histogram :=
  { hist with
    values :=
      match firstFit hist.bucketBoundaries value with
      | some i => hist.values.modify i (· + 1)
      | none => hist.values
    totalCount := hist.totalCount + 1
    totalSum := hist.totalSum + value }

/-- `metrics_histogram_reset`. -/
def metricsHistogramReset (hist : Histogram) : Histogram :=
  { hist with
    values := hist.values.map fun _ => 0
    totalCount := 0
    totalSum := 0 }

/-- `histogram_stats_t` without the average. -/
structure HistogramStats where
  totalCount : UInt64
  totalSum : UInt64
  buckets : List UInt64
  bucketBoundaries : List UInt64
  deriving DecidableEq, Repr

/-- `metrics_histogram_get`. -/
def metricsHistogramGet (hist : Histogram) : HistogramStats where
  totalCount := hist.totalCount
  totalSum := hist.totalSum
  buckets := hist.values
  bucketBoundaries := hist.bucketBoundaries

/-- A histogram and the values observed since its last reset. -/
structure Observations where
  hist : Histogram
  observed : List UInt64
  deriving DecidableEq, Repr

/-- A call. -/
inductive HistogramCall where
  | observe (value : UInt64)
  | reset
  deriving DecidableEq, Repr

/-- The effect of a call. -/
def Observations.step (s : Observations) : HistogramCall → Option Observations
  | .observe value => some ⟨metricsHistogramObserve s.hist value, s.observed ++ [value]⟩
  | .reset => some ⟨metricsHistogramReset s.hist, []⟩

/-- A registered histogram. -/
def Observations.start (buckets : ℕ) (boundaries : List UInt64) : Observations :=
  ⟨initHistogramBuckets buckets boundaries, []⟩

/-- All sequences of calls on a histogram that was registered with the given boundaries. -/
def histogramCalls (buckets : ℕ) (boundaries : List UInt64) :
    Transition.System Observations HistogramCall :=
  Transition.System.ofFun (Observations.start buckets boundaries) Observations.step

/-- A value above the boundary before and not above the boundary of a bucket. -/
def inBucket (bounds : List UInt64) (i : ℕ) (v : UInt64) : Bool :=
  decide (0 < i → bounds.getD (i - 1) 0 < v) && decide (v ≤ bounds.getD i 0)

/-- The buckets sum to the total count, and each counts the values between its boundaries. -/
structure CountsAll (buckets : ℕ) (stats : HistogramStats) (observed : List UInt64) : Prop where
  sum : (stats.buckets.map UInt64.toNat).sum = stats.totalCount.toNat
  counts : ∀ i, i < buckets → ∃ n, stats.buckets[i]? = some n ∧
    n.toNat = observed.countP (inBucket stats.bucketBoundaries i)

/-- A value to observe has a bucket, and the total count does not wrap. -/
def HasBucket (s : Observations) : HistogramCall → Prop
  | .observe value =>
      (∃ b ∈ s.hist.bucketBoundaries, value ≤ b) ∧ s.observed.length + 1 < 2 ^ 64
  | .reset => True

section

variable {buckets : ℕ} {boundaries : List UInt64} {s t : Observations}

@[simp] theorem length_storedBoundaries :
    (storedBoundaries buckets boundaries).length = buckets := by
  rw [storedBoundaries, List.length_append, List.length_take, List.length_replicate]
  omega

/-- The stored boundaries ascend. -/
theorem pairwise_storedBoundaries (hboundaries : boundaries.Pairwise (· < ·)) :
    (storedBoundaries buckets boundaries).Pairwise (· ≤ ·) := by
  rw [storedBoundaries, List.pairwise_append]
  refine ⟨?_, List.pairwise_replicate.mpr (Or.inr le_rfl), fun a _ b hb => ?_⟩
  · exact (hboundaries.imp UInt64.le_of_lt).sublist (List.take_sublist _ _)
  · rw [List.eq_of_mem_replicate hb]
    exact le_uint64Max a

/-- An array that leaves a bucket free gets one for all larger values. -/
theorem storedBoundaries_covers (hshort : boundaries.length < buckets) (v : UInt64) :
    ∃ b ∈ storedBoundaries buckets boundaries, v ≤ b := by
  refine ⟨uint64Max, List.mem_append_right _ ?_, le_uint64Max v⟩
  rw [List.mem_replicate]
  exact ⟨by omega, rfl⟩

/-- What the fields hold of the observed values, as words. -/
structure Tracks (buckets : ℕ) (boundaries : List UInt64) (s : Observations) : Prop where
  bounds : s.hist.bucketBoundaries = storedBoundaries buckets boundaries
  values : s.hist.values =
    (tally (storedBoundaries buckets boundaries) s.observed).map UInt64.ofNat
  totalCount : s.hist.totalCount = UInt64.ofNat s.observed.length
  totalSum : s.hist.totalSum = UInt64.ofNat (s.observed.map UInt64.toNat).sum

theorem tracks_start : Tracks buckets boundaries (.start buckets boundaries) where
  bounds := rfl
  values := by
    rw [Observations.start, tally_nil, List.map_replicate, length_storedBoundaries]
    rfl
  totalCount := rfl
  totalSum := rfl

theorem Tracks.step (h : Tracks buckets boundaries s) {l : HistogramCall}
    (hstep : s.step l = some t) : Tracks buckets boundaries t := by
  cases l with
  | reset =>
      obtain rfl := Option.some.inj hstep
      refine ⟨h.bounds, ?_, rfl, rfl⟩
      simp only [metricsHistogramReset, h.values, tally_nil]
      rw [List.map_const', List.length_map, length_tally, List.map_replicate]
      rfl
  | observe v =>
      obtain rfl := Option.some.inj hstep
      refine ⟨h.bounds, ?_, ?_, ?_⟩
      · simp only [metricsHistogramObserve, h.bounds, h.values, tally_append]
        cases firstFit (storedBoundaries buckets boundaries) v with
        | none => rfl
        | some i => exact (map_modify (fun n => (ofNat_add_one n).symm) _ _).symm
      · simp only [metricsHistogramObserve, h.totalCount, ofNat_add_one, List.length_append,
          List.length_singleton]
      · simp only [metricsHistogramObserve, h.totalSum, ofNat_add_word, List.map_append,
          List.sum_append, List.map_singleton, List.sum_singleton]

/-- A value is between the boundaries of the bucket that counts it. -/
theorem inBucket_eq (hboundaries : boundaries.Pairwise (· < ·)) {i : ℕ} (hi : i < buckets)
    (v : UInt64) : inBucket (storedBoundaries buckets boundaries) i v =
      decide (firstFit (storedBoundaries buckets boundaries) v = some i) := by
  have hlength : i < (storedBoundaries buckets boundaries).length := by simpa using hi
  rw [inBucket, ← Bool.decide_and, decide_eq_decide,
    firstFit_eq_some_iff (pairwise_storedBoundaries hboundaries) hlength,
    List.getD_eq_getElem _ _ hlength,
    List.getD_eq_getElem _ _ (Nat.lt_of_le_of_lt (Nat.sub_le i 1) hlength)]

/-- As long as the total count has not wrapped no bucket has. -/
theorem Tracks.toNat_values (h : Tracks buckets boundaries s)
    (hlength : s.observed.length < 2 ^ 64) : s.hist.values.map UInt64.toNat =
      tally (storedBoundaries buckets boundaries) s.observed := by
  rw [h.values, List.map_map]
  refine List.ext_getElem (List.length_map _) fun i _ hi => ?_
  rw [List.getElem_map, Function.comp_apply, UInt64.toNat_ofNat', Nat.mod_eq_of_lt]
  exact (getElem_tally_le _ hi).trans_lt hlength

/-- Each bucket counts the values between its boundaries exactly when the buckets are the
tally. -/
theorem Tracks.counts_iff (h : Tracks buckets boundaries s)
    (hboundaries : boundaries.Pairwise (· < ·)) :
    (∀ i, i < buckets → ∃ n, s.hist.values[i]? = some n ∧
      n.toNat = s.observed.countP (inBucket s.hist.bucketBoundaries i)) ↔
    s.hist.values.map UInt64.toNat =
      tally (storedBoundaries buckets boundaries) s.observed := by
  have hsize : s.hist.values.length = buckets := by
    rw [h.values, List.length_map, length_tally, length_storedBoundaries]
  have htally : ∀ i (hi : i < (tally (storedBoundaries buckets boundaries) s.observed).length),
      s.observed.countP (inBucket s.hist.bucketBoundaries i) =
        (tally (storedBoundaries buckets boundaries) s.observed)[i] := by
    intro i hi
    rw [getElem_tally, h.bounds]
    exact List.countP_congr fun v _ => by rw [inBucket_eq hboundaries (by simpa using hi)]
  constructor
  · intro hcounts
    refine List.ext_getElem (by simp [hsize]) fun i hi hi' => ?_
    obtain ⟨n, hn, hcount⟩ := hcounts i (by simpa using hi')
    obtain ⟨hget, rfl⟩ := List.getElem?_eq_some_iff.mp hn
    rw [List.getElem_map, hcount, htally i hi']
  · intro hvalues i hi
    have hget : i < s.hist.values.length := hsize ▸ hi
    have hmap : i < (s.hist.values.map UInt64.toNat).length := by simpa using hget
    refine ⟨s.hist.values[i], List.getElem?_eq_getElem hget, ?_⟩
    rw [htally i (by simpa using hi), ← List.getElem_of_eq hvalues hmap, List.getElem_map]

/-- Every observed value has a bucket, and the total count has not wrapped. -/
structure AllCounted (buckets : ℕ) (boundaries : List UInt64) (s : Observations) : Prop where
  tracks : Tracks buckets boundaries s
  covered : ∀ v ∈ s.observed, ∃ b ∈ storedBoundaries buckets boundaries, v ≤ b
  length : s.observed.length < 2 ^ 64

theorem AllCounted.countsAll (h : AllCounted buckets boundaries s)
    (hboundaries : boundaries.Pairwise (· < ·)) :
    CountsAll buckets (metricsHistogramGet s.hist) s.observed where
  sum := by
    rw [metricsHistogramGet, h.tracks.toNat_values h.length, sum_tally, h.tracks.totalCount,
      (countP_isSome_eq_length_iff _).mpr h.covered, UInt64.toNat_ofNat',
      Nat.mod_eq_of_lt h.length]
  counts := (h.tracks.counts_iff hboundaries).mpr (h.tracks.toNat_values h.length)

/-- A call keeps the counts right exactly when the value it observes has a bucket. -/
theorem AllCounted.step_iff (h : AllCounted buckets boundaries s)
    (hboundaries : boundaries.Pairwise (· < ·)) {l : HistogramCall} (hstep : s.step l = some t) :
    (CountsAll buckets (metricsHistogramGet t.hist) t.observed ↔ HasBucket s l) ∧
      (HasBucket s l → AllCounted buckets boundaries t) := by
  have htracks := h.tracks.step hstep
  cases l with
  | reset =>
      obtain rfl := Option.some.inj hstep
      have hall : AllCounted buckets boundaries ⟨metricsHistogramReset s.hist, []⟩ :=
        ⟨htracks, fun v hv => absurd hv List.not_mem_nil, Nat.two_pow_pos 64⟩
      exact ⟨iff_of_true (hall.countsAll hboundaries) trivial, fun _ => hall⟩
  | observe v =>
      obtain rfl := Option.some.inj hstep
      have hkeeps : HasBucket s (.observe v) → AllCounted buckets boundaries
          ⟨metricsHistogramObserve s.hist v, s.observed ++ [v]⟩ := by
        rintro ⟨hcovered, hlength⟩
        refine ⟨htracks, ?_, by rwa [List.length_append]⟩
        rw [List.forall_mem_append]
        refine ⟨h.covered, List.forall_mem_singleton.mpr ?_⟩
        rwa [← h.tracks.bounds]
      refine ⟨⟨fun hcounts => ?_, fun hbucket => (hkeeps hbucket).countsAll hboundaries⟩, hkeeps⟩
      have hvalues := (htracks.counts_iff hboundaries).mp hcounts.counts
      have hold := (countP_isSome_eq_length_iff s.observed).mpr h.covered
      have hsum : (s.observed.length + [v].countP fun v =>
          (firstFit (storedBoundaries buckets boundaries) v).isSome) =
            (s.observed.length + 1) % 2 ^ 64 := by
        rw [← hold, ← List.countP_append, ← sum_tally, ← hvalues, hold]
        refine hcounts.sum.trans ?_
        rw [metricsHistogramGet, htracks.totalCount, UInt64.toNat_ofNat', List.length_append]
        rfl
      have hlength := h.length
      have hone : ([v].countP fun v =>
          (firstFit (storedBoundaries buckets boundaries) v).isSome) = 1 := by
        have hle := List.countP_le_length (l := [v]) (p := fun v =>
          (firstFit (storedBoundaries buckets boundaries) v).isSome)
        rw [List.length_singleton] at hle
        omega
      refine ⟨?_, by omega⟩
      rw [h.tracks.bounds]
      exact (countP_isSome_eq_length_iff [v]).mp hone v (List.mem_singleton_self v)

theorem allCounted_start : AllCounted buckets boundaries (.start buckets boundaries) :=
  ⟨tracks_start, fun _ hv => absurd hv List.not_mem_nil, Nat.two_pow_pos 64⟩

/-- In a sequence of calls the buckets account for every observation exactly when every
observed value has a bucket and the total count does not wrap. -/
theorem counts_run_iff (buckets : ℕ) (boundaries : List UInt64)
    (hboundaries : boundaries.Pairwise (· < ·)) (ls : List HistogramCall) (s : Observations) :
    Transition.Run ((histogramCalls buckets boundaries).filter fun _ _ t =>
        CountsAll buckets (metricsHistogramGet t.hist) t.observed)
        (.start buckets boundaries) ls s ↔
      Transition.Run ((histogramCalls buckets boundaries).restrict HasBucket)
        (.start buckets boundaries) ls s := by
  apply Transition.run_filter_iff_restrict (I := AllCounted buckets boundaries)
  · intro s l t h hbucket hstep
    exact (h.step_iff hboundaries hstep).2 hbucket
  · intro s l t h hstep
    exact (h.step_iff hboundaries hstep).1
  · exact allCounted_start

/-- Two buckets, one for the values up to 10 and one for all others. -/
theorem counts_run_two : ∃ s : Observations,
    Transition.Run ((histogramCalls 2 [10]).filter fun _ _ t =>
      CountsAll 2 (metricsHistogramGet t.hist) t.observed)
      (.start 2 [10]) [.observe 5, .observe 20, .reset, .observe 11] s ∧
      s.hist.values = [0, 1] := by
  have hcovered : ∀ v : UInt64, ∃ b ∈ storedBoundaries 2 [10], v ≤ b :=
    storedBoundaries_covers (by decide)
  exact ⟨_, (counts_run_iff 2 [10] (List.pairwise_singleton _ _) _ _).mpr
    (.cons ⟨⟨hcovered 5, by decide⟩, rfl⟩ (.cons ⟨⟨hcovered 20, by decide⟩, rfl⟩
    (.cons ⟨trivial, rfl⟩ (.cons ⟨⟨hcovered 11, by decide⟩, rfl⟩ (.nil _))))), rfl⟩

/-- One bucket for the values up to 10, and a larger value. -/
theorem beyond_last_boundary : ¬ ∀ (buckets : ℕ) (boundaries : List UInt64) (s : Observations),
    1 ≤ buckets → boundaries ≠ [] → boundaries.Pairwise (· < ·) →
      Transition.Reachable (histogramCalls buckets boundaries) s →
        CountsAll buckets (metricsHistogramGet s.hist) s.observed := by
  intro hclaim
  have hcounts := hclaim 1 [10] _ le_rfl (by simp) (List.pairwise_singleton _ _)
    (Transition.reachable_ofFun_iff.mpr ⟨[.observe 20], rfl⟩)
  exact absurd hcounts.sum (by decide)

end

end Metrics

end ProcessThreadPool
