import ProcessThreadPool.Lib.ThreadFamily
import ProcessThreadPool.Metrics.Histogram

/-!
# Histograms that several threads observe and reset

`metrics_histogram_observe` and `metrics_histogram_reset` work on the buckets under the mutex
of the histogram, and on the totals after they have released it. `metrics_reset_all` calls the
latter for every histogram, under a mutex that neither of the two takes. A reset that comes
between the two halves of an observation, or an observation between the two halves of a reset,
leaves in one of the buckets and the total count what it removes from the other.
-/

namespace ProcessThreadPool

namespace Metrics

open WordOrder SortedBuckets ThreadFamily Transition

/-- The locked section of `metrics_histogram_observe`. -/
def observeBuckets (hist : Histogram) (value : UInt64) : Histogram :=
  { hist with
    values :=
      match firstFit hist.bucketBoundaries value with
      | some i => hist.values.modify i (· + 1)
      | none => hist.values }

/-- The locked section of `metrics_histogram_reset`. -/
def clearBuckets (hist : Histogram) : Histogram :=
  { hist with values := hist.values.map fun _ => 0 }

/-- The atomic update of the totals that a thread does next. -/
inductive Pending where
  | idle
  | addCount (value : UInt64)
  | addSum (value : UInt64)
  | storeCount
  | storeSum
  deriving DecidableEq, Repr

/-- The effect of an update. -/
def Pending.apply : Pending → Histogram → Histogram
  | .idle, hist => hist
  | .addCount _, hist => { hist with totalCount := hist.totalCount + 1 }
  | .addSum value, hist => { hist with totalSum := hist.totalSum + value }
  | .storeCount, hist => { hist with totalCount := 0 }
  | .storeSum, hist => { hist with totalSum := 0 }

/-- The update after an update. -/
def Pending.next : Pending → Pending
  | .addCount value => .addSum value
  | .storeCount => .storeSum
  | _ => .idle

/-- A histogram and what each thread has pending. -/
structure Concurrent (ι : Type*) where
  hist : Histogram
  pending : ι → Pending

/-- A thread enters one of the two functions and goes through its locked section, or it does
its next update. -/
inductive Half (ι : Type*) where
  | observe (i : ι) (value : UInt64)
  | reset (i : ι)
  | update (i : ι)

section

variable {ι : Type*} [DecidableEq ι]

def Concurrent.step (s : Concurrent ι) : Half ι → Option (Concurrent ι)
  | .observe i value =>
      if s.pending i = .idle then
        some ⟨observeBuckets s.hist value, Function.update s.pending i (.addCount value)⟩
      else none
  | .reset i =>
      if s.pending i = .idle then
        some ⟨clearBuckets s.hist, Function.update s.pending i .storeCount⟩
      else none
  | .update i =>
      if s.pending i = .idle then none
      else some ⟨(s.pending i).apply s.hist, Function.update s.pending i (s.pending i).next⟩

/-- A registered histogram that no thread works on. -/
def Concurrent.start (ι : Type*) (buckets : ℕ) (boundaries : List UInt64) : Concurrent ι :=
  ⟨initHistogramBuckets buckets boundaries, fun _ => .idle⟩

/-- All interleavings of the halves. -/
def halves (ι : Type*) [DecidableEq ι] (buckets : ℕ) (boundaries : List UInt64) :
    System (Concurrent ι) (Half ι) :=
  System.ofFun (Concurrent.start ι buckets boundaries) Concurrent.step

/-- No operation is in progress. -/
def Concurrent.Idle (s : Concurrent ι) : Prop := ∀ i, s.pending i = .idle

/-- The sum of the buckets. -/
def bucketSum (hist : Histogram) : ℕ := (hist.values.map UInt64.toNat).sum

/-- The operations in progress go on from the first state to the second one. -/
def Finishes (s t : Concurrent ι) : Prop := Leads (fun s i => s.step (.update i)) s t

/-- However the operations in progress finish, the buckets then sum to the total count. -/
def EndsConsistent (s : Concurrent ι) : Prop :=
  ∀ t, Finishes s t → t.Idle → bucketSum t.hist = t.hist.totalCount.toNat

/-- One more observation keeps the sum of the buckets below `2 ^ 64`, unless its bucket is the
only one that is not empty and wraps with the total count. -/
def HasRoom (hist : Histogram) (value : UInt64) : Prop :=
  bucketSum hist + 1 < 2 ^ 64 ∨ ∃ i, firstFit hist.bucketBoundaries value = some i ∧
    hist.values[i]? = some uint64Max

/-- No observation begins between the two halves of a reset, and no reset between the two
halves of an observation. -/
def Apart (s : Concurrent ι) : Half ι → Prop
  | .observe _ value => (∀ j, s.pending j ≠ .storeCount) ∧ HasRoom s.hist value
  | .reset _ => ∀ j value, s.pending j ≠ .addCount value
  | .update _ => True

end

section

variable {ι : Type*} [DecidableEq ι] {s : Concurrent ι} {i : ι}

end

/-! ## The sum of the buckets -/

/-- The buckets are as many as the boundaries, and the last boundary covers all values. -/
structure Covered (hist : Histogram) : Prop where
  length : hist.values.length = hist.bucketBoundaries.length
  last : uint64Max ∈ hist.bucketBoundaries

theorem bucketSum_clear (hist : Histogram) : bucketSum (clearBuckets hist) = 0 := by
  rw [bucketSum, clearBuckets, List.map_map]
  exact List.sum_eq_zero fun n hn => by
    obtain ⟨_, -, rfl⟩ := List.mem_map.mp hn
    rfl

theorem bucketSum_init (buckets : ℕ) (boundaries : List UInt64) :
    bucketSum (initHistogramBuckets buckets boundaries) = 0 := by
  rw [bucketSum, initHistogramBuckets, List.map_replicate]
  exact List.sum_replicate_nat.trans (Nat.mul_zero _)

theorem Covered.init {buckets : ℕ} {boundaries : List UInt64}
    (hlast : uint64Max ∈ storedBoundaries buckets boundaries) :
    Covered (initHistogramBuckets buckets boundaries) where
  length := by
    rw [initHistogramBuckets, List.length_replicate, length_storedBoundaries]
  last := hlast

theorem Covered.clear {hist : Histogram} (h : Covered hist) : Covered (clearBuckets hist) where
  length := by
    rw [clearBuckets, List.length_map]
    exact h.length
  last := h.last

theorem Covered.observe {hist : Histogram} (h : Covered hist) (value : UInt64) :
    Covered (observeBuckets hist value) where
  length := by
    rw [observeBuckets]
    cases firstFit hist.bucketBoundaries value with
    | none => exact h.length
    | some i => exact (List.length_modify _ _ _).trans h.length
  last := h.last

theorem Pending.apply_buckets (p : Pending) (hist : Histogram) :
    (p.apply hist).values = hist.values ∧
      (p.apply hist).bucketBoundaries = hist.bucketBoundaries := by
  cases p <;> exact ⟨rfl, rfl⟩

@[simp] theorem Pending.bucketSum_apply (p : Pending) (hist : Histogram) :
    bucketSum (p.apply hist) = bucketSum hist := by
  rw [bucketSum, (p.apply_buckets hist).1, bucketSum]

theorem Covered.apply {hist : Histogram} (h : Covered hist) (p : Pending) :
    Covered (p.apply hist) where
  length := by
    rw [(p.apply_buckets hist).1, (p.apply_buckets hist).2]
    exact h.length
  last := by
    rw [(p.apply_buckets hist).2]
    exact h.last

/-- An observation adds one to one of the buckets, which may wrap. -/
theorem Covered.bucketSum_observe {hist : Histogram} (h : Covered hist) (value : UInt64) :
    ∃ i a, firstFit hist.bucketBoundaries value = some i ∧ hist.values[i]? = some a ∧
      a.toNat ≤ bucketSum hist ∧
      bucketSum (observeBuckets hist value) + a.toNat =
        bucketSum hist + (a.toNat + 1) % 18446744073709551616 := by
  obtain ⟨i, hfit⟩ := Option.isSome_iff_exists.mp
    (firstFit_isSome_iff.mpr ⟨uint64Max, h.last, le_uint64Max value⟩)
  have hi : i < hist.values.length := h.length ▸ firstFit_lt hfit
  have hmap : i < (hist.values.map UInt64.toNat).length := by rwa [List.length_map]
  refine ⟨i, hist.values[i], hfit, List.getElem?_eq_getElem hi, ?_, ?_⟩
  · exact List.le_sum_of_mem (List.mem_map_of_mem (List.getElem_mem hi))
  · have hsum := sum_modify (fun n => (n + 1) % 18446744073709551616) hmap
    rw [← map_modify (fun a => UInt64.toNat_add a 1), List.getElem_map] at hsum
    rw [bucketSum, observeBuckets, hfit]
    exact hsum

/-! ## What a step does to the pending updates -/

/-- A count is still to be added. -/
def Pending.adding : Pending → ℕ
  | .addCount _ => 1
  | _ => 0

/-- The total count is still to be stored. -/
def Pending.storing : Pending → ℕ
  | .storeCount => 1
  | _ => 0

/-- How many updates are left. -/
def Pending.left : Pending → ℕ
  | .idle => 0
  | .addCount _ | .storeCount => 2
  | .addSum _ | .storeSum => 1

theorem Pending.left_next {p : Pending} (h : p ≠ .idle) : p.next.left < p.left := by
  cases p with
  | idle => exact absurd rfl h
  | addCount _ | storeCount => exact Nat.lt_succ_self 1
  | addSum _ | storeSum => exact Nat.zero_lt_one

theorem Pending.adding_next (p : Pending) : p.next.adding = 0 := by cases p <;> rfl

theorem Pending.storing_next (p : Pending) : p.next.storing = 0 := by cases p <;> rfl

namespace Concurrent

section

variable {ι : Type*} [Fintype ι]

/-- How many observations are between their halves. -/
def adding (s : Concurrent ι) : ℕ := total Pending.adding s.pending

/-- How many resets are between their halves. -/
def storing (s : Concurrent ι) : ℕ := total Pending.storing s.pending

variable {s t : Concurrent ι}

theorem adding_eq_zero_iff : s.adding = 0 ↔ ∀ j value, s.pending j ≠ .addCount value := by
  rw [adding, total_eq_zero_iff]
  refine forall_congr' fun j => ?_
  cases s.pending j <;> simp [Pending.adding]

theorem storing_eq_zero_iff : s.storing = 0 ↔ ∀ j, s.pending j ≠ .storeCount := by
  rw [storing, total_eq_zero_iff]
  refine forall_congr' fun j => ?_
  cases s.pending j <;> simp [Pending.storing]

theorem Idle.adding_eq (h : s.Idle) : s.adding = 0 :=
  adding_eq_zero_iff.mpr fun j value => by simp [h j]

theorem Idle.storing_eq (h : s.Idle) : s.storing = 0 :=
  storing_eq_zero_iff.mpr fun j => by simp [h j]

end

section

variable {ι : Type*} [Fintype ι] [DecidableEq ι] {s t : Concurrent ι}

theorem step_observe {i : ι} {value : UInt64} (h : s.step (.observe i value) = some t) :
    t.hist = observeBuckets s.hist value ∧ t.adding = s.adding + 1 ∧ t.storing = s.storing ∧
      t.pending i = .addCount value := by
  obtain ⟨hidle, hsome⟩ := Option.ite_none_right_eq_some.mp h
  obtain rfl := Option.some.inj hsome
  exact ⟨rfl, total_update_of_zero _ _ _ (by rw [hidle]; rfl),
    total_update_of_eq _ _ (by rw [hidle]; rfl), Function.update_self _ _ _⟩

theorem step_reset {i : ι} (h : s.step (.reset i) = some t) :
    t.hist = clearBuckets s.hist ∧ t.adding = s.adding ∧ t.storing = s.storing + 1 ∧
      t.pending i = .storeCount := by
  obtain ⟨hidle, hsome⟩ := Option.ite_none_right_eq_some.mp h
  obtain rfl := Option.some.inj hsome
  exact ⟨rfl, total_update_of_eq _ _ (by rw [hidle]; rfl),
    total_update_of_zero _ _ _ (by rw [hidle]; rfl), Function.update_self _ _ _⟩

theorem step_update {i : ι} (h : s.step (.update i) = some t) :
    t.hist = (s.pending i).apply s.hist ∧ t.adding + (s.pending i).adding = s.adding ∧
      t.storing + (s.pending i).storing = s.storing ∧ ∀ j, j ≠ i → t.pending j = s.pending j := by
  obtain ⟨-, hsome⟩ := Option.ite_none_left_eq_some.mp h
  obtain rfl := Option.some.inj hsome
  exact ⟨rfl, total_update_to_zero _ _ _ (Pending.adding_next _),
    total_update_to_zero _ _ _ (Pending.storing_next _), fun j hj => Function.update_of_ne hj _ _⟩

omit [Fintype ι] in
theorem exists_update {i : ι} (h : s.pending i ≠ .idle) : ∃ t, s.step (.update i) = some t :=
  ⟨_, if_neg h⟩

/-- An update changes neither the buckets nor, apart from the one it is, the total count or
what is pending for it. -/
theorem step_update_cases {i : ι} (h : s.step (.update i) = some t) :
    bucketSum t.hist = bucketSum s.hist ∧
    ((t.hist.totalCount = s.hist.totalCount ∧ t.adding = s.adding ∧ t.storing = s.storing) ∨
    (t.hist.totalCount = s.hist.totalCount + 1 ∧ t.adding + 1 = s.adding ∧
      t.storing = s.storing) ∨
    (t.hist.totalCount = 0 ∧ t.adding = s.adding ∧ t.storing + 1 = s.storing)) := by
  obtain ⟨hhist, hadding, hstoring, -⟩ := step_update h
  rw [hhist]
  refine ⟨Pending.bucketSum_apply _ _, ?_⟩
  cases hpending : s.pending i with
  | idle | addSum _ | storeSum =>
      rw [hpending] at hadding hstoring
      exact Or.inl ⟨rfl, hadding, hstoring⟩
  | addCount value =>
      rw [hpending] at hadding hstoring
      exact Or.inr (Or.inl ⟨rfl, hadding, hstoring⟩)
  | storeCount =>
      rw [hpending] at hadding hstoring
      exact Or.inr (Or.inr ⟨rfl, hadding, hstoring⟩)

/-! ## How the operations in progress finish -/

/-- The operations in progress can finish. -/
theorem exists_finishes (s : Concurrent ι) : ∃ t, Finishes s t ∧ t.Idle := by
  induction hleft : total Pending.left s.pending using Nat.strong_induction_on generalizing s with
  | _ n ih =>
      by_cases hidle : s.Idle
      · exact ⟨s, .refl _ s, hidle⟩
      · obtain ⟨i, hi⟩ := not_forall.mp hidle
        have htotal := total_update_add Pending.left s.pending i (s.pending i).next
        have hnext := Pending.left_next hi
        obtain ⟨t, hfinishes, ht⟩ := ih (total Pending.left
          (Function.update s.pending i (s.pending i).next)) (by omega) ⟨_, _⟩ rfl
        exact ⟨t, .head (if_neg hi) hfinishes, ht⟩

/-- Without a reset between its halves the pending counts come on top of the total count. -/
theorem exists_finishes_of_storing (h : s.storing = 0) :
    ∃ t, Finishes s t ∧ t.Idle ∧ bucketSum t.hist = bucketSum s.hist ∧
      t.hist.totalCount.toNat = (s.hist.totalCount.toNat + s.adding) % 18446744073709551616 := by
  obtain ⟨t, hfinishes, hidle⟩ := exists_finishes s
  have hkept : t.storing = 0 ∧ bucketSum t.hist = bucketSum s.hist ∧
      (t.hist.totalCount.toNat + t.adding) % 18446744073709551616 =
        (s.hist.totalCount.toNat + s.adding) % 18446744073709551616 := by
    refine hfinishes.preserves (I := fun u => u.storing = 0 ∧
      bucketSum u.hist = bucketSum s.hist ∧
      (u.hist.totalCount.toNat + u.adding) % 18446744073709551616 =
        (s.hist.totalCount.toNat + s.adding) % 18446744073709551616) ?_ ⟨h, rfl, rfl⟩
    rintro u i v ⟨hstoring, hbuckets, hcount⟩ hstep
    obtain ⟨hsum, ⟨ht, ha, hs⟩ | ⟨ht, ha, hs⟩ | ⟨-, -, hs⟩⟩ := step_update_cases hstep
    · rw [ht, ha, hs, hsum]
      exact ⟨hstoring, hbuckets, hcount⟩
    · rw [ht, hs, hsum, UInt64.toNat_add]
      refine ⟨hstoring, hbuckets, hcount ▸ ?_⟩
      rw [← ha, UInt64.toNat_one]
      omega
    · omega
  obtain ⟨-, hbuckets, hcount⟩ := hkept
  refine ⟨t, hfinishes, hidle, hbuckets, ?_⟩
  rw [← hcount, hidle.adding_eq]
  exact (Nat.mod_eq_of_lt t.hist.totalCount.toNat_lt).symm

/-- Without an observation between its halves a reset leaves no total count. -/
theorem exists_finishes_of_adding (h : s.adding = 0) (hstoring : 0 < s.storing) :
    ∃ t, Finishes s t ∧ t.Idle ∧ bucketSum t.hist = bucketSum s.hist ∧
      t.hist.totalCount = 0 := by
  obtain ⟨t, hfinishes, hidle⟩ := exists_finishes s
  have hkept : t.adding = 0 ∧ bucketSum t.hist = bucketSum s.hist ∧
      (t.storing = 0 → t.hist.totalCount = 0) := by
    refine hfinishes.preserves (I := fun u => u.adding = 0 ∧
      bucketSum u.hist = bucketSum s.hist ∧ (u.storing = 0 → u.hist.totalCount = 0)) ?_
      ⟨h, rfl, fun hzero => by omega⟩
    rintro u i v ⟨hadding, hbuckets, hcount⟩ hstep
    obtain ⟨hsum, ⟨ht, ha, hs⟩ | ⟨-, ha, -⟩ | ⟨ht, ha, -⟩⟩ := step_update_cases hstep
    · rw [ht, ha, hs, hsum]
      exact ⟨hadding, hbuckets, hcount⟩
    · omega
    · exact ⟨ha.trans hadding, hsum.trans hbuckets, fun _ => ht⟩
  exact ⟨t, hfinishes, hidle, hkept.2.1, hkept.2.2 hidle.storing_eq⟩

/-! ## What keeps the totals consistent -/

/-- The total count lags behind the buckets by the pending counts, and while a reset is between
its halves there is nothing to count. -/
structure Balanced (s : Concurrent ι) : Prop where
  covered : Covered s.hist
  balance : s.storing = 0 →
    bucketSum s.hist = (s.hist.totalCount.toNat + s.adding) % 18446744073709551616
  cleared : 0 < s.storing → bucketSum s.hist = 0 ∧ s.adding = 0

omit [DecidableEq ι] in
theorem Balanced.start {buckets : ℕ} {boundaries : List UInt64}
    (hlast : uint64Max ∈ storedBoundaries buckets boundaries) :
    (Concurrent.start ι buckets boundaries).Balanced := by
  have hidle : (Concurrent.start ι buckets boundaries).Idle := fun _ => rfl
  refine ⟨.init hlast, fun _ => ?_, fun h => ?_⟩
  · rw [hidle.adding_eq]
    exact bucketSum_init buckets boundaries
  · rw [hidle.storing_eq] at h
    cases h

theorem Balanced.update (h : s.Balanced) {i : ι} (hstep : s.step (.update i) = some t) :
    t.Balanced := by
  have hcovered : Covered t.hist := by
    rw [(step_update hstep).1]
    exact h.covered.apply _
  obtain ⟨hsum, ⟨ht, ha, hs⟩ | ⟨ht, ha, hs⟩ | ⟨ht, ha, hs⟩⟩ := step_update_cases hstep
  · refine ⟨hcovered, ?_, ?_⟩
    · rw [hs, hsum, ht, ha]
      exact h.balance
    · rw [hs, hsum, ha]
      exact h.cleared
  · have hzero : s.storing = 0 := by
      by_contra hne
      have hadding := (h.cleared (Nat.pos_of_ne_zero hne)).2
      omega
    refine ⟨hcovered, fun _ => ?_, fun hpos => by omega⟩
    have hbalance := h.balance hzero
    rw [hsum, ht, UInt64.toNat_add, UInt64.toNat_one, hbalance]
    omega
  · obtain ⟨hbuckets, hadding⟩ := h.cleared (by omega)
    refine ⟨hcovered, fun _ => ?_, fun _ => ⟨hsum.trans hbuckets, ha.trans hadding⟩⟩
    rw [hsum, ht, hbuckets, ha, hadding]
    rfl

/-- From a balanced state every end is consistent. -/
theorem Balanced.endsConsistent (h : s.Balanced) : EndsConsistent s := by
  intro t hfinishes hidle
  have ht : t.Balanced := hfinishes.preserves (fun s i t hs hstep => hs.update hstep) h
  rw [ht.balance hidle.storing_eq, hidle.adding_eq]
  exact Nat.mod_eq_of_lt t.hist.totalCount.toNat_lt

/-- An observation that has room, away from resets, keeps the balance. -/
theorem Balanced.observe (h : s.Balanced) {i : ι} {value : UInt64}
    (hl : Apart s (.observe i value)) (hstep : s.step (.observe i value) = some t) :
    t.Balanced := by
  obtain ⟨hhist, hadding, hstoring, -⟩ := step_observe hstep
  have hzero := storing_eq_zero_iff.mpr hl.1
  refine ⟨hhist ▸ h.covered.observe value, fun _ => ?_, fun hpos => by omega⟩
  have hbalance := h.balance hzero
  have hcount : t.hist.totalCount = s.hist.totalCount := by rw [hhist]; rfl
  obtain ⟨b, a, hfit, hget, hle, hsum⟩ := h.covered.bucketSum_observe value
  have hlt := a.toNat_lt
  rw [hhist, ← hhist, hcount, hadding, hhist]
  rcases hl.2 with hroom | ⟨b', hfit', hfull⟩
  · omega
  · obtain rfl := Option.some.inj (hfit.symm.trans hfit')
    obtain rfl := Option.some.inj (hget.symm.trans hfull)
    have hmax : uint64Max.toNat = 18446744073709551615 := rfl
    omega

/-- A reset away from observations keeps the balance. -/
theorem Balanced.reset (h : s.Balanced) {i : ι} (hl : Apart s (.reset i))
    (hstep : s.step (.reset i) = some t) : t.Balanced := by
  obtain ⟨hhist, hadding, hstoring, -⟩ := step_reset hstep
  refine ⟨hhist ▸ h.covered.clear, fun hzero => by omega, fun _ => ⟨?_, ?_⟩⟩
  · rw [hhist, bucketSum_clear]
  · rw [hadding, adding_eq_zero_iff.mpr hl]

theorem Balanced.step (h : s.Balanced) {l : Half ι} (hl : Apart s l) (hstep : s.step l = some t) :
    t.Balanced := by
  cases l with
  | observe i value => exact h.observe hl hstep
  | reset i => exact h.reset hl hstep
  | update i => exact h.update hstep

/-- An observation that begins between the halves of a reset can end up in a bucket alone. -/
theorem Balanced.observe_storing (h : s.Balanced) {i : ι} {value : UInt64}
    (hpos : 0 < s.storing) (hstep : s.step (.observe i value) = some t) : ¬ EndsConsistent t := by
  intro hends
  obtain ⟨hhist, hadding, hstoring, hpending⟩ := step_observe hstep
  obtain ⟨hbuckets, hzero⟩ := h.cleared hpos
  obtain ⟨-, a, -, -, hle, hsum⟩ := h.covered.bucketSum_observe value
  -- the observation adds its count before the reset stores its own
  obtain ⟨u, hupdate⟩ := exists_update (s := t) (i := i) (by rw [hpending]; exact nofun)
  obtain ⟨-, huadding, hustoring, -⟩ := step_update hupdate
  rw [hpending] at huadding hustoring
  simp only [Pending.adding, Pending.storing] at huadding hustoring
  obtain ⟨v, hfinishes, hidle, hvsum, hvcount⟩ :=
    exists_finishes_of_adding (s := u) (by omega) (by omega)
  have hv := hends v (.head hupdate hfinishes) hidle
  rw [hvsum, (step_update_cases hupdate).1, hhist, hvcount] at hv
  have hone : UInt64.toNat 0 = 0 := rfl
  omega

/-- An observation without room ends up in the buckets and wraps the total count. -/
theorem Balanced.observe_full (h : s.Balanced) {i : ι} {value : UInt64} (hzero : s.storing = 0)
    (hroom : ¬ HasRoom s.hist value) (hstep : s.step (.observe i value) = some t) :
    ¬ EndsConsistent t := by
  intro hends
  obtain ⟨hhist, hadding, hstoring, -⟩ := step_observe hstep
  obtain ⟨b, a, hfit, hget, hle, hsum⟩ := h.covered.bucketSum_observe value
  rw [HasRoom, not_or, not_lt] at hroom
  have hfull : a ≠ uint64Max := fun ha => hroom.2 ⟨b, hfit, ha ▸ hget⟩
  have hnat : a.toNat ≠ 18446744073709551615 := fun ha => hfull (UInt64.toNat_inj.mp ha)
  have hlt := a.toNat_lt
  have hbalance := h.balance hzero
  obtain ⟨v, hfinishes, hidle, hvsum, hvcount⟩ :=
    exists_finishes_of_storing (s := t) (by omega)
  have hv := hends v hfinishes hidle
  have hvlt := v.hist.totalCount.toNat_lt
  rw [hvsum, hhist] at hv
  omega

/-- A store of the total count while observations are between their halves. -/
theorem store_finishes {i : ι} (hpending : s.pending i = .storeCount) (hstoring : s.storing = 1) :
    ∃ t, Finishes s t ∧ t.Idle ∧ bucketSum t.hist = bucketSum s.hist ∧
      t.hist.totalCount.toNat = s.adding % 18446744073709551616 := by
  obtain ⟨u, hupdate⟩ := exists_update (s := s) (i := i) (by rw [hpending]; exact nofun)
  obtain ⟨hhist, hadding, hustoring, -⟩ := step_update hupdate
  rw [hpending] at hhist hadding hustoring
  simp only [Pending.adding, Pending.storing] at hadding hustoring
  obtain ⟨v, hfinishes, hidle, hvsum, hvcount⟩ :=
    exists_finishes_of_storing (s := u) (by omega)
  refine ⟨v, .head hupdate hfinishes, hidle, ?_, ?_⟩
  · rw [hvsum, (step_update_cases hupdate).1]
  · have hzero : u.hist.totalCount.toNat = 0 := by rw [hhist]; rfl
    rw [hvcount, hzero]
    omega

/-- A reset that begins between the halves of an observation can leave it in the total count
alone. -/
theorem Balanced.reset_adding (h : s.Balanced) {i : ι} (hpos : 0 < s.adding)
    (hstep : s.step (.reset i) = some t) : ¬ EndsConsistent t := by
  intro hends
  obtain ⟨hhist, hadding, hstoring, hpending⟩ := step_reset hstep
  have hzero : s.storing = 0 := by
    by_contra hne
    have hcleared := (h.cleared (Nat.pos_of_ne_zero hne)).2
    omega
  have hempty : bucketSum t.hist = 0 := by rw [hhist, bucketSum_clear]
  by_cases hwrap : s.adding % 18446744073709551616 = 0
  · -- all pending counts would wrap: one of them is added before the store
    have hne : t.adding ≠ 0 := by omega
    rw [Ne, adding_eq_zero_iff] at hne
    push Not at hne
    obtain ⟨j, value, hj⟩ := hne
    obtain ⟨u, hupdate⟩ := exists_update (s := t) (i := j) (by rw [hj]; exact nofun)
    obtain ⟨-, huadding, hustoring, hothers⟩ := step_update hupdate
    rw [hj] at huadding hustoring
    simp only [Pending.adding, Pending.storing] at huadding hustoring
    have hij : i ≠ j := fun hij => by rw [← hij, hpending] at hj; cases hj
    obtain ⟨v, hfinishes, hidle, hvsum, hvcount⟩ :=
      store_finishes (s := u) ((hothers i hij).trans hpending) (by omega)
    have hv := hends v (.head hupdate hfinishes) hidle
    rw [hvsum, (step_update_cases hupdate).1, hempty, hvcount] at hv
    omega
  · obtain ⟨v, hfinishes, hidle, hvsum, hvcount⟩ := store_finishes hpending (by omega)
    have hv := hends v hfinishes hidle
    rw [hvsum, hempty, hvcount, hadding] at hv
    exact hwrap hv.symm

/-- After a step every end is consistent exactly when the step keeps the halves apart. -/
theorem Balanced.endsConsistent_iff (h : s.Balanced) {l : Half ι} (hstep : s.step l = some t) :
    EndsConsistent t ↔ Apart s l := by
  refine ⟨fun hends => ?_, fun hl => (h.step hl hstep).endsConsistent⟩
  cases l with
  | observe i value =>
      have hzero : s.storing = 0 := by
        by_contra hne
        exact h.observe_storing (Nat.pos_of_ne_zero hne) hstep hends
      refine ⟨storing_eq_zero_iff.mp hzero, ?_⟩
      by_contra hroom
      exact h.observe_full hzero hroom hstep hends
  | reset i =>
      refine adding_eq_zero_iff.mp ?_
      by_contra hne
      exact h.reset_adding (Nat.pos_of_ne_zero hne) hstep hends
  | update i => trivial

end

end Concurrent

section

variable {ι : Type*} [Fintype ι] [DecidableEq ι]

/-- A histogram with a bucket for all values: as long as no observation and no reset begins
between the halves of the other, the buckets sum to the total count whenever no operation is in
progress. Once one does, the operations in progress can end with another sum. -/
theorem totals_run_iff (buckets : ℕ) (boundaries : List UInt64)
    (hlast : (storedBoundaries buckets boundaries).getLast? = some uint64Max) :
    (∀ s : Concurrent ι, Reachable ((halves ι buckets boundaries).restrict Apart) s → s.Idle →
      bucketSum s.hist = s.hist.totalCount.toNat) ∧
    ∀ (ls : List (Half ι)) (s : Concurrent ι),
      Run ((halves ι buckets boundaries).filter fun _ _ t => EndsConsistent t)
          (.start ι buckets boundaries) ls s ↔
        Run ((halves ι buckets boundaries).restrict Apart) (.start ι buckets boundaries) ls s := by
  have hstart : (Concurrent.start ι buckets boundaries).Balanced :=
    .start (List.mem_of_getLast? hlast)
  have hbalanced : Inductive ((halves ι buckets boundaries).restrict Apart)
      Concurrent.Balanced := by
    refine .restrict ?_ fun s l t h hl hstep => h.step hl hstep
    rintro s rfl
    exact hstart
  refine ⟨fun s hs hidle => ?_, fun ls s => ?_⟩
  · exact (hbalanced.reachable hs).endsConsistent s (.refl _ s) hidle
  · exact run_filter_iff_restrict (I := Concurrent.Balanced)
      (fun _ _ _ h hl hstep => h.step hl hstep)
      (fun _ _ _ h hstep => h.endsConsistent_iff hstep) hstart

end

/-- A reset while two observations have only their sums pending, and an observation after it. -/
theorem totals_run_three : ∃ s : Concurrent (Fin 3),
    Run ((halves (Fin 3) 2 [10, uint64Max]).filter fun _ _ t => EndsConsistent t)
      (.start (Fin 3) 2 [10, uint64Max])
      [.observe 0 5, .observe 1 20, .update 1, .update 0, .reset 2, .update 0, .update 2,
        .observe 0 7, .update 0] s ∧
      bucketSum s.hist = 1 ∧ s.hist.totalCount = 1 :=
  ⟨_, ((totals_run_iff 2 [10, uint64Max] rfl).2 _ _).mpr
    (.cons ⟨⟨by decide, Or.inl (by decide)⟩, rfl⟩ (.cons ⟨⟨by decide, Or.inl (by decide)⟩, rfl⟩
    (.cons ⟨trivial, rfl⟩ (.cons ⟨trivial, rfl⟩
    (.cons ⟨Concurrent.adding_eq_zero_iff.mp rfl, rfl⟩ (.cons ⟨trivial, rfl⟩
    (.cons ⟨trivial, rfl⟩ (.cons ⟨⟨by decide, Or.inl (by decide)⟩, rfl⟩ (.cons ⟨trivial, rfl⟩
    (.nil _)))))))))), rfl, rfl⟩

/-- A thread resets the histogram while another one has its count pending. -/
theorem reset_between_halves : ¬ ∀ s : Concurrent Bool,
    Reachable (halves Bool 2 [10, uint64Max]) s → s.Idle →
      bucketSum s.hist = s.hist.totalCount.toNat := by
  intro hclaim
  have hidle : ∀ s : Concurrent Bool, s.pending false = .idle → s.pending true = .idle → s.Idle :=
    fun s hfalse htrue i => by cases i <;> assumption
  have hsum := hclaim _ (reachable_ofFun_iff.mpr ⟨[.observe false 5, .reset true, .update true,
    .update true, .update false, .update false], rfl⟩) (hidle _ rfl rfl)
  exact absurd hsum (by decide)

end Metrics

end ProcessThreadPool
