import ProcessThreadPool.Lib.NameTable
import ProcessThreadPool.Lib.Transition
import ProcessThreadPool.Metrics.Histogram
import ProcessThreadPool.Metrics.Latency

/-!
# The registry of metrics

Counters, latency trackers and histograms are registered by name, each kind in an array of its
own. The three functions test first whether the array is full and look for the name
afterwards. They compare the name in full with the stored ones, and store its first 63 bytes.
-/

namespace ProcessThreadPool

namespace Metrics

open NameTable

/-- A C string: bytes other than zero. -/
structure CString where
  bytes : List UInt8
  nonzero : 0 ∉ bytes
  deriving DecidableEq

/-- What `strncpy` and the terminating zero leave of a name in its 64 bytes. -/
def CString.stored (name : CString) : CString where
  bytes := name.bytes.take 63
  nonzero := fun h => name.nonzero (List.mem_of_mem_take h)

/-- The part of an entry that all kinds of metrics have, and the metric. -/
structure Entry (μ : Type*) where
  name : CString
  lastResetTime : UInt64
  metric : μ
  deriving DecidableEq

/-- `METRICS_MAX_COUNTERS`, `METRICS_MAX_LATENCIES`, `METRICS_MAX_HISTOGRAMS` and
`METRICS_HISTOGRAM_BUCKETS`. -/
structure Limits where
  maxCounters : ℕ
  maxLatencies : ℕ
  maxHistograms : ℕ
  histogramBuckets : ℕ
  deriving DecidableEq, Repr

/-- `metrics_registry_t`, as far as the used entries go, and `g_metrics_initialized`. The
metric of a counter is its value. -/
structure Registry where
  initialized : Bool
  counters : List (Entry UInt64)
  latencies : List (Entry LatencyTracker)
  histograms : List (Entry Histogram)
  deriving DecidableEq

/-- The registry after `metrics_init`. -/
def metricsInit : Registry := ⟨true, [], [], []⟩

/-- `metrics_counter_register`. The result is the identifier, `none` for `-1`; a `NULL` name
is `none` too. -/
def metricsCounterRegister (limits : Limits) (r : Registry) (name : Option CString)
    (now : UInt64) : Option ℕ × Registry :=
  match name with
  | none => (none, r)
  | some name =>
      let room := r.initialized && decide (r.counters.length < limits.maxCounters)
      let (id, counters) := register room Entry.name r.counters ⟨name.stored, now, 0⟩ name
      (id, { r with counters := counters })

/-- `metrics_latency_register`. -/
def metricsLatencyRegister (limits : Limits) (r : Registry) (name : Option CString)
    (now : UInt64) : Option ℕ × Registry :=
  match name with
  | none => (none, r)
  | some name =>
      let room := r.initialized && decide (r.latencies.length < limits.maxLatencies)
      let (id, latencies) :=
        register room Entry.name r.latencies ⟨name.stored, now, .registered⟩ name
      (id, { r with latencies := latencies })

/-- The test of the boundaries: there are some. -/
def validBoundaries : Option (List UInt64) → Bool
  | none | some [] => false
  | some _ => true

/-- `metrics_histogram_register`. `bucket_count` is the number of boundaries. -/
def metricsHistogramRegister (limits : Limits) (r : Registry) (name : Option CString)
    (boundaries : Option (List UInt64)) (now : UInt64) : Option ℕ × Registry :=
  match name with
  | none => (none, r)
  | some name =>
      let room := r.initialized && validBoundaries boundaries &&
        decide (r.histograms.length < limits.maxHistograms)
      let hist := initHistogramBuckets limits.histogramBuckets (boundaries.getD [])
      let (id, histograms) := register room Entry.name r.histograms ⟨name.stored, now, hist⟩ name
      (id, { r with histograms := histograms })

/-- The three kinds of metrics. -/
inductive Kind where
  | counter
  | latency
  | histogram
  deriving DecidableEq, Repr

/-- A call of one of the three functions with a name. -/
structure Registration where
  kind : Kind
  name : CString
  boundaries : Option (List UInt64)
  now : UInt64
  deriving DecidableEq

/-- The call. -/
def Registration.perform (limits : Limits) (r : Registry) (l : Registration) :
    Option ℕ × Registry :=
  match l.kind with
  | .counter => metricsCounterRegister limits r (some l.name) l.now
  | .latency => metricsLatencyRegister limits r (some l.name) l.now
  | .histogram => metricsHistogramRegister limits r (some l.name) l.boundaries l.now

/-- A registry with the identifiers that its functions have returned for names. -/
structure Naming where
  registry : Registry
  log : Kind → List (CString × ℕ)

def Naming.step (limits : Limits) (s : Naming) (l : Registration) : Option Naming :=
  let (id, registry) := l.perform limits s.registry
  some ⟨registry, Function.update s.log l.kind (logged (s.log l.kind) l.name id)⟩

/-- All sequences of registrations. -/
def registrations (limits : Limits) : Transition.System Naming Registration :=
  Transition.System.ofFun ⟨metricsInit, fun _ => []⟩ (Naming.step limits)

/-- A name that was registered keeps its identifier and leaves the registry alone, and its
identifier is that of no other name. -/
structure StableNaming (limits : Limits) (s : Naming) (l : Registration) : Prop where
  again : ∀ i, (l.name, i) ∈ s.log l.kind → l.perform limits s.registry = (some i, s.registry)
  apart : ∀ r, (l.perform limits s.registry).1 = some r →
    ∀ m j, (m, j) ∈ s.log l.kind → m ≠ l.name → j ≠ r

/-- The names in the entries of a kind. -/
def Registry.names (r : Registry) : Kind → List CString
  | .counter => r.counters.map Entry.name
  | .latency => r.latencies.map Entry.name
  | .histogram => r.histograms.map Entry.name

/-- How many entries there are of a kind. -/
def Limits.capacity (limits : Limits) : Kind → ℕ
  | .counter => limits.maxCounters
  | .latency => limits.maxLatencies
  | .histogram => limits.maxHistograms

/-- The call gets as far as looking for the name. -/
def Registration.HasRoom (limits : Limits) (r : Registry) (l : Registration) : Prop :=
  (l.kind = .histogram → validBoundaries l.boundaries = true) ∧
    (r.names l.kind).length < limits.capacity l.kind

/-- A name that was registered is short and the array is not full, and a new name is not what
is stored of another one. -/
structure ClearName (limits : Limits) (s : Naming) (l : Registration) : Prop where
  again : ∀ i, (l.name, i) ∈ s.log l.kind →
    l.HasRoom limits s.registry ∧ l.name.bytes.length ≤ 63
  fresh : (∀ i, (l.name, i) ∉ s.log l.kind) → l.HasRoom limits s.registry →
    l.name ∉ s.registry.names l.kind

/-- The array of a kind, and the registry with another array in its place. -/
structure ArrayOf (r : Registry) (k : Kind) where
  μ : Type
  table : List (Entry μ)
  put : List (Entry μ) → Registry
  put_table : put table = r
  injective : Function.Injective put
  names_table : r.names k = table.map Entry.name
  names_put : ∀ table', (put table').names k = table'.map Entry.name
  names_other : ∀ table' k', k' ≠ k → (put table').names k' = r.names k'
  initialized : ∀ table', (put table').initialized = r.initialized

def arrayOf (r : Registry) : (k : Kind) → ArrayOf r k
  | .counter =>
      { μ := UInt64
        table := r.counters
        put := fun table => { r with counters := table }
        put_table := rfl
        injective := fun _ _ h => congrArg Registry.counters h
        names_table := rfl
        names_put := fun _ => rfl
        names_other := fun _ k' hk => by cases k' <;> first | rfl | exact absurd rfl hk
        initialized := fun _ => rfl }
  | .latency =>
      { μ := LatencyTracker
        table := r.latencies
        put := fun table => { r with latencies := table }
        put_table := rfl
        injective := fun _ _ h => congrArg Registry.latencies h
        names_table := rfl
        names_put := fun _ => rfl
        names_other := fun _ k' hk => by cases k' <;> first | rfl | exact absurd rfl hk
        initialized := fun _ => rfl }
  | .histogram =>
      { μ := Histogram
        table := r.histograms
        put := fun table => { r with histograms := table }
        put_table := rfl
        injective := fun _ _ h => congrArg Registry.histograms h
        names_table := rfl
        names_put := fun _ => rfl
        names_other := fun _ k' hk => by cases k' <;> first | rfl | exact absurd rfl hk
        initialized := fun _ => rfl }

section

variable {limits : Limits} {s t : Naming} {l : Registration}

theorem CString.stored_eq_iff (name : CString) : name.stored = name ↔ name.bytes.length ≤ 63 := by
  obtain ⟨bytes, hbytes⟩ := name
  simp only [CString.stored, CString.mk.injEq, List.take_eq_self_iff]

theorem CString.stored_stored (name : CString) : name.stored.stored = name.stored := by
  rw [CString.stored_eq_iff]
  exact (List.length_take_le 63 name.bytes)

/-- All three functions register in the array of their kind. -/
theorem Registration.perform_eq (limits : Limits) (r : Registry) (l : Registration) :
    ∃ room entry, (room = true ↔ r.initialized = true ∧ l.HasRoom limits r) ∧
      entry.name = l.name.stored ∧ l.perform limits r =
        ((register room Entry.name (arrayOf r l.kind).table entry l.name).1,
          (arrayOf r l.kind).put
            (register room Entry.name (arrayOf r l.kind).table entry l.name).2) := by
  obtain ⟨kind, name, boundaries, now⟩ := l
  cases kind with
  | counter =>
      refine ⟨_, ⟨name.stored, now, (0 : UInt64)⟩, ?_, rfl, rfl⟩
      simp [Registration.HasRoom, Registry.names, Limits.capacity]
  | latency =>
      refine ⟨_, ⟨name.stored, now, LatencyTracker.registered⟩, ?_, rfl, rfl⟩
      simp [Registration.HasRoom, Registry.names, Limits.capacity]
  | histogram =>
      refine ⟨_, ⟨name.stored, now, initHistogramBuckets limits.histogramBuckets
        (boundaries.getD [])⟩, ?_, rfl, rfl⟩
      simp [Registration.HasRoom, Registry.names, Limits.capacity, and_assoc]

/-- The stored names of each kind agree with the identifiers returned so far. -/
structure Agrees (s : Naming) : Prop where
  initialized : s.registry.initialized = true
  consistent : ∀ k, Consistent CString.stored (s.log k) id (s.registry.names k)

theorem agrees_init : Agrees ⟨metricsInit, fun _ => []⟩ where
  initialized := rfl
  consistent := fun k => by cases k <;> exact consistent_nil

theorem Agrees.table (h : Agrees s) (k : Kind) :
    Consistent CString.stored (s.log k) Entry.name (arrayOf s.registry k).table := by
  have hk := h.consistent k
  rw [(arrayOf s.registry k).names_table] at hk
  exact consistent_map_iff.mp hk

theorem ArrayOf.put_eq_iff {r : Registry} {k : Kind} (a : ArrayOf r k)
    {table : List (Entry a.μ)} : a.put table = r ↔ table = a.table := by
  constructor
  · intro h
    exact a.injective (h.trans a.put_table.symm)
  · rintro rfl
    exact a.put_table

/-- What is asked of the registry is what is asked of the array. -/
theorem stableNaming_iff {result : Option ℕ × List (Entry (arrayOf s.registry l.kind).μ)}
    (hperform : l.perform limits s.registry =
      (result.1, (arrayOf s.registry l.kind).put result.2)) :
    StableNaming limits s l ↔
      Stable (s.log l.kind) (arrayOf s.registry l.kind).table l.name result := by
  have hagain : ∀ i, l.perform limits s.registry = (some i, s.registry) ↔
      result = (some i, (arrayOf s.registry l.kind).table) := by
    intro i
    rw [hperform, Prod.ext_iff, Prod.ext_iff, ArrayOf.put_eq_iff]
  have hid : (l.perform limits s.registry).1 = result.1 := by rw [hperform]
  constructor
  · intro h
    exact ⟨fun i hi => (hagain i).mp (h.again i hi), fun r hr => h.apart r (hid.trans hr)⟩
  · intro h
    exact ⟨fun i hi => (hagain i).mpr (h.again i hi), fun r hr => h.apart r (hid.symm.trans hr)⟩

theorem clearName_iff (hinit : s.registry.initialized = true) {room : Bool}
    (hroom : room = true ↔ s.registry.initialized = true ∧ l.HasRoom limits s.registry) :
    ClearName limits s l ↔ Clear CString.stored (s.log l.kind) room Entry.name
      (arrayOf s.registry l.kind).table l.name := by
  rw [hinit, eq_self, true_and] at hroom
  have hnames : l.name ∉ s.registry.names l.kind ↔
      ∀ e ∈ (arrayOf s.registry l.kind).table, e.name ≠ l.name := by
    rw [(arrayOf s.registry l.kind).names_table, List.mem_map]
    simp only [not_exists, not_and, ne_eq]
  constructor
  · intro h
    refine ⟨fun i hi => ?_, fun hnew hok => hnames.mp (h.fresh hnew (hroom.mp hok))⟩
    rw [hroom, CString.stored_eq_iff]
    exact h.again i hi
  · intro h
    refine ⟨fun i hi => ?_, fun hnew hok => hnames.mpr (h.fresh hnew (hroom.mpr hok))⟩
    rw [← hroom, ← CString.stored_eq_iff]
    exact h.again i hi

theorem Agrees.stable_iff (h : Agrees s) : StableNaming limits s l ↔ ClearName limits s l := by
  obtain ⟨room, entry, hroom, -, hperform⟩ := l.perform_eq limits s.registry
  rw [stableNaming_iff hperform, (h.table l.kind).stable_iff, clearName_iff h.initialized hroom]

theorem Agrees.step (h : Agrees s) (hclear : ClearName limits s l)
    (hstep : s.step limits l = some t) : Agrees t := by
  obtain ⟨room, entry, hroom, hentry, hperform⟩ := l.perform_eq limits s.registry
  simp only [Naming.step, hperform, Option.some.injEq] at hstep
  subst hstep
  refine ⟨((arrayOf s.registry l.kind).initialized _).trans h.initialized, fun k => ?_⟩
  by_cases hk : k = l.kind
  · subst hk
    simp only [Function.update_self, ArrayOf.names_put]
    exact consistent_map_iff.mpr ((h.table _).register
      ((clearName_iff h.initialized hroom).mp hclear) hentry (CString.stored_stored _))
  · simp only [Function.update_of_ne hk, (arrayOf s.registry l.kind).names_other _ k hk]
    exact h.consistent k

/-- In a sequence of registrations the naming is stable and injective exactly when every name
that is registered again is short and finds its array not full, and no new name is what is
stored of another one. -/
theorem naming_run_iff (limits : Limits) (ls : List Registration) (s : Naming) :
    Transition.Run ((registrations limits).filter fun s l _ => StableNaming limits s l)
        ⟨metricsInit, fun _ => []⟩ ls s ↔
      Transition.Run ((registrations limits).restrict (ClearName limits))
        ⟨metricsInit, fun _ => []⟩ ls s := by
  apply Transition.run_filter_iff_restrict (I := Agrees)
  · intro s l t h hclear hstep
    exact h.step hclear hstep
  · intro s l t h _
    exact h.stable_iff
  · exact agrees_init

end

/-- One counter fills the array, and its name is registered again. -/
theorem full_registry_forgets : ¬ ∀ (limits : Limits) (s : Naming) (l : Registration),
    Transition.Reachable (registrations limits) s → StableNaming limits s l := by
  intro hclaim
  have hrun : Transition.Reachable (registrations ⟨1, 1, 1, 1⟩) _ :=
    Transition.reachable_ofFun_iff.mpr ⟨[⟨.counter, ⟨[97], by decide⟩, none, 1⟩], rfl⟩
  have hagain := (hclaim ⟨1, 1, 1, 1⟩ _ ⟨.counter, ⟨[97], by decide⟩, none, 2⟩ hrun).again 0
    (List.mem_singleton_self _)
  cases congrArg Prod.fst hagain

end Metrics

end ProcessThreadPool
