import ProcessThreadPool.Lib.ThreadFamily
import ProcessThreadPool.Lib.Transition
import ProcessThreadPool.Lib.WeakExchange
import ProcessThreadPool.Lib.WordOrder
import Mathlib.Algebra.GroupWithZero.Nat
import Mathlib.Data.Multiset.Fold

/-!
# Latency trackers

`metrics_latency_record` takes no lock: it adds to the count and to the total by two atomic
additions, and then lowers the minimum and raises the maximum by retry loops. Between two of
these accesses other threads may record. Each of the four fields shows the values of the
calls that have passed it, so when no call is in progress all four show the same values.
-/

namespace ProcessThreadPool

namespace Metrics

open ThreadFamily WordOrder WeakExchange

/-- `latency_tracker_t` without its name and the time of its reset. -/
structure LatencyTracker where
  count : UInt64
  totalTime : UInt64
  minTime : UInt64
  maxTime : UInt64
  deriving DecidableEq, Repr

/-- The tracker that `metrics_latency_register` sets up. -/
def LatencyTracker.registered : LatencyTracker := ⟨0, 0, uint64Max, 0⟩

/-- `latency_stats_t`. -/
structure LatencyStats where
  count : UInt64
  totalTime : UInt64
  minTime : UInt64
  maxTime : UInt64
  avgTime : UInt64
  deriving DecidableEq, Repr

/-- An unsigned division, which is undefined for a divisor of zero. -/
def divide (a b : UInt64) : Option UInt64 := if b = 0 then none else some (a / b)

/-- `metrics_latency_get` with the four values that it has loaded; `none` when it divides by
zero. -/
def metricsLatencyGet (tracker : LatencyTracker) : Option LatencyStats :=
  let avg := if 0 < tracker.count then divide tracker.totalTime tracker.count else some 0
  avg.map fun avgTime =>
    { count := tracker.count
      totalTime := tracker.totalTime
      minTime := if tracker.minTime = uint64Max then 0 else tracker.minTime
      maxTime := tracker.maxTime
      avgTime := avgTime }

/-- Where a call of `metrics_latency_record` stands, with its value and with what it has last
seen of the minimum or of the maximum. -/
inductive Recording where
  | idle
  | counting (value : UInt64)
  | summing (value : UInt64)
  | loadingMin (value : UInt64)
  | lowering (value current : UInt64)
  | loadingMax (value : UInt64)
  | raising (value current : UInt64)
  deriving DecidableEq, Repr

/-- A tracker and the threads that record. `recorded` has the values of the calls that have
returned. -/
structure Recordings (ι : Type*) where
  tracker : LatencyTracker
  threads : ι → Recording
  recorded : List UInt64

/-- The tracker has been registered. -/
def Recordings.start {ι : Type*} : Recordings ι := ⟨.registered, fun _ => .idle, []⟩

/-- A thread calls `metrics_latency_record` or takes its next step; a weak exchange may fail
spuriously. -/
inductive RecordMove (ι : Type*) where
  | call (thread : ι) (value : UInt64)
  | step (thread : ι) (spurious : Bool)
  deriving DecidableEq, Repr

section

variable {ι : Type*} [DecidableEq ι]

def Recordings.setThread (s : Recordings ι) (i : ι) (p : Recording) : Recordings ι :=
  { s with threads := Function.update s.threads i p }

/-- The next step of `metrics_latency_record`. The test of a loop is local, and is made
together with the exchange that follows it. -/
def metricsLatencyRecord (s : Recordings ι) (i : ι) (spurious : Bool) :
    Option (Recordings ι) :=
  let tracker := s.tracker
  match s.threads i with
  | .idle => none
  | .counting value =>
      some (Recordings.setThread { s with tracker := { tracker with count := tracker.count + 1 } }
        i (.summing value))
  | .summing value =>
      some (Recordings.setThread
        { s with tracker := { tracker with totalTime := tracker.totalTime + value } }
        i (.loadingMin value))
  | .loadingMin value => some (s.setThread i (.lowering value tracker.minTime))
  | .lowering value current =>
      match lower tracker.minTime value current spurious with
      | (minTime, some seen) =>
          some (Recordings.setThread { s with tracker := { tracker with minTime := minTime } }
            i (.lowering value seen))
      | (minTime, none) =>
          some (Recordings.setThread { s with tracker := { tracker with minTime := minTime } }
            i (.loadingMax value))
  | .loadingMax value => some (s.setThread i (.raising value tracker.maxTime))
  | .raising value current =>
      match raise tracker.maxTime value current spurious with
      | (maxTime, some seen) =>
          some (Recordings.setThread { s with tracker := { tracker with maxTime := maxTime } }
            i (.raising value seen))
      | (maxTime, none) =>
          some (Recordings.setThread
            { s with
              tracker := { tracker with maxTime := maxTime }
              recorded := s.recorded ++ [value] }
            i .idle)

/-- One step. -/
def Recordings.step (s : Recordings ι) : RecordMove ι → Option (Recordings ι)
  | .call i value =>
      if s.threads i = .idle then some (s.setThread i (.counting value)) else none
  | .step i spurious => metricsLatencyRecord s i spurious

/-- All interleavings of the threads that record to one tracker. -/
def recordings : Transition.System (Recordings ι) (RecordMove ι) :=
  Transition.System.ofFun Recordings.start Recordings.step

end

/-- What the four fields show of the recorded values. -/
structure Tallied (tracker : LatencyTracker) (recorded : List UInt64) : Prop where
  count : tracker.count.toNat = recorded.length % 2 ^ 64
  totalTime : tracker.totalTime.toNat = (recorded.map UInt64.toNat).sum % 2 ^ 64
  minTime : tracker.minTime = recorded.foldr min uint64Max
  maxTime : tracker.maxTime = recorded.foldr max 0

/-- The value of a call that has added to the count. -/
def Recording.counted : Recording → Multiset UInt64
  | .idle | .counting _ => 0
  | .summing v | .loadingMin v | .lowering v _ | .loadingMax v | .raising v _ => {v}

/-- The value of a call that has added to the total. -/
def Recording.summed : Recording → Multiset UInt64
  | .idle | .counting _ | .summing _ => 0
  | .loadingMin v | .lowering v _ | .loadingMax v | .raising v _ => {v}

/-- The value of a call that has left the loop for the minimum. -/
def Recording.lowered : Recording → Multiset UInt64
  | .loadingMax v | .raising v _ => {v}
  | _ => 0

section

variable {ι : Type*} [Fintype ι] {s t : Recordings ι}

/-- The values of the calls that have returned or are past a point of their way. -/
def passed (w : Recording → Multiset UInt64) (s : Recordings ι) : Multiset UInt64 :=
  s.recorded + total w s.threads

/-- What a thread has seen of the minimum is not below it. -/
def Recording.AboveMin (minTime : UInt64) : Recording → Prop
  | .lowering _ current => minTime ≤ current
  | _ => True

/-- What a thread has seen of the maximum is not above it. -/
def Recording.BelowMax (maxTime : UInt64) : Recording → Prop
  | .raising _ current => current ≤ maxTime
  | _ => True

def countOf (m : Multiset UInt64) : UInt64 := UInt64.ofNat (Multiset.card m)

def totalOf (m : Multiset UInt64) : UInt64 := UInt64.ofNat (m.map UInt64.toNat).sum

/-- Each field shows the values of the calls that have passed it. -/
structure Accounted (s : Recordings ι) : Prop where
  count : s.tracker.count = countOf (passed Recording.counted s)
  totalTime : s.tracker.totalTime = totalOf (passed Recording.summed s)
  minTime : s.tracker.minTime = (passed Recording.lowered s).fold min uint64Max
  maxTime : s.tracker.maxTime = (s.recorded : Multiset UInt64).fold max 0
  seenMin : ∀ i, (s.threads i).AboveMin s.tracker.minTime
  seenMax : ∀ i, (s.threads i).BelowMax s.tracker.maxTime

theorem countOf_add (m : Multiset UInt64) (v : UInt64) : countOf (m + {v}) = countOf m + 1 := by
  rw [countOf, Multiset.card_add, Multiset.card_singleton, ← ofNat_add_one]
  rfl

theorem totalOf_add (m : Multiset UInt64) (v : UInt64) : totalOf (m + {v}) = totalOf m + v := by
  rw [totalOf, Multiset.map_add, Multiset.sum_add, Multiset.map_singleton,
    Multiset.sum_singleton, ← ofNat_add_word]
  rfl

theorem fold_min_add (m : Multiset UInt64) (v : UInt64) :
    (m + {v}).fold min uint64Max = min (m.fold min uint64Max) v := by
  rw [add_comm, Multiset.singleton_add, Multiset.fold_cons_left, min_comm]

theorem fold_max_add (m : Multiset UInt64) (v : UInt64) :
    (m + {v}).fold max 0 = max (m.fold max 0) v := by
  rw [add_comm, Multiset.singleton_add, Multiset.fold_cons_left, max_comm]

theorem Recording.AboveMin.mono {p : Recording} {m m' : UInt64} (h : p.AboveMin m)
    (hle : m' ≤ m) : p.AboveMin m' := by
  cases p with
  | lowering v current => exact hle.trans h
  | _ => trivial

theorem Recording.BelowMax.mono {p : Recording} {m m' : UInt64} (h : p.BelowMax m)
    (hle : m ≤ m') : p.BelowMax m' := by
  cases p with
  | raising v current => exact le_trans h hle
  | _ => trivial

theorem passed_of_idle {w : Recording → Multiset UInt64} (hw : w .idle = 0)
    (hidle : ∀ i, s.threads i = .idle) : passed w s = s.recorded := by
  rw [passed, total_eq_zero fun i => by rw [hidle i, hw], add_zero]

theorem accounted_start : Accounted (Recordings.start : Recordings ι) where
  count := by
    rw [passed_of_idle rfl fun _ => rfl]
    rfl
  totalTime := by
    rw [passed_of_idle rfl fun _ => rfl]
    rfl
  minTime := by
    rw [passed_of_idle rfl fun _ => rfl]
    rfl
  maxTime := rfl
  seenMin := fun _ => trivial
  seenMax := fun _ => trivial

variable [DecidableEq ι]

omit [Fintype ι] in
theorem Recordings.setThread_forall {P : Recording → Prop} {i : ι} {p : Recording}
    (h : ∀ j, P (s.threads j)) (hp : P p) : ∀ j, P ((s.setThread i p).threads j) :=
  forall_update (P := fun _ => P) h hp

/-- A field that no call passes keeps showing the same values. -/
theorem shows_keep {α : Type*} {F : Multiset UInt64 → α} {w : Recording → Multiset UInt64}
    {cell : α} (h : cell = F (passed w s)) {i : ι} {p : Recording}
    (hp : w p = w (s.threads i)) : cell = F (passed w (s.setThread i p)) := by
  rw [h]
  exact congrArg (fun m => F (s.recorded + m)) (total_update_of_eq w s.threads hp).symm

/-- A field shows the value of the call that passes it. -/
theorem shows_pass {F : Multiset UInt64 → UInt64} {w : Recording → Multiset UInt64}
    (op : UInt64 → UInt64 → UInt64) (hF : ∀ m v, F (m + {v}) = op (F m) v) {cell : UInt64}
    (h : cell = F (passed w s)) {i : ι} {p : Recording} {v : UInt64}
    (hold : w (s.threads i) = 0) (hp : w p = {v}) :
    op cell v = F (passed w (s.setThread i p)) := by
  rw [h, ← hF, ← hp, passed, add_assoc, ← total_update_of_zero w s.threads p hold]
  rfl

/-- The value of a call that returns moves from its thread to the recorded ones. -/
theorem shows_return {α : Type*} {F : Multiset UInt64 → α} {w : Recording → Multiset UInt64}
    {cell : α} (h : cell = F (passed w s)) {i : ι} {v : UInt64} (hw : w .idle = 0)
    (hv : w (s.threads i) = {v}) :
    cell =
      F (passed w (Recordings.setThread { s with recorded := s.recorded ++ [v] } i .idle)) := by
  have hgive := total_update_to_zero w s.threads i hw
  rw [hv] at hgive
  have hlist : ((s.recorded ++ [v] : List UInt64) : Multiset UInt64) = s.recorded + {v} := by
    rw [← Multiset.coe_add, Multiset.coe_singleton]
  rw [h, passed, ← hgive, add_comm (total w _), ← add_assoc, ← hlist]
  rfl

/-- A thread goes on without passing a field. -/
theorem Accounted.move (h : Accounted s) {i : ι} {p : Recording}
    (hcounted : p.counted = (s.threads i).counted) (hsummed : p.summed = (s.threads i).summed)
    (hlowered : p.lowered = (s.threads i).lowered) (hmin : p.AboveMin s.tracker.minTime)
    (hmax : p.BelowMax s.tracker.maxTime) : Accounted (s.setThread i p) where
  count := shows_keep h.count hcounted
  totalTime := shows_keep h.totalTime hsummed
  minTime := shows_keep h.minTime hlowered
  maxTime := h.maxTime
  seenMin := Recordings.setThread_forall h.seenMin hmin
  seenMax := Recordings.setThread_forall h.seenMax hmax

/-- One round of the loop for the minimum. -/
theorem Accounted.lowering (h : Accounted s) {i : ι} {v current : UInt64} {spurious : Bool}
    (hi : s.threads i = .lowering v current)
    (hstep : metricsLatencyRecord s i spurious = some t) : Accounted t := by
  have hseen : s.tracker.minTime ≤ current := by
    have hcurrent := h.seenMin i
    rwa [hi] at hcurrent
  rcases hround : lower s.tracker.minTime v current spurious with ⟨minTime, _ | seen⟩
  · -- The call leaves the loop, and the minimum shows its value.
    simp only [metricsLatencyRecord, hi, hround, Option.some.injEq] at hstep
    subst hstep
    have hmin := lower_eq_min hseen (congrArg Prod.snd hround)
    have hdown : (lower s.tracker.minTime v current spurious).1 ≤ s.tracker.minTime := lower_le
    rw [hround] at hmin hdown
    exact {
      count := shows_keep h.count (by rw [hi]; rfl)
      totalTime := shows_keep h.totalTime (by rw [hi]; rfl)
      minTime := hmin.trans (shows_pass min fold_min_add h.minTime (by rw [hi]; rfl) rfl)
      maxTime := h.maxTime
      seenMin := Recordings.setThread_forall (fun j => (h.seenMin j).mono hdown) trivial
      seenMax := Recordings.setThread_forall h.seenMax trivial }
  · -- The exchange fails: the call has seen the minimum that is there.
    simp only [metricsLatencyRecord, hi, hround, Option.some.injEq] at hstep
    subst hstep
    obtain ⟨hmin, rfl⟩ := lower_eq_self (congrArg Prod.snd hround)
    rw [hround] at hmin
    subst hmin
    exact h.move (by rw [hi]; rfl) (by rw [hi]; rfl) (by rw [hi]; rfl) le_rfl trivial

/-- One round of the loop for the maximum. -/
theorem Accounted.raising (h : Accounted s) {i : ι} {v current : UInt64} {spurious : Bool}
    (hi : s.threads i = .raising v current)
    (hstep : metricsLatencyRecord s i spurious = some t) : Accounted t := by
  have hseen : current ≤ s.tracker.maxTime := by
    have hcurrent := h.seenMax i
    rwa [hi] at hcurrent
  rcases hround : raise s.tracker.maxTime v current spurious with ⟨maxTime, _ | seen⟩
  · -- The call leaves the loop and returns.
    simp only [metricsLatencyRecord, hi, hround, Option.some.injEq] at hstep
    subst hstep
    have hmax := raise_eq_max hseen (congrArg Prod.snd hround)
    have hup : s.tracker.maxTime ≤ (raise s.tracker.maxTime v current spurious).1 := le_raise
    rw [hround] at hmax hup
    refine {
      count := shows_return h.count rfl (by rw [hi]; rfl)
      totalTime := shows_return h.totalTime rfl (by rw [hi]; rfl)
      minTime := shows_return h.minTime rfl (by rw [hi]; rfl)
      maxTime := hmax.trans ?_
      seenMin := Recordings.setThread_forall h.seenMin trivial
      seenMax := Recordings.setThread_forall (fun j => (h.seenMax j).mono hup) trivial }
    rw [h.maxTime, ← fold_max_add, ← Multiset.coe_singleton, Multiset.coe_add]
    rfl
  · simp only [metricsLatencyRecord, hi, hround, Option.some.injEq] at hstep
    subst hstep
    obtain ⟨hmax, rfl⟩ := raise_eq_self (congrArg Prod.snd hround)
    rw [hround] at hmax
    subst hmax
    exact h.move (by rw [hi]; rfl) (by rw [hi]; rfl) (by rw [hi]; rfl) trivial le_rfl

theorem Accounted.record (h : Accounted s) {i : ι} {spurious : Bool}
    (hstep : metricsLatencyRecord s i spurious = some t) : Accounted t := by
  cases hi : s.threads i with
  | idle => simp [metricsLatencyRecord, hi] at hstep
  | counting v =>
      simp only [metricsLatencyRecord, hi, Option.some.injEq] at hstep
      subst hstep
      exact ⟨shows_pass (fun c _ => c + 1) countOf_add h.count (by rw [hi]; rfl) rfl,
        shows_keep h.totalTime (by rw [hi]; rfl), shows_keep h.minTime (by rw [hi]; rfl),
        h.maxTime, Recordings.setThread_forall h.seenMin trivial,
        Recordings.setThread_forall h.seenMax trivial⟩
  | summing v =>
      simp only [metricsLatencyRecord, hi, Option.some.injEq] at hstep
      subst hstep
      exact ⟨shows_keep h.count (by rw [hi]; rfl),
        shows_pass (· + ·) totalOf_add h.totalTime (by rw [hi]; rfl) rfl,
        shows_keep h.minTime (by rw [hi]; rfl), h.maxTime,
        Recordings.setThread_forall h.seenMin trivial,
        Recordings.setThread_forall h.seenMax trivial⟩
  | loadingMin v =>
      simp only [metricsLatencyRecord, hi, Option.some.injEq] at hstep
      subst hstep
      exact h.move (by rw [hi]; rfl) (by rw [hi]; rfl) (by rw [hi]; rfl) le_rfl trivial
  | lowering v current => exact h.lowering hi hstep
  | loadingMax v =>
      simp only [metricsLatencyRecord, hi, Option.some.injEq] at hstep
      subst hstep
      exact h.move (by rw [hi]; rfl) (by rw [hi]; rfl) (by rw [hi]; rfl) trivial le_rfl
  | raising v current => exact h.raising hi hstep

theorem inductive_accounted :
    Transition.Inductive (recordings : Transition.System (Recordings ι) _) Accounted where
  init := by
    rintro s rfl
    exact accounted_start
  step := by
    intro s l t h hstep
    cases l with
    | step i spurious => exact h.record hstep
    | call i v =>
        simp only [recordings, Transition.System.ofFun, Recordings.step] at hstep
        split_ifs at hstep with hi
        obtain rfl := Option.some.inj hstep
        exact h.move (by rw [hi]; rfl) (by rw [hi]; rfl) (by rw [hi]; rfl) trivial trivial

/-- What `metrics_latency_get` returns: it does not divide by zero. -/
theorem metricsLatencyGet_eq (tracker : LatencyTracker) :
    ∃ stats, metricsLatencyGet tracker = some stats ∧ stats.count = tracker.count ∧
      stats.totalTime = tracker.totalTime ∧ stats.maxTime = tracker.maxTime ∧
      stats.avgTime = if tracker.count = 0 then 0 else tracker.totalTime / tracker.count := by
  by_cases hcount : tracker.count = 0
  · have hnot : ¬ 0 < tracker.count := by
      rw [hcount]
      exact UInt64.lt_irrefl 0
    simp only [metricsLatencyGet, if_neg hnot, if_pos hcount]
    exact ⟨_, rfl, rfl, rfl, rfl, rfl⟩
  · simp only [metricsLatencyGet, if_pos (UInt64.pos_iff_ne_zero.mpr hcount), divide,
      if_neg hcount]
    exact ⟨_, rfl, rfl, rfl, rfl, rfl⟩

omit [DecidableEq ι] in
/-- When no call is in progress the fields show the recorded values. -/
theorem Accounted.tallied (h : Accounted s) (hidle : ∀ i, s.threads i = .idle) :
    Tallied s.tracker s.recorded where
  count := by
    rw [h.count, passed_of_idle rfl hidle, countOf, Multiset.coe_card, UInt64.toNat_ofNat']
  totalTime := by
    rw [h.totalTime, passed_of_idle rfl hidle, totalOf, Multiset.map_coe, Multiset.sum_coe,
      UInt64.toNat_ofNat']
  minTime := by
    rw [h.minTime, passed_of_idle rfl hidle, Multiset.coe_fold_r]
  maxTime := by
    rw [h.maxTime, Multiset.coe_fold_r]

/-- Whenever no call is in progress, the tracker shows all recorded values, the count and the
total modulo `2 ^ 64`, and `metrics_latency_get` returns their average. -/
theorem latency_tallied {s : Recordings ι} (hs : Transition.Reachable recordings s)
    (hidle : ∀ i, s.threads i = .idle) : Tallied s.tracker s.recorded ∧
      ∃ stats, metricsLatencyGet s.tracker = some stats ∧ stats.avgTime =
        if s.tracker.count = 0 then 0 else s.tracker.totalTime / s.tracker.count := by
  obtain ⟨stats, hstats, -, -, -, havg⟩ := metricsLatencyGet_eq s.tracker
  exact ⟨(inductive_accounted.reachable hs).tallied hidle, stats, hstats, havg⟩

/-- Two threads record 5 and 3, and the exchange of the second fails and is tried again. -/
theorem latency_tallied_two : ∃ s : Recordings (Fin 2), Tallied s.tracker [5, 3] ∧
    ∃ stats, metricsLatencyGet s.tracker = some stats ∧ stats.avgTime =
      if s.tracker.count = 0 then 0 else s.tracker.totalTime / s.tracker.count := by
  have hrun : Transition.Reachable (recordings (ι := Fin 2)) _ :=
    Transition.reachable_ofFun_iff.mpr ⟨[.call 0 5, .call 1 3, .step 0 false, .step 1 false,
      .step 0 false, .step 1 false, .step 0 false, .step 1 false, .step 0 false, .step 1 false,
      .step 1 true, .step 1 false, .step 0 false, .step 0 false, .step 1 false,
      .step 1 false], rfl⟩
  exact ⟨_, latency_tallied hrun (by decide)⟩

/-! ## A call that runs alone -/

omit [Fintype ι] in
/-- A call of `metrics_latency_record` that nobody disturbs returns after seven steps. -/
theorem exec_record (s : Recordings ι) {i : ι} (hi : s.threads i = .idle) (v : UInt64) :
    ∃ tracker, Transition.exec Recordings.step s (.call i v :: List.replicate 6 (.step i false)) =
      some (Recordings.setThread ⟨tracker, s.threads, s.recorded ++ [v]⟩ i .idle) := by
  rcases hmin : lower s.tracker.minTime v s.tracker.minTime false with ⟨minTime, _ | seen⟩
  · rcases hmax : raise s.tracker.maxTime v s.tracker.maxTime false with ⟨maxTime, _ | seen⟩
    · refine ⟨⟨s.tracker.count + 1, s.tracker.totalTime + v, minTime, maxTime⟩, ?_⟩
      simp [Transition.exec, List.replicate, Recordings.step, metricsLatencyRecord,
        Recordings.setThread, hi, hmin, hmax]
    · cases (congrArg Prod.snd hmax).symm.trans raise_leaves
  · cases (congrArg Prod.snd hmin).symm.trans lower_leaves

/-- After `2 ^ 64` calls the count is not their number. -/
theorem count_wraps : ¬ ∀ s : Recordings (Fin 1), Transition.Reachable recordings s →
    (∀ i, s.threads i = .idle) → s.tracker.count.toNat = s.recorded.length := by
  intro hclaim
  have hmany : ∀ k, ∃ s : Recordings (Fin 1), Transition.Reachable recordings s ∧
      (∀ i, s.threads i = .idle) ∧ s.recorded.length = k := by
    intro k
    induction k with
    | zero => exact ⟨.start, ⟨_, [], rfl, .nil _⟩, fun _ => rfl, rfl⟩
    | succ k ih =>
        obtain ⟨s, ⟨s₀, ls, hinit, hrun⟩, hidle, hlength⟩ := ih
        obtain ⟨tracker, hexec⟩ := exec_record s (hidle 0) 0
        refine ⟨_, ⟨s₀, _, hinit, hrun.append (Transition.run_ofFun_iff.mpr hexec)⟩,
          Recordings.setThread_forall (P := fun p => p = .idle) hidle rfl, ?_⟩
        exact (List.length_append).trans (congrArg (· + 1) hlength)
  obtain ⟨s, hs, hidle, hlength⟩ := hmany (2 ^ 64)
  have hcount := hclaim s hs hidle
  rw [hlength] at hcount
  exact absurd (UInt64.toNat_lt s.tracker.count) (by omega)

end

end Metrics

end ProcessThreadPool
