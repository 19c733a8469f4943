import Mathlib.Data.List.ReduceOption
import ProcessThreadPool.Lib.Transition
import ProcessThreadPool.LockfreeQueue.Fifo

/-!
# `NULL` as the answer of an empty queue

`queue_dequeue` answers `NULL` on an empty queue, and `queue_destroy` dequeues until it does.
`queue_enqueue` refuses a `NULL` task, `queue_enqueue_batch` stores the entries of its array
as they are. A ring that holds `NULL` entries is the picture of a ring over `Option τ` in which
an empty slot and a `NULL` entry can still be told apart, so what is known of the ring as a
first-in first-out list applies to it.
-/

namespace ProcessThreadPool

namespace LockfreeQueue

open Transition

/-- A call with arbitrary arguments, `none` for `NULL`. An array that is handed to
`queue_enqueue_batch` has `count` entries. -/
inductive RawCall (τ : Type*) where
  | enqueue (task : Option τ)
  | dequeue
  | enqueueBatch (tasks : Option (List (Option τ))) (count : UInt32)
      (long : ∀ entries ∈ tasks, count.toNat ≤ entries.length)
  | dequeueBatch (hasArray : Bool) (maxCount : UInt32)

/-- The queue, and the tasks that it has accepted and given out, in order. -/
structure Account (τ : Type*) where
  queue : Queue τ
  accepted : List τ
  dequeued : List τ
  deriving DecidableEq, Repr

/-- One call. -/
def rawStep {τ : Type*} (s : Account τ) : RawCall τ → Option (Account τ)
  | .enqueue task =>
      (queueEnqueue s.queue task).map fun r =>
        { s with
          queue := r.2
          accepted := if r.1 then s.accepted ++ task.toList else s.accepted }
  | .dequeue =>
      (queueDequeue s.queue).map fun r =>
        { s with queue := r.2, dequeued := s.dequeued ++ r.1.toList }
  | .enqueueBatch tasks count _ =>
      (queueEnqueueBatch s.queue tasks count).map fun r =>
        { s with
          queue := r.2
          accepted := s.accepted ++ ((tasks.getD []).take r.1.2.toNat).reduceOption }
  | .dequeueBatch hasArray maxCount =>
      (queueDequeueBatch s.queue hasArray maxCount).map fun r =>
        { s with queue := r.2, dequeued := s.dequeued ++ r.1.reduceOption }

/-- The loop of `queue_destroy`: the tasks that `task_destroy` is called on, if `fuel` rounds
are enough. -/
def queueDestroyLoop {τ : Type*} : ℕ → Queue τ → Option (List τ)
  | 0, _ => none
  | fuel + 1, q =>
      (queueDequeue q).bind fun r =>
        match r.1 with
        | none => some []
        | some task => (queueDestroyLoop fuel r.2).map (task :: ·)

/-- `queue_dequeue` answers `NULL` exactly when the queue is empty, and `queue_destroy` would
destroy each task that was accepted and not dequeued once. -/
structure NullMeansEmpty {τ : Type*} (s : Account τ) : Prop where
  dequeue : ∃ task q, queueDequeue s.queue = some (task, q) ∧
    (task = none ↔ queueSize s.queue = 0)
  destroy : ∃ fuel tasks, queueDestroyLoop fuel s.queue = some tasks ∧
    s.dequeued ++ tasks = s.accepted

/-- `NULL` means empty now, and as long as the queue is only emptied from here on. -/
def StaysReliable {τ : Type*} (s : Account τ) : Prop :=
  ∀ n t, exec rawStep s (List.replicate n .dequeue) = some t → NullMeansEmpty t

/-- A batch stores no `NULL` entry. -/
def StoresTasks {τ : Type*} (s : Account τ) : RawCall τ → Prop
  | .enqueueBatch tasks count _ =>
      none ∉ (tasks.getD []).take (min count.toNat (enqueueAvailable s.queue).toNat)
  | _ => True

instance StoresTasks.decidable {τ : Type*} [DecidableEq τ] (s : Account τ) :
    (call : RawCall τ) → Decidable (StoresTasks s call)
  | .enqueueBatch _ _ _ => inferInstanceAs (Decidable (_ ∉ _))
  | .enqueue _ | .dequeue | .dequeueBatch _ _ => .isTrue trivial

/-- All calls on a queue. -/
def rawQueue {τ : Type*} (q : Queue τ) : System (Account τ) (RawCall τ) :=
  System.ofFun ⟨q, [], []⟩ rawStep

/-! ## Rings in which `NULL` entries are marked -/

/-- Forget the difference between an empty slot and a `NULL` entry. -/
def Queue.collapse {τ : Type*} (q : Queue (Option τ)) : Queue τ :=
  ⟨q.head, q.tail, q.capacity, q.mask, q.tasks.map Option.join⟩

section

variable {τ : Type*} {q : Queue (Option τ)}

@[simp] theorem collapse_head : q.collapse.head = q.head := rfl

@[simp] theorem collapse_tail : q.collapse.tail = q.tail := rfl

@[simp] theorem collapse_capacity : q.collapse.capacity = q.capacity := rfl

@[simp] theorem collapse_mask : q.collapse.mask = q.mask := rfl

theorem collapse_readSlot (i : UInt32) :
    q.collapse.readSlot i = (q.readSlot i).map Option.join :=
  List.getElem?_map

theorem collapse_writeSlot (i : UInt32) (task : Option (Option τ)) :
    q.collapse.writeSlot i task.join = (q.writeSlot i task).map Queue.collapse := by
  have hlength : q.collapse.tasks.length = q.tasks.length := List.length_map _
  rw [Queue.writeSlot, Queue.writeSlot, hlength]
  split_ifs
  · rw [Option.map_some]
    simp only [Queue.collapse, List.map_set]
  · rfl

theorem collapse_enqueue (task : τ) : queueEnqueue q.collapse (some task) =
    (queueEnqueue q (some (some task))).map (Prod.map id Queue.collapse) := by
  have hwrite := collapse_writeSlot (q := q) (q.tail &&& q.mask) (some (some task))
  simp only [Option.join_some] at hwrite
  simp only [queueEnqueue, Option.isNone_some, Bool.false_eq_true, if_false, collapse_head,
    collapse_tail, collapse_mask, hwrite]
  split_ifs
  · rfl
  · rw [Option.map_map, Option.map_map]
    rfl

theorem collapse_dequeue : queueDequeue q.collapse =
    (queueDequeue q).map (Prod.map Option.join Queue.collapse) := by
  have hwrite := collapse_writeSlot (q := q) (q.head &&& q.mask) none
  simp only [Option.join_none] at hwrite
  simp only [queueDequeue, collapse_head, collapse_tail, collapse_mask, hwrite,
    collapse_readSlot]
  split_ifs
  · rfl
  · rw [Option.bind_map, Option.map_bind]
    refine congrArg _ (funext fun task => ?_)
    rw [Function.comp_apply, Function.comp_apply, Option.map_map, Option.map_map]
    rfl

theorem collapse_enqueueLoop (tasks : List (Option τ)) (n : ℕ) (i : UInt32) :
    enqueueLoop tasks n i q.collapse =
      (enqueueLoop (tasks.map some) n i q).map Queue.collapse := by
  induction n generalizing i q with
  | zero => rfl
  | succ n ih =>
    rw [enqueueLoop, enqueueLoop, List.getElem?_map, Option.bind_map, Option.map_bind]
    refine congrArg _ (funext fun task => ?_)
    have hwrite := collapse_writeSlot (q := q) ((q.tail + i) &&& q.mask) (some task)
    simp only [Option.join_some] at hwrite
    rw [Function.comp_apply, Function.comp_apply, collapse_tail, collapse_mask, hwrite,
      Option.bind_map, Option.map_bind]
    exact congrArg _ (funext fun q' => ih _)

theorem collapse_enqueueBatch (tasks : List (Option τ)) (count : UInt32) :
    queueEnqueueBatch q.collapse (some tasks) count =
      (queueEnqueueBatch q (some (tasks.map some)) count).map
        (Prod.map id Queue.collapse) := by
  have havailable : enqueueAvailable q.collapse = enqueueAvailable q := rfl
  simp only [queueEnqueueBatch, havailable, collapse_enqueueLoop, collapse_tail]
  generalize (if count < enqueueAvailable q then count else enqueueAvailable q) = toEnqueue
  split_ifs
  · rfl
  · rfl
  · rw [Option.map_map, Option.map_map]
    rfl

theorem collapse_dequeueLoop (n : ℕ) (i : UInt32) : dequeueLoop n i q.collapse =
    (dequeueLoop n i q).map (Prod.map (List.map Option.join) Queue.collapse) := by
  induction n generalizing i q with
  | zero => rfl
  | succ n ih =>
    have hwrite := collapse_writeSlot (q := q) ((q.head + i) &&& q.mask) none
    simp only [Option.join_none] at hwrite
    rw [dequeueLoop, dequeueLoop, collapse_readSlot, collapse_head, collapse_mask,
      Option.bind_map, Option.map_bind]
    refine congrArg _ (funext fun task => ?_)
    rw [Function.comp_apply, Function.comp_apply, hwrite, Option.bind_map, Option.map_bind]
    refine congrArg _ (funext fun q' => ?_)
    rw [Function.comp_apply, Function.comp_apply, ih, Option.map_map, Option.map_map]
    rfl

theorem collapse_dequeueBatch (maxCount : UInt32) :
    queueDequeueBatch q.collapse true maxCount =
      (queueDequeueBatch q true maxCount).map
        (Prod.map (List.map Option.join) Queue.collapse) := by
  have hsize : (q.collapse.tail - q.collapse.head) &&& q.collapse.mask =
      (q.tail - q.head) &&& q.mask := rfl
  rw [queueDequeueBatch, queueDequeueBatch, hsize]
  simp only [collapse_dequeueLoop, collapse_head, Bool.true_eq_false, false_or]
  generalize (if maxCount < (q.tail - q.head) &&& q.mask then maxCount
    else (q.tail - q.head) &&& q.mask) = toDequeue
  split_ifs
  · rfl
  · rfl
  · rw [Option.map_map, Option.map_map]
    rfl

end

/-! ## What the calls do to the entries -/

/-- `q` is a queue of `2 ^ k` slots that holds the entries `l`, some of which may be
`NULL`. -/
def Pictures {τ : Type*} (k : ℕ) (q : Queue τ) (l : List (Option τ)) : Prop :=
  ∃ marked : Queue (Option τ), Holds k marked l ∧ q = marked.collapse

namespace Pictures

variable {τ : Type*} {k : ℕ} {q : Queue τ} {l : List (Option τ)}

theorem size_eq (h : Pictures k q l) : (queueSize q).toNat = l.length := by
  obtain ⟨marked, hholds, rfl⟩ := h
  exact hholds.size_eq

theorem enqueue (h : Pictures k q l) (task : τ) : ∃ accepted q',
    queueEnqueue q (some task) = some (accepted, q') ∧
      Pictures k q' (if accepted then l ++ [some task] else l) := by
  obtain ⟨marked, ⟨start, hist, hrep, rfl⟩, rfl⟩ := h
  have hroom := hrep.room
  rw [collapse_enqueue]
  by_cases hfull : hist.length + 1 = start + 2 ^ k
  · rw [queueEnqueue_full hrep hfull]
    exact ⟨false, _, rfl, marked, ⟨start, hist, hrep, rfl⟩, rfl⟩
  · obtain ⟨marked', hcall, hrep'⟩ := queueEnqueue_room hrep (by omega) (some task)
    rw [hcall]
    exact ⟨true, _, rfl, marked', ⟨start, _, hrep', (List.drop_append_of_le_length hrep.le).symm⟩,
      rfl⟩

theorem dequeue_nil (h : Pictures k q []) : queueDequeue q = some (none, q) := by
  obtain ⟨marked, ⟨start, hist, hrep, hnil⟩, rfl⟩ := h
  have hempty : start = hist.length :=
    Nat.le_antisymm hrep.le (List.drop_eq_nil_iff.mp hnil.symm)
  rw [collapse_dequeue, queueDequeue_empty hrep hempty]
  rfl

theorem dequeue_cons {entry : Option τ} (h : Pictures k q (entry :: l)) :
    ∃ q', queueDequeue q = some (entry, q') ∧ Pictures k q' l := by
  obtain ⟨marked, ⟨start, hist, hrep, hcons⟩, rfl⟩ := h
  have hlt : start < hist.length := by
    by_contra hle
    rw [List.drop_eq_nil_of_le (Nat.not_lt.mp hle)] at hcons
    cases hcons
  obtain ⟨marked', hcall, hrep'⟩ := queueDequeue_some hrep hlt
  rw [List.drop_eq_getElem_cons hlt, List.cons.injEq] at hcons
  rw [collapse_dequeue, hcall, hcons.1]
  exact ⟨_, rfl, marked', ⟨start + 1, hist, hrep', hcons.2⟩, rfl⟩

theorem enqueueBatch (h : Pictures k q l) (tasks : List (Option τ)) (count : UInt32)
    (hlong : count.toNat ≤ tasks.length) : ∃ b n q',
      queueEnqueueBatch q (some tasks) count = some ((b, n), q') ∧
        n.toNat = min count.toNat (enqueueAvailable q).toNat ∧
          Pictures k q' (l ++ tasks.take n.toNat) := by
  obtain ⟨marked, ⟨start, hist, hrep, rfl⟩, rfl⟩ := h
  obtain ⟨b, n, marked', hcall, hn, -, hrep'⟩ := queueEnqueueBatch_eq hrep tasks count hlong rfl
  have havailable : (enqueueAvailable marked.collapse).toNat =
      2 ^ k - 1 - (hist.length - start) := hrep.available_eq
  rw [collapse_enqueueBatch, hcall, havailable]
  refine ⟨b, n, _, rfl, hn, marked', ⟨start, _, hrep', ?_⟩, rfl⟩
  rw [List.drop_append_of_le_length hrep.le, hn]

theorem dequeueBatch (h : Pictures k q l) (maxCount : UInt32) : ∃ q',
    queueDequeueBatch q true maxCount = some (l.take maxCount.toNat, q') ∧
      Pictures k q' (l.drop maxCount.toNat) := by
  obtain ⟨marked, ⟨start, hist, hrep, rfl⟩, rfl⟩ := h
  obtain ⟨marked', start', hcall, hdrop, hrep'⟩ := queueDequeueBatch_eq hrep maxCount
  have hjoin : ∀ entries : List (Option τ), (entries.map some).map Option.join = entries := by
    intro entries
    rw [List.map_map]
    exact List.map_id _
  rw [collapse_dequeueBatch, hcall, Option.map_some, Prod.map_apply, hjoin]
  exact ⟨_, rfl, marked', ⟨start', hist, hrep', hdrop.symm⟩, rfl⟩

/-- Without `NULL` entries `queue_destroy` goes through all of the queue. -/
theorem destroyLoop {tasks : List τ} (h : Pictures k q (tasks.map some)) :
    queueDestroyLoop (tasks.length + 1) q = some tasks := by
  induction tasks generalizing q with
  | nil => rw [queueDestroyLoop, dequeue_nil h, Option.bind_some]
  | cons task tasks ih =>
    obtain ⟨q', hcall, hrest⟩ := dequeue_cons h
    rw [queueDestroyLoop, hcall, Option.bind_some, List.length_cons, ih hrest]
    rfl

end Pictures

/-- The queue holds the entries `l`, and what was accepted has been given out or is among
them. -/
structure Carries {τ : Type*} (k : ℕ) (s : Account τ) (l : List (Option τ)) : Prop where
  ring : Pictures k s.queue l
  books : s.accepted = s.dequeued ++ l.reduceOption

theorem map_some_reduceOption {τ : Type*} {l : List (Option τ)} (h : none ∉ l) :
    l.reduceOption.map some = l := by
  induction l with
  | nil => rfl
  | cons entry l ih =>
    rw [List.mem_cons, not_or] at h
    obtain ⟨task, rfl⟩ := Option.ne_none_iff_exists'.mp (Ne.symm h.1)
    rw [List.reduceOption_cons_of_some, List.map_cons, ih h.2]

namespace Carries

variable {τ : Type*} {k : ℕ} {s t : Account τ} {l : List (Option τ)}

/-- After a call on a queue without `NULL` entries there is one only if the call has stored
it. -/
theorem step {call : RawCall τ} (h : Carries k s l) (hstep : rawStep s call = some t) :
    ∃ l', Carries k t l' ∧ (none ∉ l → (none ∉ l' ↔ StoresTasks s call)) := by
  obtain ⟨hring, hbooks⟩ := h
  have hsame : Carries k s l ∧ (none ∉ l → (none ∉ l ↔ True)) :=
    ⟨⟨hring, hbooks⟩, fun hnone => iff_of_true hnone trivial⟩
  cases call with
  | enqueue task =>
    cases task with
    | none =>
      obtain rfl := Option.some.inj hstep
      exact ⟨l, hsame⟩
    | some task =>
      obtain ⟨accepted, q', hcall, hring'⟩ := hring.enqueue task
      rw [rawStep, hcall, Option.map_some] at hstep
      obtain rfl := Option.some.inj hstep
      cases accepted with
      | false => exact ⟨l, ⟨hring', hbooks⟩, hsame.2⟩
      | true =>
        refine ⟨l ++ [some task], ⟨hring', ?_⟩, fun hnone => iff_of_true ?_ trivial⟩
        · show s.accepted ++ [task] = _
          rw [hbooks, List.append_assoc, List.reduceOption_append]
          rfl
        · simpa using hnone
  | dequeue =>
    cases l with
    | nil =>
      rw [rawStep, hring.dequeue_nil, Option.map_some] at hstep
      obtain rfl := Option.some.inj hstep
      refine ⟨[], ⟨hring, ?_⟩, hsame.2⟩
      rw [hbooks, Option.toList_none, List.append_nil]
    | cons entry l =>
      obtain ⟨q', hcall, hring'⟩ := hring.dequeue_cons
      rw [rawStep, hcall, Option.map_some] at hstep
      obtain rfl := Option.some.inj hstep
      refine ⟨l, ⟨hring', ?_⟩, fun hnone => iff_of_true ?_ trivial⟩
      · rw [hbooks, List.append_assoc, ← List.singleton_append, List.reduceOption_append,
          List.reduceOption_singleton]
      · exact fun hmem => hnone (List.mem_cons_of_mem _ hmem)
  | enqueueBatch tasks count long =>
    cases tasks with
    | none =>
      obtain rfl := Option.some.inj hstep
      refine ⟨l, ⟨hring, ?_⟩, fun hnone => iff_of_true hnone ?_⟩
      · show s.accepted ++ [] = s.dequeued ++ l.reduceOption
        rw [hbooks, List.append_nil]
      · simp [StoresTasks]
    | some tasks =>
      obtain ⟨b, n, q', hcall, hn, hring'⟩ := hring.enqueueBatch tasks count (long tasks rfl)
      rw [rawStep, hcall, Option.map_some] at hstep
      obtain rfl := Option.some.inj hstep
      refine ⟨_, ⟨hring', ?_⟩, fun hnone => ?_⟩
      · rw [hbooks, Option.getD_some, List.append_assoc, List.reduceOption_append]
      · rw [List.mem_append, not_or, and_iff_right hnone, StoresTasks, Option.getD_some, hn]
  | dequeueBatch hasArray maxCount =>
    cases hasArray with
    | false =>
      obtain rfl := Option.some.inj hstep
      refine ⟨l, ⟨hring, ?_⟩, hsame.2⟩
      show s.accepted = s.dequeued ++ [] ++ l.reduceOption
      rw [hbooks, List.append_nil]
    | true =>
      obtain ⟨q', hcall, hring'⟩ := hring.dequeueBatch maxCount
      rw [rawStep, hcall, Option.map_some] at hstep
      obtain rfl := Option.some.inj hstep
      refine ⟨_, ⟨hring', ?_⟩, fun hnone => iff_of_true ?_ trivial⟩
      · rw [hbooks, List.append_assoc, ← List.reduceOption_append, List.take_append_drop]
      · exact fun hmem => hnone (List.mem_of_mem_drop hmem)

/-- Dequeuing the entries in front of the others. -/
theorem dequeues {front : List (Option τ)} (h : Carries k s (front ++ l)) :
    ∃ t, exec rawStep s (List.replicate front.length .dequeue) = some t ∧ Carries k t l := by
  induction front generalizing s with
  | nil => exact ⟨s, rfl, h⟩
  | cons entry front ih =>
    obtain ⟨q', hcall, hring⟩ := h.ring.dequeue_cons
    have hbooks : s.accepted =
        s.dequeued ++ entry.toList ++ (front ++ l).reduceOption := by
      rw [h.books, List.cons_append, ← List.singleton_append, List.reduceOption_append,
        List.reduceOption_singleton, List.append_assoc]
    obtain ⟨t, hrest, ht⟩ := ih (s := { s with
      queue := q'
      dequeued := s.dequeued ++ entry.toList }) ⟨hring, hbooks⟩
    refine ⟨t, ?_, ht⟩
    rw [List.length_cons, List.replicate_succ, exec_cons, rawStep, hcall, Option.map_some,
      Option.bind_some]
    exact hrest

theorem nullMeansEmpty (h : Carries k s l) (hnone : none ∉ l) : NullMeansEmpty s := by
  have hsize := h.ring.size_eq
  refine ⟨?_, ?_⟩
  · cases l with
    | nil =>
      have hzero : queueSize s.queue = 0 := UInt32.toNat_inj.mp hsize
      exact ⟨none, _, h.ring.dequeue_nil, iff_of_true rfl hzero⟩
    | cons entry l =>
      obtain ⟨q', hcall, -⟩ := h.ring.dequeue_cons
      refine ⟨entry, q', hcall, iff_of_false ?_ fun hzero => ?_⟩
      · rintro rfl
        exact hnone List.mem_cons_self
      · rw [hzero] at hsize
        cases hsize
  · rw [← map_some_reduceOption hnone] at h
    refine ⟨_, _, h.ring.destroyLoop, ?_⟩
    rw [h.books, map_some_reduceOption hnone]

/-- `NULL` stays the answer of an empty queue exactly when no entry is `NULL`. -/
theorem staysReliable_iff (h : Carries k s l) : StaysReliable s ↔ none ∉ l := by
  constructor
  · intro hreliable hmem
    obtain ⟨front, rest, rfl, -⟩ := List.eq_append_cons_of_mem hmem
    obtain ⟨t, hexec, ht⟩ := h.dequeues
    obtain ⟨q', hcall, -⟩ := ht.ring.dequeue_cons
    obtain ⟨task, q, hdequeue, hiff⟩ := (hreliable _ t hexec).dequeue
    rw [hcall, Option.some.injEq, Prod.mk.injEq] at hdequeue
    have hsize := ht.ring.size_eq
    rw [hiff.mp hdequeue.1.symm] at hsize
    cases hsize
  · intro hnone n
    induction n generalizing s l with
    | zero =>
      intro t hexec
      obtain rfl := Option.some.inj hexec
      exact h.nullMeansEmpty hnone
    | succ n ih =>
      intro t hexec
      rw [List.replicate_succ, exec_cons, Option.bind_eq_some_iff] at hexec
      obtain ⟨u, hstep, hrest⟩ := hexec
      obtain ⟨l', hu, hkeeps⟩ := h.step hstep
      exact ih hu ((hkeeps hnone).mpr trivial) t hrest

end Carries

section

variable {τ : Type*} {isPowerOf2 : UInt32 → Bool} {nextPowerOf2 : UInt32 → UInt32}
  {allocQueue allocTasks : Bool} {requested : UInt32} {q : Queue τ}

theorem Carries.create (hpow : PowerOfTwoFunctions isPowerOf2 nextPowerOf2)
    (hrequested : requested.toNat ≤ 2 ^ 31)
    (hq : queueCreate isPowerOf2 nextPowerOf2 allocQueue allocTasks requested = some q) :
    ∃ k, Carries k ⟨q, [], []⟩ [] := by
  obtain ⟨marked, hmarked, hcollapse⟩ : ∃ marked : Queue (Option τ),
      queueCreate isPowerOf2 nextPowerOf2 allocQueue allocTasks requested = some marked ∧
        q = marked.collapse := by
    simp only [queueCreate] at hq ⊢
    generalize (if requested = 0 ∨ isPowerOf2 requested = false then
      nextPowerOf2 requested else requested) = capacity at hq ⊢
    split_ifs at hq ⊢
    obtain rfl := Option.some.inj hq
    exact ⟨_, rfl, by simp [Queue.collapse]⟩
  obtain ⟨k, -, hk⟩ := queueCreate_capacity hpow hrequested hmarked
  exact ⟨k, ⟨marked, ⟨0, [], (queueCreate_represents hmarked hk).2, rfl⟩, hcollapse⟩, rfl⟩

/-- In every run in which no batch stores a `NULL` entry `NULL` means empty, and these are the
runs in which it stays so. -/
theorem nullMeansEmpty_run_iff (hpow : PowerOfTwoFunctions isPowerOf2 nextPowerOf2)
    (hrequested : requested.toNat ≤ 2 ^ 31)
    (hq : queueCreate isPowerOf2 nextPowerOf2 allocQueue allocTasks requested = some q)
    {calls : List (RawCall τ)} {s : Account τ} :
    (Run ((rawQueue q).restrict StoresTasks) ⟨q, [], []⟩ calls s → NullMeansEmpty s) ∧
      (Run ((rawQueue q).filter fun _ _ t => StaysReliable t) ⟨q, [], []⟩ calls s ↔
        Run ((rawQueue q).restrict StoresTasks) ⟨q, [], []⟩ calls s) := by
  obtain ⟨k, hcreate⟩ := Carries.create hpow hrequested hq
  have hkept : ∀ s call t, (∃ l, Carries k s l ∧ none ∉ l) → StoresTasks s call →
      (rawQueue q).step s call t → ∃ l, Carries k t l ∧ none ∉ l := by
    rintro s call t ⟨l, hs, hnone⟩ hstores hstep
    obtain ⟨l', ht, hkeeps⟩ := hs.step hstep
    exact ⟨l', ht, (hkeeps hnone).mpr hstores⟩
  refine ⟨fun hrun => ?_, run_filter_iff_restrict hkept ?_ ⟨[], hcreate, List.not_mem_nil⟩⟩
  · obtain ⟨l, hs, hnone⟩ := hrun.preserves (I := fun s => ∃ l, Carries k s l ∧ none ∉ l)
      (fun s call t hs hstep => hkept s call t hs hstep.1 hstep.2)
      ⟨[], hcreate, List.not_mem_nil⟩
    exact hs.nullMeansEmpty hnone
  · rintro s call t ⟨l, hs, hnone⟩ hstep
    obtain ⟨l', ht, hkeeps⟩ := hs.step hstep
    exact ht.staysReliable_iff.trans (hkeeps hnone)

end

/-- Two batches on a queue of four slots. -/
theorem nullMeansEmpty_run_iff_four :
    NullMeansEmpty (⟨⟨0, 3, 4, 3, [some 5, some 6, some 7, none]⟩, [5, 6, 7], []⟩ : Account ℕ) := by
  have hcreate : queueCreate isPowerOf2 nextPowerOf2 true true 4 =
      some (⟨0, 0, 4, 3, [none, none, none, none]⟩ : Queue ℕ) := rfl
  have hfirst : rawStep (⟨⟨0, 0, 4, 3, [none, none, none, none]⟩, [], []⟩ : Account ℕ)
      (.enqueueBatch (some [some 5, some 6]) 2 (by simp)) =
        some ⟨⟨0, 2, 4, 3, [some 5, some 6, none, none]⟩, [5, 6], []⟩ := rfl
  have hsecond : rawStep (⟨⟨0, 2, 4, 3, [some 5, some 6, none, none]⟩, [5, 6], []⟩ : Account ℕ)
      (.enqueueBatch (some [some 7, none]) 1 (by simp)) =
        some ⟨⟨0, 3, 4, 3, [some 5, some 6, some 7, none]⟩, [5, 6, 7], []⟩ := rfl
  exact (nullMeansEmpty_run_iff powerOfTwoFunctions (by decide) hcreate).1
    (.cons ⟨by decide, hfirst⟩ (.cons ⟨by decide, hsecond⟩ (.nil _)))

/-- A batch with a `NULL` entry in front of a task. -/
theorem not_nullMeansEmpty_batch : ¬ ∀ (q : Queue ℕ) (s : Account ℕ),
    queueCreate isPowerOf2 nextPowerOf2 true true 4 = some q → Reachable (rawQueue q) s →
      NullMeansEmpty s := by
  intro h
  have hreach : Reachable (rawQueue (⟨0, 0, 4, 3, [none, none, none, none]⟩ : Queue ℕ))
      ⟨⟨0, 2, 4, 3, [none, some 5, none, none]⟩, [5], []⟩ :=
    reachable_ofFun_iff.mpr ⟨[.enqueueBatch (some [none, some 5]) 2 (by simp)], rfl⟩
  obtain ⟨task, q, hdequeue, hiff⟩ := (h _ _ rfl hreach).dequeue
  obtain rfl : none = task := congrArg Prod.fst (Option.some.inj hdequeue)
  exact absurd (hiff.mp rfl) (by decide)

end LockfreeQueue

end ProcessThreadPool
