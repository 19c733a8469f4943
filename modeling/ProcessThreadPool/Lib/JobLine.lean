import Mathlib.Data.Fintype.BigOperators
import Mathlib.Algebra.Order.Group.Multiset
import Mathlib.Tactic.Abel
import ProcessThreadPool.Lib.Progress
import ProcessThreadPool.Lib.ThreadFamily

/-!
# A line of jobs and its helpers

Jobs come into a line at any time, a free helper takes the first one, and it is done after a
fixed number of moves of that helper. Taking a job and moving on with one are the work. While
there is a helper, each job of the line is taken after a bounded amount of work, whatever comes
into the line behind it, and a job that was taken is done after a bounded number of moves of its
helper. Once nothing more comes into the line, all jobs are done after a bounded amount of work.
-/

namespace ProcessThreadPool

open Transition ThreadFamily

/-- The line, what each helper has with the number of moves before the last one, and what is
done. `arrived` are all the jobs so far. -/
structure JobLine (ι α : Type*) where
  arrived : List α
  waiting : List α
  helpers : ι → Option (α × ℕ)
  done : List α

namespace JobLine

/-- What happens next. -/
inductive Act (ι α : Type*) where
  | submit (a : α)
  | take (i : ι)
  | move (i : ι)

/-- The work. -/
def Act.isWork {ι α : Type*} : Act ι α → Bool
  | .submit _ => false
  | .take _ | .move _ => true

/-- The moves of one helper. -/
def Act.isMoveOf {ι α : Type*} [DecidableEq ι] (i : ι) : Act ι α → Bool
  | .submit _ | .take _ => false
  | .move j => decide (j = i)

section

variable {ι α : Type*} [DecidableEq ι]

/-- One step. `moves` is the number of moves before the last one of each job. -/
def step (moves : ℕ) (s : JobLine ι α) : Act ι α → Option (JobLine ι α)
  | .submit a => some { s with arrived := s.arrived ++ [a], waiting := s.waiting ++ [a] }
  | .take i =>
      match s.helpers i, s.waiting with
      | none, a :: rest => some { s with
          waiting := rest
          helpers := Function.update s.helpers i (some (a, moves)) }
      | _, _ => none
  | .move i =>
      match s.helpers i with
      | some (a, m + 1) => some { s with
          helpers := Function.update s.helpers i (some (a, m)) }
      | some (a, 0) => some { s with
          helpers := Function.update s.helpers i none
          done := s.done ++ [a] }
      | none => none

/-- No jobs at all. -/
def start : JobLine ι α := ⟨[], [], fun _ => none, []⟩

/-- All interleavings. -/
def line (ι α : Type*) [DecidableEq ι] (moves : ℕ) : System (JobLine ι α) (Act ι α) :=
  System.ofFun start (step moves)

/-- What a helper has. -/
def held : Option (α × ℕ) → Multiset α
  | none => 0
  | some (a, _) => {a}

/-- The moves that a helper has still to make. -/
def movesLeft : Option (α × ℕ) → ℕ
  | none => 0
  | some (_, m) => m + 1

variable {moves : ℕ} {s t : JobLine ι α} {l : Act ι α} {i : ι} {a : α}

/-- What a step does. -/
inductive Moves (moves : ℕ) (s : JobLine ι α) : Act ι α → JobLine ι α → Prop
  | submit (a : α) :
      Moves moves s (.submit a)
        { s with arrived := s.arrived ++ [a], waiting := s.waiting ++ [a] }
  | take {i : ι} {a : α} {rest : List α} : s.helpers i = none → s.waiting = a :: rest →
      Moves moves s (.take i) { s with
        waiting := rest
        helpers := Function.update s.helpers i (some (a, moves)) }
  | go {i : ι} {a : α} {m : ℕ} : s.helpers i = some (a, m + 1) →
      Moves moves s (.move i) { s with helpers := Function.update s.helpers i (some (a, m)) }
  | finish {i : ι} {a : α} : s.helpers i = some (a, 0) →
      Moves moves s (.move i) { s with
        helpers := Function.update s.helpers i none
        done := s.done ++ [a] }

theorem step_moves (h : step moves s l = some t) : Moves moves s l t := by
  cases l with
  | submit a =>
      obtain rfl := Option.some.inj h
      exact .submit a
  | take i =>
      simp only [step] at h
      split at h
      · next a rest hfree hwaiting =>
          obtain rfl := Option.some.inj h
          exact .take hfree hwaiting
      · cases h
  | move i =>
      simp only [step] at h
      split at h
      · next a m hbusy =>
          obtain rfl := Option.some.inj h
          exact .go hbusy
      · next a hbusy =>
          obtain rfl := Option.some.inj h
          exact .finish hbusy
      · cases h

/-- A free helper can take the first job. -/
theorem take_enabled (hfree : s.helpers i = none) (hwaiting : s.waiting ≠ []) :
    ∃ t, step moves s (.take i) = some t := by
  obtain ⟨a, rest, hline⟩ := List.exists_cons_of_ne_nil hwaiting
  exact ⟨_, by rw [step, hfree, hline]⟩

/-- A helper with a job can move on. -/
theorem move_enabled {p : α × ℕ} (hbusy : s.helpers i = some p) :
    ∃ t, step moves s (.move i) = some t := by
  obtain ⟨a, m⟩ := p
  cases m with
  | zero => exact ⟨_, by rw [step, hbusy]⟩
  | succ m => exact ⟨_, by rw [step, hbusy]⟩

/-! ## A job that was taken -/

/-- The job is done, or the helper has it. -/
def Kept (i : ι) (a : α) (s : JobLine ι α) : Prop :=
  a ∈ s.done ∨ ∃ m, s.helpers i = some (a, m)

/-- A job that was taken is done after the moves of its helper. -/
theorem taken_progress (i : ι) (a : α) :
    Progress (line ι α moves) (Act.isMoveOf i) (fun s => a ∈ s.done) (Kept i a)
      (fun s => movesLeft (s.helpers i)) where
  keep := by
    rintro s l t hkept hnot hstep
    obtain ⟨m, hm⟩ := hkept.resolve_left hnot
    cases step_moves hstep with
    | submit b => exact Or.inr ⟨m, hm⟩
    | @take j b rest hfree =>
        have hji : i ≠ j := by
          rintro rfl
          rw [hfree] at hm
          cases hm
        exact Or.inr ⟨m, (Function.update_of_ne hji _ _).trans hm⟩
    | @go j b k hbusy =>
        by_cases hji : i = j
        · subst hji
          rw [hbusy] at hm
          cases hm
          exact Or.inr ⟨k, Function.update_self _ _ _⟩
        · exact Or.inr ⟨m, (Function.update_of_ne hji _ _).trans hm⟩
    | @finish j b hbusy =>
        by_cases hji : i = j
        · subst hji
          rw [hbusy] at hm
          cases hm
          exact Or.inl (List.mem_append_right _ List.mem_cons_self)
        · exact Or.inr ⟨m, (Function.update_of_ne hji _ _).trans hm⟩
  spend := by
    rintro s l t hkept hnot hstep
    obtain ⟨m, hm⟩ := hkept.resolve_left hnot
    cases step_moves hstep with
    | submit b => exact le_rfl
    | @take j b rest hfree =>
        have hji : i ≠ j := by
          rintro rfl
          rw [hfree] at hm
          cases hm
        simp only [Function.update_of_ne hji]
        exact le_rfl
    | @go j b k hbusy =>
        by_cases hji : i = j
        · subst hji
          simp [Act.isMoveOf, hbusy, movesLeft]
        · simp only [Function.update_of_ne hji, Act.isMoveOf, decide_eq_false (Ne.symm hji)]
          exact le_rfl
    | @finish j b hbusy =>
        by_cases hji : i = j
        · subst hji
          simp [Act.isMoveOf, hbusy, movesLeft]
        · simp only [Function.update_of_ne hji, Act.isMoveOf, decide_eq_false (Ne.symm hji)]
          exact le_rfl
  enabled := by
    intro s hkept hnot
    obtain ⟨m, hm⟩ := hkept.resolve_left hnot
    obtain ⟨t, ht⟩ := move_enabled hm
    exact ⟨.move i, t, decide_eq_true rfl, ht⟩

/-! ## A job of the line -/

/-- The jobs in the line are the last that arrived, and so many have arrived. -/
structure Ordered (k : ℕ) (s : JobLine ι α) : Prop where
  suffix : s.waiting <:+ s.arrived
  arrived : k ≤ s.arrived.length

omit [DecidableEq ι] in
/-- The first `k` jobs have been taken when all that have not are few enough. -/
theorem Ordered.suffix_drop_iff {k : ℕ} (h : Ordered k s) :
    s.waiting <:+ s.arrived.drop k ↔ k + s.waiting.length ≤ s.arrived.length := by
  have harrived := h.arrived
  constructor
  · intro hsuffix
    have hle := hsuffix.length_le
    rw [List.length_drop] at hle
    omega
  · intro hle
    refine List.suffix_of_suffix_length_le h.suffix (List.drop_suffix k s.arrived) ?_
    rw [List.length_drop]
    omega

theorem Ordered.step {k : ℕ} (h : Ordered k s) (hstep : JobLine.step moves s l = some t) :
    Ordered k t := by
  cases step_moves hstep with
  | submit a =>
      obtain ⟨taken, htaken⟩ := h.suffix
      refine ⟨⟨taken, ?_⟩, ?_⟩
      · rw [← List.append_assoc, htaken]
      · rw [List.length_append]
        exact Nat.le_add_right_of_le h.arrived
  | take hfree hwaiting =>
      refine ⟨List.IsSuffix.trans ?_ h.suffix, h.arrived⟩
      rw [hwaiting]
      exact List.suffix_cons _ _
  | go | finish => exact ⟨h.suffix, h.arrived⟩

variable [Fintype ι]

/-- A move is one of those that its helper has still to make. -/
theorem total_movesLeft (hstep : step moves s (.move i) = some t) :
    total movesLeft t.helpers + 1 = total movesLeft s.helpers ∧ t.waiting = s.waiting ∧
      t.arrived = s.arrived := by
  cases step_moves hstep with
  | @go _ a m hbusy =>
      have htotal := total_update_add movesLeft s.helpers i (some (a, m))
      rw [hbusy, movesLeft, movesLeft] at htotal
      exact ⟨by simp only; omega, rfl, rfl⟩
  | @finish _ a hbusy =>
      have htotal := total_update_add movesLeft s.helpers i none
      rw [hbusy, movesLeft, movesLeft] at htotal
      exact ⟨by simp only; omega, rfl, rfl⟩

/-- A job that is taken costs its moves. -/
theorem total_movesLeft_take (hfree : s.helpers i = none) :
    total movesLeft (Function.update s.helpers i (some (a, moves))) =
      total movesLeft s.helpers + (moves + 1) := by
  have htotal := total_update_add movesLeft s.helpers i (some (a, moves))
  rw [hfree] at htotal
  simpa only [movesLeft, add_zero] using htotal

/-- The work that is left for the first `k` jobs that arrived to be taken. -/
def leftFor (moves k : ℕ) (s : JobLine ι α) : ℕ :=
  (moves + 2) * (k + s.waiting.length - s.arrived.length) + total movesLeft s.helpers

/-- However many jobs have arrived, they are taken after a bounded amount of work, whatever
comes into the line behind them. -/
theorem line_progress [Nonempty ι] (k : ℕ) :
    Progress (line ι α moves) Act.isWork
      (fun s => s.waiting <:+ s.arrived.drop k) (Ordered k) (leftFor moves k) where
  keep := fun s l t h _ hstep => h.step hstep
  spend := by
    rintro s l t h hnot hstep
    rw [h.suffix_drop_iff] at hnot
    cases l with
    | submit a =>
        obtain rfl := Option.some.inj hstep
        simp only [leftFor, Act.isWork, List.length_append, List.length_singleton,
          Bool.toNat_false, ← add_assoc, Nat.add_sub_add_right, add_zero]
        exact le_rfl
    | take i =>
        cases step_moves hstep with
        | @take _ a rest hfree hwaiting =>
            have hless : k + s.waiting.length - s.arrived.length =
                k + rest.length - s.arrived.length + 1 := by
              rw [hwaiting, List.length_cons] at hnot ⊢
              omega
            simp only [leftFor, total_movesLeft_take hfree, hless, Act.isWork,
              Bool.toNat_true, Nat.mul_add, Nat.mul_one]
            omega
    | move i =>
        obtain ⟨htotal, hwaiting, harrived⟩ := total_movesLeft hstep
        simp only [leftFor, hwaiting, harrived, ← htotal, Act.isWork, Bool.toNat_true]
        omega
  enabled := by
    intro s h hnot
    obtain ⟨i⟩ := ‹Nonempty ι›
    have hwaiting : s.waiting ≠ [] := by
      intro hnil
      rw [hnil] at hnot
      exact hnot List.nil_suffix
    cases hhelper : s.helpers i with
    | none =>
        obtain ⟨t, ht⟩ := take_enabled hhelper hwaiting
        exact ⟨.take i, t, rfl, ht⟩
    | some p =>
        obtain ⟨t, ht⟩ := move_enabled hhelper
        exact ⟨.move i, t, rfl, ht⟩

/-! ## All jobs -/

/-- What has arrived is in the line, with a helper or done. -/
def Accounted (s : JobLine ι α) : Prop :=
  (s.arrived : Multiset α) = s.waiting + total held s.helpers + s.done

theorem Accounted.step (h : Accounted s) (hstep : JobLine.step moves s l = some t) :
    Accounted t := by
  rw [Accounted] at h
  cases step_moves hstep with
  | submit a =>
      change ((s.arrived ++ [a] : List α) : Multiset α) =
        (s.waiting ++ [a] : List α) + total held s.helpers + s.done
      rw [← Multiset.coe_add, ← Multiset.coe_add, h]
      abel
  | @take i a rest hfree hwaiting =>
      have htotal := total_update_of_zero held s.helpers (i := i) (some (a, moves))
        (by rw [hfree]; rfl)
      rw [hwaiting, ← Multiset.cons_coe, ← Multiset.singleton_add] at h
      rw [Accounted, htotal, h, held]
      abel
  | @go i a m hbusy =>
      have htotal := total_update_of_eq held s.helpers (i := i) (a := some (a, m))
        (by rw [hbusy]; rfl)
      rw [Accounted, htotal, h]
  | @finish i a hbusy =>
      have htotal := total_update_to_zero held s.helpers i (a := none) rfl
      rw [hbusy, held] at htotal
      rw [Accounted, ← Multiset.coe_add, h, ← htotal, Multiset.coe_singleton]
      abel

/-- Nothing comes into the line any more. -/
def Closed (_ : JobLine ι α) (l : Act ι α) : Prop := l.isWork = true

/-- The work that is left for all jobs. -/
def leftForAll (moves : ℕ) (s : JobLine ι α) : ℕ :=
  (moves + 2) * s.waiting.length + total movesLeft s.helpers

/-- Once nothing comes into the line any more, all jobs are done after a bounded amount of
work. -/
theorem closed_progress [Nonempty ι] :
    Progress ((line ι α moves).restrict Closed) Act.isWork
      (fun s => s.done.Perm s.arrived) Accounted (leftForAll moves) where
  keep := fun s l t h _ hstep => h.step hstep.2
  spend := by
    rintro s l t - - ⟨hclosed, hstep⟩
    cases l with
    | submit a => cases hclosed
    | take i =>
        cases step_moves hstep with
        | @take _ a rest hfree hwaiting =>
            simp only [leftForAll, total_movesLeft_take hfree, hwaiting, Act.isWork,
              Bool.toNat_true, List.length_cons, Nat.mul_add, Nat.mul_one]
            omega
    | move i =>
        obtain ⟨htotal, hwaiting, -⟩ := total_movesLeft hstep
        simp only [leftForAll, hwaiting, ← htotal, Act.isWork, Bool.toNat_true]
        omega
  enabled := by
    intro s h hnot
    obtain ⟨i⟩ := ‹Nonempty ι›
    by_cases hbusy : ∃ j p, s.helpers j = some p
    · obtain ⟨j, p, hp⟩ := hbusy
      obtain ⟨t, ht⟩ := move_enabled hp
      exact ⟨.move j, t, rfl, rfl, ht⟩
    · have hfree : ∀ j, s.helpers j = none := by
        intro j
        cases hj : s.helpers j with
        | none => rfl
        | some p => exact absurd ⟨j, p, hj⟩ hbusy
      have hwaiting : s.waiting ≠ [] := by
        intro hnil
        have hheld : total held s.helpers = 0 := total_eq_zero fun j => by rw [hfree j]; rfl
        rw [Accounted, hnil, hheld, Multiset.coe_nil, zero_add, zero_add] at h
        exact hnot (Multiset.coe_eq_coe.mp h).symm
      obtain ⟨t, ht⟩ := take_enabled (hfree i) hwaiting
      exact ⟨.take i, t, rfl, rfl, ht⟩

end

end JobLine

end ProcessThreadPool
