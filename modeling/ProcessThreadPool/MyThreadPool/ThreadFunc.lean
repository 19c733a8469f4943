import ProcessThreadPool.Lib.ThreadFamily
import ProcessThreadPool.Lib.Transition
import Mathlib.Data.List.ReduceOption

/-!
# The workers of the small thread pool

`threadFunc` decides in two places whether it returns: under the lock, where it asks for the
flag and an empty queue, and at the head of its loop, where it asks for the flag alone. The
destructor sets the flag without the lock. A worker that comes back from a task, or has not
been through the head yet, then leaves the rest of the queue to nobody.
-/

namespace ProcessThreadPool

namespace MyThreadPool

open ThreadFamily Transition

/-- Where a worker is in `threadFunc`. A task is a `function<void()>`, which may be empty. -/
inductive Phase (τ : Type*) where
  | head
  | inside
  | holds (task : Option τ)
  | returned
  deriving DecidableEq, Repr

/-- The pool, and the tasks that have been executed. -/
structure ThreadPool (ι τ : Type*) where
  taskQue : List (Option τ)
  isExit : Bool
  threads : ι → Phase τ
  executed : List τ

/-- The next thing that a worker does, or the destructor's store of the flag. -/
inductive Action (ι : Type*) where
  | threadFunc (i : ι)
  | destructor

section

variable {ι τ : Type*} [DecidableEq ι]

/-- A worker tests the flag, goes through its section under the lock when the condition of its
`wait` holds, or executes its task. -/
def ThreadPool.threadFunc (s : ThreadPool ι τ) (i : ι) : Option (ThreadPool ι τ) :=
  match s.threads i with
  | .head =>
      some { s with
        threads := Function.update s.threads i (if s.isExit then .returned else .inside) }
  | .inside =>
      match s.taskQue with
      | [] =>
          if s.isExit then some { s with threads := Function.update s.threads i .returned }
          else none
      | task :: rest =>
          some { s with taskQue := rest, threads := Function.update s.threads i (.holds task) }
  | .holds task =>
      some { s with
        threads := Function.update s.threads i .head
        executed := s.executed ++ task.toList }
  | .returned => none

def ThreadPool.step (s : ThreadPool ι τ) : Action ι → Option (ThreadPool ι τ)
  | .threadFunc i => s.threadFunc i
  | .destructor => if s.isExit then none else some { s with isExit := true }

/-- The workers before their first test, with tasks in the queue. -/
def ThreadPool.start (ι : Type*) {τ : Type*} (tasks : List (Option τ)) : ThreadPool ι τ where
  taskQue := tasks
  isExit := false
  threads := fun _ => .head
  executed := []

/-- All interleavings. -/
def threadPool (ι : Type*) {τ : Type*} [DecidableEq ι] (tasks : List (Option τ)) :
    System (ThreadPool ι τ) (Action ι) :=
  System.ofFun (ThreadPool.start ι tasks) ThreadPool.step

/-- A worker has returned only from an empty queue, and when all have, every task has been
executed once. -/
structure WorkDone (tasks : List (Option τ)) (s : ThreadPool ι τ) : Prop where
  returned : ∀ i, s.threads i = .returned → s.taskQue = []
  all : s.isExit = true → (∀ i, s.threads i = .returned) →
    s.taskQue = [] ∧ s.executed.Perm tasks.reduceOption

/-- However the workers go on, they finish the work first. -/
def FinishesWork (tasks : List (Option τ)) (s : ThreadPool ι τ) : Prop :=
  ∀ t, Leads ThreadPool.threadFunc s t → WorkDone tasks t

/-- The queue is empty, or all workers are waiting and there is one task for them. -/
def ThreadPool.Finishable (s : ThreadPool ι τ) : Prop :=
  s.taskQue = [] ∨ (∃ task, s.taskQue = [task]) ∧ Nonempty ι ∧ ∀ i, s.threads i = .inside

/-- The destructor sets the flag only then. -/
def SetsInTime (s : ThreadPool ι τ) : Action ι → Prop
  | .threadFunc _ => True
  | .destructor => s.Finishable

theorem threadFunc_cases {s t : ThreadPool ι τ} {i : ι} (h : s.threadFunc i = some t) :
    (s.threads i = .head ∧ t = { s with
      threads := Function.update s.threads i (if s.isExit then .returned else .inside) }) ∨
    (s.threads i = .inside ∧ s.taskQue = [] ∧ s.isExit = true ∧
      t = { s with threads := Function.update s.threads i .returned }) ∨
    (∃ task rest, s.threads i = .inside ∧ s.taskQue = task :: rest ∧
      t = { s with taskQue := rest, threads := Function.update s.threads i (.holds task) }) ∨
    ∃ task, s.threads i = .holds task ∧ t = { s with
      threads := Function.update s.threads i .head
      executed := s.executed ++ task.toList } := by
  rw [ThreadPool.threadFunc] at h
  cases hi : s.threads i with
  | head =>
      rw [hi] at h
      exact Or.inl ⟨rfl, (Option.some.inj h).symm⟩
  | inside =>
      rw [hi] at h
      cases hqueue : s.taskQue with
      | nil =>
          rw [hqueue] at h
          obtain ⟨hexit, ht⟩ := Option.ite_none_right_eq_some.mp h
          exact Or.inr (Or.inl ⟨rfl, rfl, hexit, (Option.some.inj ht).symm⟩)
      | cons task rest =>
          rw [hqueue] at h
          exact Or.inr (Or.inr (Or.inl ⟨task, rest, rfl, rfl, (Option.some.inj h).symm⟩))
  | holds task =>
      rw [hi] at h
      exact Or.inr (Or.inr (Or.inr ⟨task, rfl, (Option.some.inj h).symm⟩))
  | returned =>
      rw [hi] at h
      cases h

variable {tasks : List (Option τ)} {s t : ThreadPool ι τ}

/-- Work that can be finished still can after a step of a worker. -/
theorem ThreadPool.Finishable.threadFunc (h : s.Finishable) {i : ι}
    (hstep : s.threadFunc i = some t) : t.Finishable := by
  rcases h with hqueue | ⟨⟨task, hqueue⟩, -, hinside⟩
  · -- nobody can take anything from the queue
    rcases threadFunc_cases hstep with ⟨-, rfl⟩ | ⟨-, -, -, rfl⟩ | ⟨task, rest, -, hcons, -⟩ |
      ⟨task, -, rfl⟩
    · exact Or.inl hqueue
    · exact Or.inl hqueue
    · rw [hqueue] at hcons
      cases hcons
    · exact Or.inl hqueue
  · -- the one task is taken
    rcases threadFunc_cases hstep with ⟨hi, -⟩ | ⟨-, hnil, -, -⟩ | ⟨task', rest, -, hcons, rfl⟩ |
      ⟨task', hi, -⟩
    · rw [hinside i] at hi
      cases hi
    · rw [hqueue] at hnil
      cases hnil
    · rw [hqueue] at hcons
      exact Or.inl (List.cons.inj hcons).2.symm
    · rw [hinside i] at hi
      cases hi

/-! ## What goes wrong -/

theorem FinishesWork.threadFunc (h : FinishesWork tasks s) {i : ι}
    (hstep : s.threadFunc i = some t) : FinishesWork tasks t :=
  fun u hu => h u (.head hstep hu)

/-- A worker at the head returns at once, whatever is queued. -/
theorem not_finishesWork_of_head {i : ι} (hexit : s.isExit = true) (hi : s.threads i = .head)
    (hqueue : s.taskQue ≠ []) : ¬ FinishesWork tasks s := by
  intro hfinishes
  have hstep : s.threadFunc i = some { s with
      threads := Function.update s.threads i .returned } := by
    rw [ThreadPool.threadFunc, hi]
    simp only [hexit, if_true]
  exact hqueue ((hfinishes _ (.head hstep (.refl _ _))).returned i (Function.update_self _ _ _))

/-- A worker that holds a task comes back to the head. -/
theorem not_finishesWork_of_holds {i : ι} {task : Option τ} (hexit : s.isExit = true)
    (hi : s.threads i = .holds task) (hqueue : s.taskQue ≠ []) : ¬ FinishesWork tasks s := by
  intro hfinishes
  have hstep : s.threadFunc i = some { s with
      threads := Function.update s.threads i .head
      executed := s.executed ++ task.toList } := by
    rw [ThreadPool.threadFunc, hi]
  refine absurd (hfinishes.threadFunc hstep) ?_
  exact not_finishesWork_of_head hexit (Function.update_self i _ _) hqueue

/-- A worker that waits takes one of several tasks. -/
theorem not_finishesWork_of_inside {i : ι} {task : Option τ} {rest : List (Option τ)}
    (hexit : s.isExit = true) (hi : s.threads i = .inside) (hqueue : s.taskQue = task :: rest)
    (hrest : rest ≠ []) : ¬ FinishesWork tasks s := by
  intro hfinishes
  have hstep : s.threadFunc i = some { s with
      taskQue := rest
      threads := Function.update s.threads i (.holds task) } := by
    rw [ThreadPool.threadFunc, hi, hqueue]
  refine absurd (hfinishes.threadFunc hstep) ?_
  exact not_finishesWork_of_holds hexit (Function.update_self i _ _) hrest

theorem FinishesWork.finishable (h : FinishesWork tasks s) (hexit : s.isExit = true)
    (hrunning : ∀ i, s.threads i ≠ .returned) : s.Finishable := by
  by_cases hqueue : s.taskQue = []
  · exact Or.inl hqueue
  · have hinside : ∀ i, s.threads i = .inside := by
      intro i
      cases hi : s.threads i with
      | head => exact absurd h (not_finishesWork_of_head hexit hi hqueue)
      | inside => rfl
      | holds task => exact absurd h (not_finishesWork_of_holds hexit hi hqueue)
      | returned => exact absurd hi (hrunning i)
    have hsome : Nonempty ι := by
      by_contra hnone
      exact hqueue ((h s (.refl _ s)).all hexit fun i => absurd ⟨i⟩ hnone).1
    obtain ⟨task, rest, hcons⟩ := List.exists_cons_of_ne_nil hqueue
    refine Or.inr ⟨⟨task, ?_⟩, hsome, hinside⟩
    obtain ⟨i⟩ := hsome
    by_cases hrest : rest = []
    · rw [hcons, hrest]
    · exact absurd h (not_finishesWork_of_inside hexit (hinside i) hcons hrest)

end

/-- What a worker holds. -/
def Phase.held {τ : Type*} : Phase τ → Multiset τ
  | .holds task => (task.toList : Multiset τ)
  | _ => 0

section

variable {ι τ : Type*} [Fintype ι] {tasks : List (Option τ)} {s t : ThreadPool ι τ}

/-- The queued tasks, those in the hands of the workers and the executed ones. -/
def ThreadPool.owned (s : ThreadPool ι τ) : Multiset τ :=
  (s.taskQue.reduceOption : Multiset τ) + total Phase.held s.threads + (s.executed : Multiset τ)

/-- No task is lost or doubled, nobody returns before the flag, and after it the queue can still
be emptied. -/
structure Working (tasks : List (Option τ)) (s : ThreadPool ι τ) : Prop where
  running : s.isExit = false → ∀ i, s.threads i ≠ .returned
  stopping : s.isExit = true → s.Finishable
  owned : s.owned = (tasks.reduceOption : Multiset τ)

theorem Working.workDone (h : Working tasks s) : WorkDone tasks s := by
  have hempty : ∀ i, s.threads i = .returned → s.taskQue = [] := by
    intro i hi
    cases hexit : s.isExit with
    | false => exact absurd hi (h.running hexit i)
    | true =>
        rcases h.stopping hexit with hqueue | ⟨-, -, hinside⟩
        · exact hqueue
        · rw [hinside i] at hi
          cases hi
  refine ⟨hempty, fun hexit hall => ?_⟩
  have hqueue : s.taskQue = [] := by
    rcases h.stopping hexit with hqueue | ⟨-, ⟨i⟩, -⟩
    · exact hqueue
    · exact hempty i (hall i)
  refine ⟨hqueue, Multiset.coe_eq_coe.mp ?_⟩
  have howned := h.owned
  rwa [ThreadPool.owned, hqueue, total_eq_zero fun i => by rw [hall i]; rfl,
    List.reduceOption_nil, Multiset.coe_nil, add_zero, zero_add] at howned

theorem working_start : Working tasks (ThreadPool.start ι tasks) where
  running := fun _ i hi => by cases hi
  stopping := fun hexit => by cases hexit
  owned := by
    rw [ThreadPool.owned, total_eq_zero fun i => by rfl]
    exact (add_zero _).trans (add_zero _)

theorem coe_reduceOption_cons (task : Option τ) (rest : List (Option τ)) :
    ((task :: rest).reduceOption : Multiset τ) =
      (task.toList : Multiset τ) + (rest.reduceOption : Multiset τ) := by
  cases task <;> rfl

variable [DecidableEq ι]

theorem owned_threadFunc {i : ι} (h : s.threadFunc i = some t) : t.owned = s.owned := by
  rcases threadFunc_cases h with ⟨hi, rfl⟩ | ⟨hi, -, -, rfl⟩ | ⟨task, rest, hi, hqueue, rfl⟩ |
    ⟨task, hi, rfl⟩
  · rw [ThreadPool.owned, total_update_of_eq _ _ (by rw [hi]; split <;> rfl), ThreadPool.owned]
  · rw [ThreadPool.owned, total_update_of_eq _ _ (by rw [hi]; rfl), ThreadPool.owned]
  · rw [ThreadPool.owned, ThreadPool.owned, hqueue, coe_reduceOption_cons,
      total_update_of_zero _ _ _ (by rw [hi]; rfl), Phase.held]
    ac_rfl
  · rw [ThreadPool.owned, ThreadPool.owned,
      ← total_update_to_zero Phase.held s.threads i (a := .head) rfl, hi, Phase.held,
      ← Multiset.coe_add]
    ac_rfl

theorem Working.threadFunc (h : Working tasks s) {i : ι} (hstep : s.threadFunc i = some t) :
    Working tasks t := by
  have hexit : t.isExit = s.isExit := by
    rcases threadFunc_cases hstep with ⟨-, rfl⟩ | ⟨-, -, -, rfl⟩ | ⟨_, _, -, -, rfl⟩ |
      ⟨_, -, rfl⟩ <;> rfl
  refine ⟨fun hfalse j => ?_, fun htrue => ?_, (owned_threadFunc hstep).trans h.owned⟩
  · rw [hexit] at hfalse
    have hrunning := h.running hfalse
    rcases threadFunc_cases hstep with ⟨-, rfl⟩ | ⟨-, -, htrue, -⟩ | ⟨_, _, -, -, rfl⟩ | ⟨_, -, rfl⟩
    · refine forall_update (P := fun _ (a : Phase τ) => a ≠ .returned) hrunning ?_ j
      rw [hfalse]
      exact nofun
    · rw [hfalse] at htrue
      cases htrue
    · refine forall_update (P := fun _ (a : Phase τ) => a ≠ .returned) hrunning ?_ j
      exact nofun
    · refine forall_update (P := fun _ (a : Phase τ) => a ≠ .returned) hrunning ?_ j
      exact nofun
  · rw [hexit] at htrue
    exact (h.stopping htrue).threadFunc hstep

/-- While there is work in hand the workers finish all of it. -/
theorem Working.finishesWork (h : Working tasks s) : FinishesWork tasks s := fun _ hleads =>
  (hleads.preserves (fun _ _ _ hs hstep => Working.threadFunc hs hstep) h).workDone

theorem Working.step (h : Working tasks s) {l : Action ι} (hl : SetsInTime s l)
    (hstep : s.step l = some t) : Working tasks t := by
  cases l with
  | threadFunc i => exact h.threadFunc hstep
  | destructor =>
      obtain ⟨-, ht⟩ := Option.ite_none_left_eq_some.mp hstep
      obtain rfl := Option.some.inj ht
      exact { running := nofun, stopping := fun _ => hl, owned := h.owned }

theorem Working.finishesWork_iff (h : Working tasks s) {l : Action ι}
    (hstep : s.step l = some t) : FinishesWork tasks t ↔ SetsInTime s l := by
  refine ⟨fun hfinishes => ?_, fun hl => (h.step hl hstep).finishesWork⟩
  cases l with
  | threadFunc i => trivial
  | destructor =>
      obtain ⟨hexit, ht⟩ := Option.ite_none_left_eq_some.mp hstep
      obtain rfl := Option.some.inj ht
      exact hfinishes.finishable rfl (h.running (Bool.eq_false_iff.mpr hexit))

/-- The workers finish all queued work before they return as long as the destructor sets the
flag over an empty queue or over one task for workers that all wait, and only that long. -/
theorem workDone_iff (tasks : List (Option τ)) :
    (∀ s : ThreadPool ι τ, Reachable ((threadPool ι tasks).restrict SetsInTime) s →
      WorkDone tasks s) ∧
    ∀ (ls : List (Action ι)) (s : ThreadPool ι τ),
      Run ((threadPool ι tasks).filter fun _ _ t => FinishesWork tasks t)
          (.start ι tasks) ls s ↔
        Run ((threadPool ι tasks).restrict SetsInTime) (.start ι tasks) ls s := by
  have hworking : Inductive ((threadPool ι tasks).restrict SetsInTime) (Working tasks) := by
    refine .restrict ?_ fun s l t h hl hstep => h.step hl hstep
    rintro s rfl
    exact working_start
  refine ⟨fun s hs => (hworking.reachable hs).workDone, fun ls s => ?_⟩
  exact run_filter_iff_restrict (I := Working tasks) (fun _ _ _ h hl hstep => h.step hl hstep)
    (fun _ _ _ h hstep => h.finishesWork_iff hstep) working_start

end

/-- Two tasks are done before the destructor comes, a third one after it. -/
theorem workDone_three : ∃ s : ThreadPool Bool ℕ,
    Run ((threadPool Bool [some 1, none, some 3]).filter fun _ _ t =>
        FinishesWork [some 1, none, some 3] t)
      (.start Bool [some 1, none, some 3])
      [.threadFunc true, .threadFunc true, .threadFunc true, .threadFunc true, .threadFunc true,
        .threadFunc true, .threadFunc true, .threadFunc false, .destructor, .threadFunc false,
        .threadFunc true, .threadFunc false, .threadFunc false] s ∧
      (∀ i, s.threads i = .returned) ∧ s.executed = [1, 3] := by
  refine ⟨_, ((workDone_iff [some 1, none, some 3]).2 _ _).mpr
    (.cons ⟨trivial, rfl⟩ (.cons ⟨trivial, rfl⟩ (.cons ⟨trivial, rfl⟩ (.cons ⟨trivial, rfl⟩
    (.cons ⟨trivial, rfl⟩ (.cons ⟨trivial, rfl⟩ (.cons ⟨trivial, rfl⟩ (.cons ⟨trivial, rfl⟩
    (.cons ⟨Or.inr ⟨⟨some 3, rfl⟩, ⟨true⟩, fun i => by cases i <;> rfl⟩, rfl⟩
    (.cons ⟨trivial, rfl⟩ (.cons ⟨trivial, rfl⟩ (.cons ⟨trivial, rfl⟩ (.cons ⟨trivial, rfl⟩
    (.nil _)))))))))))))), fun i => by cases i <;> rfl, rfl⟩

/-- The destructor comes while the only worker executes the first of two tasks. -/
theorem task_left_behind : ¬ ∀ s : ThreadPool Unit ℕ,
    Reachable (threadPool Unit [some 1, some 2]) s → WorkDone [some 1, some 2] s := by
  intro hclaim
  have hdone := hclaim _ (reachable_ofFun_iff.mpr ⟨[.threadFunc (), .threadFunc (), .destructor,
    .threadFunc (), .threadFunc ()], rfl⟩)
  exact absurd (hdone.returned () rfl) (by decide)

end MyThreadPool

end ProcessThreadPool
