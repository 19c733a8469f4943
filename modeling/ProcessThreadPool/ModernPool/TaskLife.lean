import ProcessThreadPool.ModernPool.Task

/-!
# Whether a finished task stays finished

A step changes the state of the task exactly by what it stores, and only
`task_cancel` looks at the state before it stores. So what lasts depends on the
order of the stores: as long as no party stores after another one has finished the
task, the positions of the parties say which state it is in.
-/

namespace ProcessThreadPool

namespace ModernPool

section

variable {ι : Type*} [DecidableEq ι] {s t : Life ι} {l : Move ι}

/-- The step leaves a finished state alone, and a task whose cancellation has been
reported is cancelled. -/
def Lasting (s : Life ι) (_ : Move ι) (t : Life ι) : Prop :=
  (taskIsCompleted s.task = true → t.task.state = s.task.state) ∧
    (t.cancelled = true → t.task.state = .cancelled)

/-- The step stores no new state to a task that is already finished. -/
def StoresUnfinished (s : Life ι) (l : Move ι) : Prop :=
  ∀ v, stores s l = some v → taskIsCompleted s.task = true → v = s.task.state

/-- A call of `task_cancel` has stored `TASK_STATE_CANCELLED`. -/
def Life.CancelStored (s : Life ι) : Prop :=
  s.cancelled = true ∨ ∃ c, s.cancels c = .notifying

/-- The refused assignment has stored `TASK_STATE_FAILED`. -/
def Life.RefusalStored (s : Life ι) : Prop := s.assign = .stored ∨ s.assign = .done

/-- Nobody stores after a cancellation, a call of `task_cancel` that has looked at the
state stores before the others finish the task, and the worker and the refused
assignment agree when both store. -/
def InOrder (s : Life ι) : Move ι → Prop
  | .cancel c _ => s.cancels c = .storing → s.worker ≠ .done ∧ ¬ s.RefusalStored
  | .storeRunning _ _ => ¬ s.CancelStored ∧ ¬ s.RefusalStored
  | .storeFinal => ¬ s.CancelStored ∧ (s.RefusalStored → s.worker ≠ .recorded 0)
  | .storeFailed => ¬ s.CancelStored ∧ (s.worker = .done → s.task.state ≠ .completed)
  | _ => True

/-- What the positions of the parties say about the state. -/
structure Accounted (s : Life ι) : Prop where
  cancelled : s.CancelStored → s.task.state = .cancelled
  refused : s.RefusalStored → s.task.state = .failed
  done : s.worker = .done → s.task.state = .completed ∨ s.task.state = .failed
  unfinished : ¬ s.CancelStored → ¬ s.RefusalStored → s.worker ≠ .done →
    taskIsCompleted s.task = false

/-- A step changes the state by what it stores, and nothing else does. -/
theorem step_state (hstep : s.step l = some t) :
    t.task.state = (stores s l).getD s.task.state := by
  cases step_moves hstep with
  | lock hstart => simp [stores, hstart.1]
  | reject hstart => simp [stores, hstart.1]
  | storeCancelled hc => simp [stores, hc]
  | notifyCancelled hc => simp [stores, hc]
  | recordResult _ _ hstate => exact hstate
  | storeFinal hworker => simp [stores, hworker]
  | recordFailure _ _ hstate => exact hstate
  | _ => rfl

/-- A step that stores nothing leaves every party on its side of its store. -/
theorem step_positions (hstep : s.step l = some t) (hnone : stores s l = none) :
    (t.CancelStored ↔ s.CancelStored) ∧ (t.RefusalStored ↔ s.RefusalStored) ∧
      (t.worker = .done ↔ s.worker = .done) := by
  have hother : ∀ (c : ι) p, p ≠ Cancel.notifying → s.cancels c ≠ .notifying →
      ((∃ c', Function.update s.cancels c p c' = .notifying) ↔
        ∃ c', s.cancels c' = .notifying) := by
    intro c p hp hc
    refine exists_congr fun c' => ?_
    by_cases heq : c' = c
    · subst heq
      simp [hp, hc]
    · rw [Function.update_of_ne heq]
  cases step_moves hstep with
  | @lock c _ hstart =>
      exact ⟨or_congr Iff.rfl (hother c _ (by simp) hstart.2), Iff.rfl, Iff.rfl⟩
  | @reject c _ hstart =>
      exact ⟨or_congr Iff.rfl (hother c _ (by simp) hstart.2), Iff.rfl, Iff.rfl⟩
  | @notifyCancelled c _ hc =>
      exact ⟨iff_of_true (Or.inl rfl) (Or.inr ⟨c, hc⟩), Iff.rfl, Iff.rfl⟩
  | runHandler hworker => exact ⟨Iff.rfl, Iff.rfl, by simp [hworker]⟩
  | recordResult hworker => exact ⟨Iff.rfl, Iff.rfl, by simp [hworker]⟩
  | refuse hassign => exact ⟨Iff.rfl, by simp [Life.RefusalStored, hassign], Iff.rfl⟩
  | recordFailure hassign => exact ⟨Iff.rfl, by simp [Life.RefusalStored, hassign], Iff.rfl⟩
  | notifyFailure hassign => exact ⟨Iff.rfl, by simp [Life.RefusalStored, hassign], Iff.rfl⟩
  | storeCancelled hc => simp [stores, hc] at hnone
  | storeFinal hworker => simp [stores, hworker] at hnone
  | storeRunning => simp [stores] at hnone
  | storeFailed => simp [stores] at hnone

namespace Accounted

omit [DecidableEq ι] in
theorem start : Accounted (Life.start (ι := ι)) where
  cancelled := by simp [Life.CancelStored, Life.start]
  refused := by simp [Life.RefusalStored, Life.start]
  done := by simp [Life.start]
  unfinished := fun _ _ _ => rfl

/-- A step that stores nothing changes neither the state nor what is known of it. -/
theorem quiet (h : Accounted s) (hstep : s.step l = some t) (hnone : stores s l = none) :
    Accounted t := by
  obtain ⟨hcancel, hrefusal, hdone⟩ := step_positions hstep hnone
  have hstate : t.task.state = s.task.state := by
    rw [step_state hstep, hnone]
    rfl
  refine ⟨?_, ?_, ?_, ?_⟩
  · rw [hcancel, hstate]
    exact h.cancelled
  · rw [hrefusal, hstate]
    exact h.refused
  · rw [hdone, hstate]
    exact h.done
  · rw [hcancel, hrefusal, Ne, hdone, taskIsCompleted, hstate]
    exact h.unfinished

theorem step (h : Accounted s) (hl : InOrder s l) (hstep : s.step l = some t) :
    Accounted t := by
  cases hstored : stores s l with
  | none => exact h.quiet hstep hstored
  | some v =>
      cases step_moves hstep with
      | @storeCancelled c _ hc =>
          obtain ⟨hworker, hrefusal⟩ := hl hc
          exact ⟨fun _ => rfl, fun hr => absurd hr hrefusal, fun hw => absurd hw hworker,
            fun hnot => absurd (Or.inr ⟨c, Function.update_self _ _ _⟩) hnot⟩
      | storeRunning =>
          obtain ⟨hcancel, hrefusal⟩ := hl
          exact ⟨fun hc => absurd hc hcancel, fun hr => absurd hr hrefusal,
            (by simp), fun _ _ _ => rfl⟩
      | storeFinal hworker =>
          obtain ⟨hcancel, hagree⟩ := hl
          refine ⟨fun hc => absurd hc hcancel, fun hr => ?_, fun _ => ?_, fun _ _ hne =>
            absurd rfl hne⟩
          · refine if_neg fun hzero => hagree hr ?_
            rw [hworker, hzero]
          · simp only [finalState]
            split_ifs <;> simp
      | storeFailed =>
          exact ⟨fun hc => absurd hc hl.1, fun _ => rfl, fun _ => Or.inr rfl,
            fun _ hnot => absurd (Or.inl rfl) hnot⟩
      | lock hstart => simp [stores, hstart.1] at hstored
      | reject hstart => simp [stores, hstart.1] at hstored
      | notifyCancelled hc => simp [stores, hc] at hstored
      | _ => simp [stores] at hstored

/-- A store keeps a finished state exactly when it comes in order. -/
theorem storesUnfinished_iff (h : Accounted s) (hstep : s.step l = some t) :
    StoresUnfinished s l ↔ InOrder s l := by
  cases l with
  | cancel c now =>
      by_cases hc : s.cancels c = .storing
      · simp only [StoresUnfinished, stores, hc, if_true, Option.some.injEq, forall_eq',
          InOrder, forall_const]
        constructor
        · intro hkeeps
          refine ⟨fun hw => ?_, fun hr => ?_⟩
          · rcases h.done hw with hstate | hstate <;>
              simp [taskIsCompleted, hstate] at hkeeps
          · simp [taskIsCompleted, h.refused hr] at hkeeps
        · rintro ⟨hworker, hrefusal⟩ hfin
          by_cases hcancel : s.CancelStored
          · exact (h.cancelled hcancel).symm
          · rw [h.unfinished hcancel hrefusal hworker] at hfin
            cases hfin
      · simp [StoresUnfinished, stores, hc, InOrder]
  | storeRunning workerId now =>
      simp only [StoresUnfinished, stores, Option.some.injEq, forall_eq', InOrder]
      constructor
      · intro hkeeps
        refine ⟨fun hc => ?_, fun hr => ?_⟩
        · simp [taskIsCompleted, h.cancelled hc] at hkeeps
        · simp [taskIsCompleted, h.refused hr] at hkeeps
      · rintro ⟨hcancel, hrefusal⟩ hfin
        cases step_moves hstep with
        | storeRunning hworker =>
            rw [h.unfinished hcancel hrefusal (by simp [hworker])] at hfin
            cases hfin
  | storeFinal =>
      obtain ⟨result, hworker⟩ : ∃ result, s.worker = .recorded result := by
        cases step_moves hstep with
        | storeFinal hworker => exact ⟨_, hworker⟩
      simp only [StoresUnfinished, stores, hworker, Option.some.injEq, forall_eq', InOrder]
      constructor
      · intro hkeeps
        refine ⟨fun hc => ?_, fun hr heq => ?_⟩
        · have hfinal := hkeeps (by simp [taskIsCompleted, h.cancelled hc])
          rw [h.cancelled hc, finalState] at hfinal
          split_ifs at hfinal
        · have hfinal := hkeeps (by simp [taskIsCompleted, h.refused hr])
          rw [h.refused hr, finalState, if_pos (Worker.recorded.inj heq)] at hfinal
          cases hfinal
      · rintro ⟨hcancel, hagree⟩ hfin
        by_cases hrefusal : s.RefusalStored
        · rw [h.refused hrefusal]
          exact if_neg fun hzero => hagree hrefusal (by rw [hzero])
        · rw [h.unfinished hcancel hrefusal (by simp [hworker])] at hfin
          cases hfin
  | storeFailed =>
      simp only [StoresUnfinished, stores, Option.some.injEq, forall_eq', InOrder]
      constructor
      · intro hkeeps
        refine ⟨fun hc => ?_, fun _ hstate => ?_⟩
        · simp [taskIsCompleted, h.cancelled hc] at hkeeps
        · simp [taskIsCompleted, hstate] at hkeeps
      · rintro ⟨hcancel, hagree⟩ hfin
        cases step_moves hstep with
        | storeFailed hassign =>
            by_cases hw : s.worker = .done
            · exact ((h.done hw).resolve_left (hagree hw)).symm
            · rw [h.unfinished hcancel (by simp [Life.RefusalStored, hassign]) hw] at hfin
              cases hfin
  | _ => simp [StoresUnfinished, stores, InOrder]

theorem lasting_iff (h : Accounted s) (hstep : s.step l = some t) :
    Lasting s l t ↔ InOrder s l := by
  constructor
  · intro hlasting
    rw [← h.storesUnfinished_iff hstep]
    intro v hv hfin
    rw [← hlasting.1 hfin, step_state hstep, hv]
    rfl
  · intro hl
    refine ⟨fun hfin => ?_, fun hc => (h.step hl hstep).cancelled (Or.inl hc)⟩
    rw [step_state hstep]
    cases hv : stores s l with
    | none => rfl
    | some v => exact (h.storesUnfinished_iff hstep).mpr hl v hv hfin

end Accounted

/-- In a run of the cancellations, the worker and the refused assignment, a finished
state lasts and a reported cancellation stays visible exactly when all stores come in
order. -/
theorem finished_lasts_iff (ls : List (Move ι)) (s : Life ι) :
    Transition.Run (life.filter Lasting) Life.start ls s ↔
      Transition.Run (life.restrict InOrder) Life.start ls s := by
  apply Transition.run_filter_iff_restrict (I := Accounted)
  · intro s l t h hl hstep
    exact h.step hl hstep
  · intro s l t h hstep
    exact h.lasting_iff hstep
  · exact Accounted.start

/-- A pending task is cancelled with `POOL_SUCCESS`; then the worker stores
`TASK_STATE_RUNNING` and, in the end, `TASK_STATE_COMPLETED`. -/
theorem cancelled_task_completes :
    ¬ (∀ (s t : Life Unit) (l : Move Unit), Transition.Reachable life s →
        s.step l = some t → taskIsCompleted s.task = true → t.task.state = s.task.state) ∧
      ¬ ∀ s : Life Unit, Transition.Reachable life s → s.cancelled = true →
        s.task.state ≠ .running ∧ s.task.state ≠ .completed ∧ s.task.state ≠ .failed := by
  have hcancelled : ∃ s : Life Unit, Transition.Reachable life s ∧
      s.task.state = .cancelled ∧ s.worker = .idle :=
    ⟨_, Transition.reachable_ofFun_iff.mpr
      ⟨[.cancel () 0, .cancel () 1, .cancel () 2], rfl⟩, rfl, rfl⟩
  have hcompleted : ∃ s : Life Unit, Transition.Reachable life s ∧
      s.cancelled = true ∧ s.task.state = .completed :=
    ⟨_, Transition.reachable_ofFun_iff.mpr
      ⟨[.cancel () 0, .cancel () 1, .cancel () 2, .storeRunning 0 3, .runHandler 0 none 4,
        .recordResult true, .storeFinal], rfl⟩, rfl, rfl⟩
  constructor
  · intro hclaim
    obtain ⟨s, hs, hstate, hworker⟩ := hcancelled
    have hstep : s.step (.storeRunning 0 3) = some { s with
        task := { s.task with state := .running, workerId := 0, startTime := 3 }
        worker := .running } := by
      simp [Life.step, hworker]
    have hlasts := hclaim _ _ _ hs hstep (by simp [taskIsCompleted, hstate])
    rw [hstate] at hlasts
    cases hlasts
  · intro hclaim
    obtain ⟨s, hs, hreported, hstate⟩ := hcompleted
    exact (hclaim s hs hreported).2.1 hstate

end

end ModernPool

end ProcessThreadPool
