import ProcessThreadPool.ModernPool.TaskLife

/-!
# Who wakes the threads in `task_wait`

A caller of `task_wait` with timeout 0 tests `task_is_completed` under `task->mutex` and
blocks on `completion_cond` until the task is completed. `task_cancel` and the branch of
`handle_task_submit_event` for a refused assignment broadcast after they have stored a
final state; `worker_process_task` stores `TASK_STATE_COMPLETED` or `TASK_STATE_FAILED`
without the mutex and broadcasts nothing.
-/

namespace ProcessThreadPool

namespace ModernPool

/-- Where a call of `task_wait` stands. In `tested` the thread holds the mutex and has
seen that the task is not completed. -/
inductive Wait where
  | outside
  | tested
  | asleep
  | woken
  | returned
  deriving DecidableEq, Repr

/-- A task with the threads that wait for it. -/
structure Waiting (ι : Type*) where
  life : Life ι
  waits : ι → Wait

/-- Nobody waits yet. -/
def Waiting.start {ι : Type*} : Waiting ι := ⟨Life.start, fun _ => .outside⟩

/-- What happens next: a step of those that move the task, the next step of a call of
`task_wait`, or a spurious wakeup. -/
inductive WaitMove (ι : Type*) where
  | life (l : Move ι)
  | wait (w : ι)
  | spurious (w : ι)
  deriving DecidableEq, Repr

/-- A call of `task_cancel` is in progress. -/
def Cancel.inProgress : Cancel → Bool
  | .storing | .notifying => true
  | _ => false

/-- A call of `task_wait` is in progress. -/
def Wait.inProgress : Wait → Bool
  | .tested | .asleep | .woken => true
  | _ => false

/-- After `pthread_cond_broadcast`. -/
def Wait.notify : Wait → Wait
  | .asleep => .woken
  | p => p

section

variable {ι : Type*} [DecidableEq ι]

/-- The step performs `pthread_cond_broadcast`. -/
def broadcasts (s : Life ι) : Move ι → Bool
  | .cancel c _ => decide (s.cancels c = .notifying)
  | .notifyFailure => true
  | _ => false

/-- A thread does not call `task_cancel` while it is in `task_wait`. -/
def Waiting.admits (s : Waiting ι) : Move ι → Bool
  | .cancel c _ => !(s.waits c).inProgress
  | _ => true

/-- Taking the mutex and testing `task_is_completed`. -/
def waitTest (s : Waiting ι) (w : ι) : Option (Waiting ι) :=
  if s.life.mutex.isSome then none
  else if taskIsCompleted s.life.task then
    some { s with waits := Function.update s.waits w .returned }
  else
    some ⟨{ s.life with mutex := some w }, Function.update s.waits w .tested⟩

/-- The next step of a call of `task_wait`; a thread in `task_cancel` does not start
one. -/
def waitStep (s : Waiting ι) (w : ι) : Option (Waiting ι) :=
  match s.waits w with
  | .outside | .returned =>
      if (s.life.cancels w).inProgress then none else waitTest s w
  | .tested => some ⟨{ s.life with mutex := none }, Function.update s.waits w .asleep⟩
  | .asleep => none
  | .woken => waitTest s w

/-- One step. -/
def Waiting.step (s : Waiting ι) : WaitMove ι → Option (Waiting ι)
  | .life l =>
      if s.admits l then
        (s.life.step l).map fun t =>
          ⟨t, if broadcasts s.life l then fun w => (s.waits w).notify else s.waits⟩
      else none
  | .wait w => waitStep s w
  | .spurious w => some { s with waits := Function.update s.waits w (s.waits w).notify }

end

/-- All interleavings of the waiting threads with the steps that move the task. -/
def waiting {ι : Type*} [DecidableEq ι] : Transition.System (Waiting ι) (WaitMove ι) :=
  Transition.System.ofFun Waiting.start Waiting.step

section

variable {ι : Type*} {s t : Waiting ι} {a b : Life ι}

/-- A broadcast is still to come: a call of `task_cancel` or the refused assignment is
in progress. -/
def Life.Pending (a : Life ι) : Prop :=
  (∃ c, (a.cancels c).inProgress = true) ∨ a.assign ≠ .idle ∧ a.assign ≠ .done

/-- No operation is in progress on the task. -/
def Life.Settled (a : Life ι) : Prop :=
  ¬ a.Pending ∧ (a.worker = .idle ∨ a.worker = .done)

/-- No thread is blocked without a notification when the task is completed and no
operation is in progress. -/
def NoneAsleep (s : Waiting ι) : Prop :=
  taskIsCompleted s.life.task = true → s.life.Settled → ∀ w, s.waits w ≠ .asleep

/-- The worker's last store finds no thread blocked, and no thread blocks on a completed
task, unless an operation that broadcasts is in progress. -/
def StoresUnwatched (s : Waiting ι) : WaitMove ι → Prop
  | .life .storeFinal => (∃ w, s.waits w = .asleep) → s.life.Pending
  | .wait w => s.waits w = .tested → taskIsCompleted s.life.task = true → s.life.Pending
  | _ => True

/-- Who holds the mutex, and what is known while a thread that has tested holds it. -/
structure Coherent (s : Waiting ι) : Prop where
  tested : ∀ w, s.waits w = .tested → s.life.mutex = some w
  apart : ∀ w, (s.waits w).inProgress = true → (s.life.cancels w).inProgress = false
  cancels : ∀ c, (s.life.cancels c).inProgress = true → s.life.mutex = some c
  since : ∀ w, s.waits w = .tested → taskIsCompleted s.life.task = true →
    s.life.Pending ∨ s.life.worker = .done

/-- Whoever sleeps while the task is completed will be woken by a broadcast. -/
structure Watched (s : Waiting ι) : Prop where
  coherent : Coherent s
  asleep : taskIsCompleted s.life.task = true → (∃ w, s.waits w = .asleep) → s.life.Pending

theorem Cancel.inProgress_eq_false {p : Cancel} (hp : p ≠ .storing ∧ p ≠ .notifying) :
    p.inProgress = false := by
  cases p with
  | storing => exact absurd rfl hp.1
  | notifying => exact absurd rfl hp.2
  | _ => rfl

theorem Wait.notify_ne_asleep (p : Wait) : p.notify ≠ .asleep := by
  cases p <;> simp [Wait.notify]

theorem Wait.notify_inProgress (p : Wait) : p.notify.inProgress = p.inProgress := by
  cases p <;> rfl

theorem Wait.notify_eq_tested {p : Wait} : p.notify = .tested ↔ p = .tested := by
  cases p <;> simp [Wait.notify]

end

/-! ## Steps of those that move the task -/

section Life

variable {ι : Type*} [DecidableEq ι] {a b : Life ι} {l : Move ι}

theorem step_frame (hstep : a.step l = some b) (hl : ∀ c now, l ≠ .cancel c now) :
    b.mutex = a.mutex ∧ b.cancels = a.cancels := by
  cases step_moves hstep with
  | lock => exact absurd rfl (hl _ _)
  | reject => exact absurd rfl (hl _ _)
  | storeCancelled => exact absurd rfl (hl _ _)
  | notifyCancelled => exact absurd rfl (hl _ _)
  | _ => exact ⟨rfl, rfl⟩

/-- Only its own call moves a thread through `task_cancel`. -/
theorem step_cancels (hstep : a.step l = some b) {w : ι} (hl : ∀ now, l ≠ .cancel w now) :
    b.cancels w = a.cancels w := by
  have hne : ∀ {c now}, l = .cancel c now → w ≠ c := by
    rintro c now rfl rfl
    exact hl now rfl
  cases step_moves hstep with
  | lock => exact Function.update_of_ne (hne rfl) _ _
  | reject => exact Function.update_of_ne (hne rfl) _ _
  | storeCancelled => exact Function.update_of_ne (hne rfl) _ _
  | notifyCancelled => exact Function.update_of_ne (hne rfl) _ _
  | _ => rfl

/-- A step leaves the mutex with a thread that holds it outside `task_cancel`, and a
call of `task_cancel` in progress holds it. -/
theorem step_mutex (hcancels : ∀ c, (a.cancels c).inProgress = true → a.mutex = some c)
    (hstep : a.step l = some b) :
    (∀ c, (b.cancels c).inProgress = true → b.mutex = some c) ∧
      ∀ w, a.mutex = some w → (a.cancels w).inProgress = false → b.mutex = some w := by
  cases l with
  | cancel c now =>
      cases step_moves hstep with
      | lock _ hfree =>
          refine ⟨fun c' hc' => ?_, fun w hw => ?_⟩
          · by_cases heq : c' = c
            · rw [heq]
            · simp only [Function.update_of_ne heq] at hc'
              rw [hcancels c' hc'] at hfree
              cases hfree
          · rw [hfree] at hw
            cases hw
      | reject _ hfree =>
          refine ⟨fun c' hc' => ?_, fun w hw => ?_⟩
          · by_cases heq : c' = c
            · simp [heq, Cancel.inProgress] at hc'
            · simp only [Function.update_of_ne heq] at hc'
              exact hcancels c' hc'
          · rw [hfree] at hw
            cases hw
      | storeCancelled hc =>
          have hheld := hcancels c (by rw [hc]; rfl)
          refine ⟨fun c' hc' => ?_, fun w hw hidle => ?_⟩
          · by_cases heq : c' = c
            · rwa [heq]
            · simp only [Function.update_of_ne heq] at hc'
              exact hcancels c' hc'
          · obtain rfl := Option.some.inj (hheld.symm.trans hw)
            rw [hc] at hidle
            cases hidle
      | notifyCancelled hc =>
          have hheld := hcancels c (by rw [hc]; rfl)
          refine ⟨fun c' hc' => ?_, fun w hw hidle => ?_⟩
          · by_cases heq : c' = c
            · simp [heq, Cancel.inProgress] at hc'
            · simp only [Function.update_of_ne heq] at hc'
              exact absurd (Option.some.inj ((hcancels c' hc').symm.trans hheld)) heq
          · obtain rfl := Option.some.inj (hheld.symm.trans hw)
            rw [hc] at hidle
            cases hidle
  | _ =>
      obtain ⟨hmutex, hsame⟩ := step_frame hstep (by simp)
      rw [hmutex, hsame]
      exact ⟨hcancels, fun w hw _ => hw⟩

/-- A broadcast that is to come stays to come until it is issued, and whoever completes
the task broadcasts, except the worker. -/
theorem step_pending (hstep : a.step l = some b) (hquiet : broadcasts a l = false) :
    (a.Pending → b.Pending) ∧
      (taskIsCompleted b.task = true →
        taskIsCompleted a.task = true ∨ b.Pending ∨ l = .storeFinal) := by
  have hkeep : ∀ {c : ι} (p : Cancel), ((a.cancels c).inProgress = true →
      p.inProgress = true) → (∃ c', (a.cancels c').inProgress = true) →
        ∃ c', (Function.update a.cancels c p c').inProgress = true := by
    rintro c p hp ⟨c', hc'⟩
    by_cases heq : c' = c
    · exact ⟨c, by rw [Function.update_self]; exact hp (heq ▸ hc')⟩
    · exact ⟨c', by rwa [Function.update_of_ne heq]⟩
  cases step_moves hstep with
  | lock => exact ⟨Or.imp_left (hkeep _ fun _ => rfl), Or.inl⟩
  | reject hstart =>
      refine ⟨Or.imp_left (hkeep _ fun h => ?_), Or.inl⟩
      rw [Cancel.inProgress_eq_false hstart] at h
      cases h
  | @storeCancelled c _ hc =>
      refine ⟨Or.imp_left (hkeep _ fun _ => rfl), fun _ => Or.inr (Or.inl (Or.inl ⟨c, ?_⟩))⟩
      simp only [Function.update_self]
      rfl
  | notifyCancelled hc => simp [broadcasts, hc] at hquiet
  | storeRunning =>
      exact ⟨id, fun hcompleted => absurd hcompleted Bool.false_ne_true⟩
  | runHandler => exact ⟨id, Or.inl⟩
  | recordResult _ _ hstate =>
      exact ⟨id, fun h => Or.inl (by rwa [taskIsCompleted, ← hstate])⟩
  | storeFinal => exact ⟨id, fun _ => Or.inr (Or.inr rfl)⟩
  | refuse => exact ⟨fun _ => Or.inr ⟨by simp, by simp⟩, Or.inl⟩
  | recordFailure _ _ hstate =>
      exact ⟨fun _ => Or.inr ⟨by simp, by simp⟩,
        fun h => Or.inl (by rwa [taskIsCompleted, ← hstate])⟩
  | storeFailed =>
      exact ⟨fun _ => Or.inr ⟨by simp, by simp⟩,
        fun _ => Or.inr (Or.inl (Or.inr ⟨by simp, by simp⟩))⟩
  | notifyFailure => cases hquiet

/-- The worker's last store is its last step. -/
theorem step_done (hstep : a.step l = some b) (h : a.worker = .done ∨ l = .storeFinal) :
    b.worker = .done := by
  cases step_moves hstep with
  | storeFinal => rfl
  | storeRunning hworker => simp [hworker] at h
  | runHandler hworker => simp [hworker] at h
  | recordResult hworker => simp [hworker] at h
  | _ => exact h.resolve_right (by simp)

/-- A broadcast finds nobody between the test and the block. -/
theorem mutex_of_broadcasts
    (hcancels : ∀ c, (a.cancels c).inProgress = true → a.mutex = some c)
    (hstep : a.step l = some b) (hb : broadcasts a l = true) {w : ι}
    (hw : (a.cancels w).inProgress = false) : a.mutex ≠ some w := by
  cases l with
  | cancel c now =>
      have hc : a.cancels c = .notifying := of_decide_eq_true hb
      have hheld := hcancels c (by rw [hc]; rfl)
      rw [hheld]
      rintro ⟨⟩
      rw [hc] at hw
      cases hw
  | notifyFailure =>
      cases step_moves hstep with
      | notifyFailure _ hfree =>
          rw [hfree]
          simp
  | _ => cases hb

end Life

/-! ## Steps of the waiting threads -/

section Waiting

variable {ι : Type*} [DecidableEq ι] {s t : Waiting ι}

theorem step_life {l : Move ι} (hstep : s.step (.life l) = some t) :
    s.admits l = true ∧ ∃ b, s.life.step l = some b ∧
      t = ⟨b, if broadcasts s.life l then fun w => (s.waits w).notify else s.waits⟩ := by
  by_cases hadmits : s.admits l = true
  · rw [Waiting.step, if_pos hadmits, Option.map_eq_some_iff] at hstep
    obtain ⟨b, hb, rfl⟩ := hstep
    exact ⟨hadmits, b, hb, rfl⟩
  · rw [Waiting.step, if_neg hadmits] at hstep
    cases hstep

namespace Coherent

omit [DecidableEq ι] in
theorem start : Coherent (Waiting.start (ι := ι)) := ⟨nofun, nofun, nofun, nofun⟩

theorem life (h : Coherent s) {l : Move ι} (hadmits : s.admits l = true) {b : Life ι}
    (hstep : s.life.step l = some b) :
    Coherent ⟨b, if broadcasts s.life l then fun w => (s.waits w).notify else s.waits⟩ := by
  have hmutex := step_mutex h.cancels hstep
  have hsame : ∀ w, (if broadcasts s.life l then fun w => (s.waits w).notify else s.waits) w =
      .tested → s.waits w = .tested := by
    intro w hw
    split_ifs at hw
    · exact Wait.notify_eq_tested.mp hw
    · exact hw
  have hidle : ∀ w, s.waits w = .tested → (s.life.cancels w).inProgress = false :=
    fun w hw => h.apart w (by rw [hw]; rfl)
  refine ⟨fun w hw => hmutex.2 w (h.tested w (hsame w hw)) (hidle w (hsame w hw)),
    fun w hw => ?_, hmutex.1, fun w hw hfin => ?_⟩
  · have hwaits : (s.waits w).inProgress = true := by
      split_ifs at hw
      · rwa [Wait.notify_inProgress] at hw
      · exact hw
    rw [step_cancels hstep fun now hl => ?_]
    · exact h.apart w hwaits
    · subst hl
      rw [Waiting.admits, hwaits] at hadmits
      cases hadmits
  · have hheld := h.tested w (hsame w hw)
    cases hb : broadcasts s.life l with
    | true =>
        exact absurd hheld (mutex_of_broadcasts h.cancels hstep hb (hidle w (hsame w hw)))
    | false =>
        obtain ⟨hkeep, hcompletes⟩ := step_pending hstep hb
        rcases hcompletes hfin with hold | hpending | hfinal
        · exact (h.since w (hsame w hw) hold).imp hkeep fun hdone =>
            step_done hstep (Or.inl hdone)
        · exact Or.inl hpending
        · exact Or.inr (step_done hstep (Or.inr hfinal))

/-- A thread that is outside `task_cancel` changes its position to one other than
`tested`. -/
theorem setWait (h : Coherent s) {w : ι} {p : Wait} (hp : p ≠ .tested)
    (hidle : p.inProgress = true → (s.life.cancels w).inProgress = false) :
    Coherent { s with waits := Function.update s.waits w p } := by
  have hother : ∀ w', Function.update s.waits w p w' = .tested → s.waits w' = .tested := by
    intro w' hw'
    rw [Function.update_apply] at hw'
    split_ifs at hw'
    · exact absurd hw' hp
    · exact hw'
  refine ⟨fun w' hw' => h.tested w' (hother w' hw'), fun w' hw' => ?_, h.cancels,
    fun w' hw' => h.since w' (hother w' hw')⟩
  simp only [Function.update_apply] at hw'
  split_ifs at hw' with heq
  · rw [heq]
    exact hidle hw'
  · exact h.apart w' hw'

/-- The thread that holds the mutex after its test gives it back and blocks. -/
theorem block (h : Coherent s) {w : ι} (hw : s.waits w = .tested) :
    Coherent ⟨{ s.life with mutex := none }, Function.update s.waits w .asleep⟩ := by
  have hheld := h.tested w hw
  have hidle := h.apart w (by rw [hw]; rfl)
  have hother : ∀ w', Function.update s.waits w .asleep w' ≠ .tested := by
    intro w' hw'
    rw [Function.update_apply] at hw'
    split_ifs at hw' with heq
    exact heq (Option.some.inj ((h.tested w' hw').symm.trans hheld))
  refine ⟨fun w' hw' => absurd hw' (hother w'),
    (h.setWait (p := .asleep) (by decide) fun _ => hidle).apart, fun c hc => ?_,
    fun w' hw' => absurd hw' (hother w')⟩
  obtain rfl := Option.some.inj ((h.cancels c hc).symm.trans hheld)
  exact absurd hc (by rw [hidle]; decide)

/-- The test returns when the task is completed, and else keeps the mutex. -/
theorem waitTest (h : Coherent s) {w : ι} (hidle : (s.life.cancels w).inProgress = false)
    (hstep : ModernPool.waitTest s w = some t) : Coherent t := by
  simp only [ModernPool.waitTest] at hstep
  split_ifs at hstep with hmutex hfin
  · obtain rfl := Option.some.inj hstep
    exact h.setWait (by decide) nofun
  · obtain rfl := Option.some.inj hstep
    rw [Option.isSome_iff_ne_none, not_not] at hmutex
    have hfree : ∀ c, s.life.mutex ≠ some c := by
      rw [hmutex]
      simp
    refine ⟨fun w' hw' => ?_, fun w' hw' => ?_, fun c hc => absurd (h.cancels c hc) (hfree c),
      fun w' _ hfin' => absurd hfin' hfin⟩
    · by_cases heq : w' = w
      · rw [heq]
      · simp only [Function.update_of_ne heq] at hw'
        exact absurd (h.tested w' hw') (hfree w')
    · by_cases heq : w' = w
      · rw [heq]
        exact hidle
      · simp only [Function.update_of_ne heq] at hw'
        exact h.apart w' hw'

theorem waitStep (h : Coherent s) {w : ι} (hstep : ModernPool.waitStep s w = some t) :
    Coherent t := by
  cases hw : s.waits w with
  | tested =>
      simp only [ModernPool.waitStep, hw, Option.some.injEq] at hstep
      subst hstep
      exact h.block hw
  | asleep => simp [ModernPool.waitStep, hw] at hstep
  | woken =>
      simp only [ModernPool.waitStep, hw] at hstep
      exact h.waitTest (h.apart w (by rw [hw]; rfl)) hstep
  | _ =>
      simp only [ModernPool.waitStep, hw] at hstep
      split_ifs at hstep with hidle
      exact h.waitTest (by simpa using hidle) hstep

theorem step (h : Coherent s) {l : WaitMove ι} (hstep : s.step l = some t) : Coherent t := by
  cases l with
  | life l =>
      obtain ⟨hadmits, b, hb, rfl⟩ := step_life hstep
      exact h.life hadmits hb
  | wait w => exact h.waitStep hstep
  | spurious w =>
      obtain rfl := Option.some.inj hstep
      by_cases hw : s.waits w = .tested
      · have hsame : Wait.notify .tested = .tested := rfl
        rw [hw, hsame, ← hw, Function.update_eq_self]
        exact h
      · refine h.setWait (fun hn => hw (Wait.notify_eq_tested.mp hn)) fun hn => ?_
        rw [Wait.notify_inProgress] at hn
        exact h.apart w hn

end Coherent

/-! ## Who is asleep -/

/-- A call of `task_wait` in its test puts nobody to sleep and changes no task. -/
theorem waitTest_asleep {w : ι} (hstep : waitTest s w = some t) :
    t.life.task = s.life.task ∧ (t.life.Pending ↔ s.life.Pending) ∧
      ∀ w', t.waits w' = .asleep → s.waits w' = .asleep := by
  have hother : ∀ (p : Wait) w', p ≠ .asleep → Function.update s.waits w p w' = .asleep →
      s.waits w' = .asleep := by
    intro p w' hp hw'
    rw [Function.update_apply] at hw'
    split_ifs at hw'
    · exact absurd hw' hp
    · exact hw'
  simp only [waitTest] at hstep
  split_ifs at hstep
  · obtain rfl := Option.some.inj hstep
    exact ⟨rfl, Iff.rfl, fun w' => hother _ w' (by decide)⟩
  · obtain rfl := Option.some.inj hstep
    exact ⟨rfl, Iff.rfl, fun w' => hother _ w' (by decide)⟩

namespace Watched

omit [DecidableEq ι] in
theorem start : Watched (Waiting.start (ι := ι)) := ⟨Coherent.start, nofun⟩

omit [DecidableEq ι] in
theorem noneAsleep (h : Watched s) : NoneAsleep s := by
  intro hfin hsettled w hw
  exact hsettled.1 (h.asleep hfin ⟨w, hw⟩)

theorem life (h : Watched s) {l : Move ι} (hl : StoresUnwatched s (.life l))
    (hstep : s.step (.life l) = some t) : Watched t := by
  refine ⟨h.coherent.step hstep, fun hfin hasleep => ?_⟩
  obtain ⟨-, b, hb, rfl⟩ := step_life hstep
  obtain ⟨w, hw⟩ := hasleep
  cases hquiet : broadcasts s.life l with
  | true =>
      rw [hquiet, if_pos rfl] at hw
      exact absurd hw (Wait.notify_ne_asleep _)
  | false =>
      rw [hquiet, if_neg (by decide)] at hw
      obtain ⟨hkeep, hcompletes⟩ := step_pending hb hquiet
      rcases hcompletes hfin with hold | hpending | rfl
      · exact hkeep (h.asleep hold ⟨w, hw⟩)
      · exact hpending
      · exact hkeep (hl ⟨w, hw⟩)

theorem waitTest (h : Watched s) {w : ι} (hcoherent : Coherent t)
    (hstep : ModernPool.waitTest s w = some t) : Watched t := by
  obtain ⟨htask, hpending, hasleep⟩ := waitTest_asleep hstep
  refine ⟨hcoherent, fun hfin hsome => ?_⟩
  obtain ⟨w', hw'⟩ := hsome
  rw [htask] at hfin
  exact hpending.mpr (h.asleep hfin ⟨w', hasleep w' hw'⟩)

theorem wait (h : Watched s) {w : ι} (hl : StoresUnwatched s (.wait w))
    (hstep : s.step (.wait w) = some t) : Watched t := by
  have hcoherent := h.coherent.step hstep
  cases hw : s.waits w with
  | tested =>
      simp only [Waiting.step, waitStep, hw, Option.some.injEq] at hstep
      subst hstep
      exact ⟨hcoherent, fun hfin _ => hl hw hfin⟩
  | asleep => simp [Waiting.step, waitStep, hw] at hstep
  | woken =>
      simp only [Waiting.step, waitStep, hw] at hstep
      exact h.waitTest hcoherent hstep
  | _ =>
      simp only [Waiting.step, waitStep, hw] at hstep
      split_ifs at hstep
      exact h.waitTest hcoherent hstep

theorem step (h : Watched s) {l : WaitMove ι} (hl : StoresUnwatched s l)
    (hstep : s.step l = some t) : Watched t := by
  cases l with
  | life l => exact h.life hl hstep
  | wait w => exact h.wait hl hstep
  | spurious w =>
      refine ⟨h.coherent.step hstep, fun hfin hsome => ?_⟩
      obtain rfl := Option.some.inj hstep
      obtain ⟨w', hw'⟩ := hsome
      simp only [Function.update_apply] at hw'
      split_ifs at hw'
      · exact absurd hw' (Wait.notify_ne_asleep _)
      · exact h.asleep hfin ⟨w', hw'⟩

/-- A step leaves a thread asleep beside a completed task exactly when the worker
finishes the task under the eyes of a blocked thread, or a thread blocks after it has
missed that. -/
theorem noneAsleep_iff (h : Watched s) {l : WaitMove ι} (hstep : s.step l = some t) :
    NoneAsleep t ↔ StoresUnwatched s l := by
  refine ⟨fun hnone => ?_, fun hl => (h.step hl hstep).noneAsleep⟩
  cases l with
  | spurious w => trivial
  | wait w =>
      intro hw hfin
      by_contra hpending
      have hdone := (h.coherent.since w hw hfin).resolve_left hpending
      simp only [Waiting.step, waitStep, hw, Option.some.injEq] at hstep
      subst hstep
      exact hnone hfin ⟨hpending, Or.inr hdone⟩ w (Function.update_self _ _ _)
  | life l =>
      cases l with
      | storeFinal =>
          rintro ⟨w, hw⟩
          by_contra hpending
          obtain ⟨-, b, hb, rfl⟩ := step_life hstep
          cases step_moves hb with
          | storeFinal =>
              refine hnone ?_ ⟨hpending, Or.inr rfl⟩ w hw
              simp only [taskIsCompleted, finalState]
              split_ifs <;> rfl
      | _ => trivial

end Watched

/-- A run leaves no thread in `task_wait` blocked on a completed task exactly when no
thread is blocked, or blocks later, on a task whose final state the worker has stored
while no broadcast was to come. -/
theorem none_asleep_iff (ls : List (WaitMove ι)) (s : Waiting ι) :
    Transition.Run (waiting.filter fun _ _ t => NoneAsleep t) Waiting.start ls s ↔
      Transition.Run (waiting.restrict StoresUnwatched) Waiting.start ls s := by
  apply Transition.run_filter_iff_restrict (I := Watched)
  · intro s l t h hl hstep
    exact h.step hl hstep
  · intro s l t h hstep
    exact h.noneAsleep_iff hstep
  · exact Watched.start

end Waiting

/-- A thread waits for the task, and the worker completes it: the thread sleeps on. -/
theorem asleep_after_completion : ¬ ∀ s : Waiting Unit,
    Transition.Reachable waiting s → NoneAsleep s := by
  intro hclaim
  refine hclaim _ (Transition.reachable_ofFun_iff.mpr
    ⟨[.wait (), .wait (), .life (.storeRunning 0 1), .life (.runHandler 0 none 2),
      .life (.recordResult true), .life .storeFinal], rfl⟩) rfl ⟨?_, Or.inr rfl⟩ () rfl
  rintro (⟨c, hc⟩ | ⟨hidle, -⟩)
  · cases hc
  · exact hidle rfl

end ModernPool

end ProcessThreadPool
