import ProcessThreadPool.Lib.Projection
import ProcessThreadPool.Lib.ThreadFamily
import ProcessThreadPool.ModernPool.Task

/-!
# The timestamps of a task

`submit_time_ns` is set by `task_create`, `start_time_ns` and `end_time_ns` by
`worker_process_task`, and `end_time_ns` also by `task_cancel`. Each is stored after a
reading of the clock, and other threads may run in between. `task_cancel` stamps a task
that has not been started, and the worker does not look at the state before it starts one,
so the end can come before the start. Whether it does is a matter of the order of the steps:
which reading of the clock was taken first, and which was stored first.
-/

namespace ProcessThreadPool

namespace ModernPool

/-- `task_get_queue_time_ns`. -/
def taskGetQueueTimeNs (submitTime : UInt64) (t : Task) : UInt64 :=
  if t.startTime = 0 then 0 else t.startTime - submitTime

/-- `task_get_execution_time_ns`. -/
def taskGetExecutionTimeNs (t : Task) : UInt64 :=
  if t.startTime = 0 ∨ t.endTime = 0 then 0 else t.endTime - t.startTime

/-- `task_get_total_time_ns`. -/
def taskGetTotalTimeNs (submitTime : UInt64) (t : Task) : UInt64 :=
  if t.endTime = 0 then 0 else t.endTime - submitTime

/-- Where a call of `task_cancel` stands. It holds the mutex from `storing` to
`notifying`, and in `stamping` it has read the clock. -/
inductive StampingCancel where
  | idle
  | storing
  | reading
  | stamping (now : UInt64)
  | notifying
  | returned (err : PoolError)
  deriving DecidableEq, Repr

/-- Where the execution of `worker_process_task` stands. In `stamping` and `closing` it has
read the clock. -/
inductive StampingWorker where
  | idle
  | reading
  | stamping (now : UInt64)
  | running
  | handled (result : ℤ) (output : Option (List UInt8))
  | closing (result : ℤ) (output : Option (List UInt8)) (now : UInt64)
  | ended (result : ℤ) (output : Option (List UInt8))
  | recorded (result : ℤ)
  | done
  deriving DecidableEq, Repr

/-- One task, the clock, and the parties that stamp the task. -/
structure Stamped (ι : Type*) where
  task : Task
  submitTime : UInt64
  clock : UInt64
  mutex : Option ι
  cancels : ι → StampingCancel
  worker : StampingWorker

/-- `task_create` has read the clock and returned. -/
def Stamped.create {ι : Type*} (now : UInt64) : Stamped ι where
  task := taskCreate
  submitTime := now
  clock := now
  mutex := none
  cancels := fun _ => .idle
  worker := .idle

/-- What happens next: the clock moves on, a caller of `task_cancel` takes its next step,
the worker takes the task, the handler returns, or the worker takes its next step. -/
inductive StampMove (ι : Type*) where
  | tick (now : UInt64)
  | cancel (c : ι)
  | start (workerId : UInt32)
  | handler (result : ℤ) (output : Option (List UInt8))
  | worker (alloc : Bool)
  deriving DecidableEq, Repr

section Steps

variable {ι : Type*} [DecidableEq ι]

def Stamped.setCancel (s : Stamped ι) (c : ι) (p : StampingCancel) : Stamped ι :=
  { s with cancels := Function.update s.cancels c p }

/-- The next step of a call of `task_cancel`: lock and look at the state, store the state,
read the clock, store the time, notify and unlock. -/
def stampingCancelStep (s : Stamped ι) (c : ι) : Option (Stamped ι) :=
  match s.cancels c with
  | .idle | .returned _ =>
      if s.mutex.isSome then none
      else if s.task.state = .pending ∨ s.task.state = .running then
        some (Stamped.setCancel { s with mutex := some c } c .storing)
      else some (s.setCancel c (.returned .invalidParam))
  | .storing =>
      some (Stamped.setCancel { s with task := { s.task with state := .cancelled } } c .reading)
  | .reading => some (s.setCancel c (.stamping s.clock))
  | .stamping now =>
      some (Stamped.setCancel { s with task := { s.task with endTime := now } } c .notifying)
  | .notifying => some (Stamped.setCancel { s with mutex := none } c (.returned .success))

/-- The next step of `worker_process_task` other than the return of the handler. -/
def stampingWorkerStep (s : Stamped ι) (alloc : Bool) : Option (Stamped ι) :=
  match s.worker with
  | .idle | .running | .done => none
  | .reading => some { s with worker := .stamping s.clock }
  | .stamping now => some { s with task := { s.task with startTime := now }, worker := .running }
  | .handled result output => some { s with worker := .closing result output s.clock }
  | .closing result output now =>
      some { s with task := { s.task with endTime := now }, worker := .ended result output }
  | .ended result output =>
      if s.mutex.isSome then none
      else if result = 0 then
        some { s with
          task := (taskSetResult s.task output alloc).2
          worker := .recorded result }
      else
        some { s with
          task := taskSetError s.task result "Task execution failed" alloc
          worker := .recorded result }
  | .recorded result =>
      some { s with task := { s.task with state := finalState result }, worker := .done }

/-- One step. The clock does not go back. -/
def Stamped.step (s : Stamped ι) : StampMove ι → Option (Stamped ι)
  | .tick now => if s.clock ≤ now then some { s with clock := now } else none
  | .cancel c => stampingCancelStep s c
  | .start workerId =>
      if s.worker = .idle then
        some { s with
          task := { s.task with state := .running, workerId := workerId }
          worker := .reading }
      else none
  | .handler result output =>
      if s.worker = .running then some { s with worker := .handled result output } else none
  | .worker alloc => stampingWorkerStep s alloc

end Steps

/-- All interleavings on a task that was created at the given time. -/
def stamped {ι : Type*} [DecidableEq ι] (now : UInt64) :
    Transition.System (Stamped ι) (StampMove ι) :=
  Transition.System.ofFun (Stamped.create now) Stamped.step

/-- No subtraction of the three functions wraps, and the timestamps that are set are in
order. -/
structure Durations (submitTime : UInt64) (t : Task) : Prop where
  queue : t.startTime ≠ 0 →
    submitTime.toNat + (taskGetQueueTimeNs submitTime t).toNat = t.startTime.toNat
  execution : t.startTime ≠ 0 → t.endTime ≠ 0 →
    t.startTime.toNat + (taskGetExecutionTimeNs t).toNat = t.endTime.toNat
  total : t.endTime ≠ 0 →
    submitTime.toNat + (taskGetTotalTimeNs submitTime t).toNat = t.endTime.toNat
  ordered : t.startTime ≠ 0 → t.endTime ≠ 0 →
    submitTime ≤ t.startTime ∧ t.startTime ≤ t.endTime

/-! ## The order of the steps -/

/-- What the steps since a call of `task_cancel` has read the clock were: the clock has stood
still, it has moved on, or the worker has read it for the start after it had moved on. -/
inductive Reading where
  | current
  | past
  | overtaken
  deriving DecidableEq, Repr

/-- The clock moves on. -/
def Reading.age : Reading → Reading
  | .current => .past
  | r => r

/-- The worker reads the clock for the start. -/
def Reading.overtake : Reading → Reading
  | .past => .overtaken
  | r => r

/-- The order of the steps so far, for the last reading of each caller of `task_cancel` and for
the one that was stored last, if any. -/
structure StampOrder (ι : Type*) where
  cancels : ι → Reading
  stored : Option Reading

def StampOrder.start {ι : Type*} : StampOrder ι := ⟨fun _ => .current, none⟩

def StampOrder.map {ι : Type*} (f : Reading → Reading) (o : StampOrder ι) : StampOrder ι :=
  ⟨fun c => f (o.cancels c), o.stored.map f⟩

/-- How a step goes on from the order of the steps before it. -/
def StampOrder.note {ι : Type*} [DecidableEq ι] (s : Stamped ι) (o : StampOrder ι) :
    StampMove ι → StampOrder ι
  | .tick now => if now = s.clock then o else o.map Reading.age
  | .cancel c =>
      match s.cancels c with
      | .reading => { o with cancels := Function.update o.cancels c .current }
      | .stamping _ => { o with stored := some (o.cancels c) }
      | _ => o
  | .worker _ =>
      match s.worker with
      | .reading => o.map Reading.overtake
      | _ => o
  | _ => o

/-- The worker has stored the start. -/
def StampingWorker.started : StampingWorker → Bool
  | .idle | .reading | .stamping _ => false
  | _ => true

/-- A reading of the clock that the worker's reading for the start has overtaken is not in
`end_time_ns` when the worker stores the start, and no `task_cancel` stores it after that. -/
def StampsInOrder {ι : Type*} (s : Stamped ι × StampOrder ι) : StampMove ι → Prop
  | .worker _ =>
      match s.1.worker with
      | .stamping _ => s.2.stored ≠ some .overtaken
      | _ => True
  | .cancel c =>
      match s.1.cancels c with
      | .stamping _ => s.1.worker.started = true → s.2.cancels c ≠ .overtaken
      | _ => True
  | _ => True

/-- The steps with a record of their order. -/
def stampedInOrder {ι : Type*} [DecidableEq ι] (now : UInt64) :
    Transition.System (Stamped ι × StampOrder ι) (StampMove ι) :=
  ((stamped now).record .start StampOrder.note).restrict StampsInOrder

/-! ## Durations and timestamps -/

theorem toNat_add_sub_eq_iff (a b : UInt64) : a.toNat + (b - a).toNat = b.toNat ↔ a ≤ b := by
  rw [UInt64.le_iff_toNat_le]
  have ha := UInt64.toNat_lt a
  have hb := UInt64.toNat_lt b
  rw [UInt64.toNat_sub]
  omega

theorem durations_iff {submitTime : UInt64} {t : Task} : Durations submitTime t ↔
    (t.startTime ≠ 0 → submitTime ≤ t.startTime) ∧
      (t.startTime ≠ 0 → t.endTime ≠ 0 → t.startTime ≤ t.endTime) ∧
      (t.endTime ≠ 0 → submitTime ≤ t.endTime) := by
  constructor
  · intro h
    refine ⟨fun hstart => ?_, fun hstart hend => (h.ordered hstart hend).2, fun hend => ?_⟩
    · have hqueue := h.queue hstart
      rwa [taskGetQueueTimeNs, if_neg hstart, toNat_add_sub_eq_iff] at hqueue
    · have htotal := h.total hend
      rwa [taskGetTotalTimeNs, if_neg hend, toNat_add_sub_eq_iff] at htotal
  · rintro ⟨hqueue, hexecution, htotal⟩
    refine ⟨fun hstart => ?_, fun hstart hend => ?_, fun hend => ?_, fun hstart hend =>
      ⟨hqueue hstart, hexecution hstart hend⟩⟩
    · rw [taskGetQueueTimeNs, if_neg hstart, toNat_add_sub_eq_iff]
      exact hqueue hstart
    · rw [taskGetExecutionTimeNs, if_neg (not_or.mpr ⟨hstart, hend⟩), toNat_add_sub_eq_iff]
      exact hexecution hstart hend
    · rw [taskGetTotalTimeNs, if_neg hend, toNat_add_sub_eq_iff]
      exact htotal hend

@[simp] theorem taskSetResult_startTime (t : Task) (output : Option (List UInt8))
    (alloc : Bool) : (taskSetResult t output alloc).2.startTime = t.startTime := by
  simp only [taskSetResult]
  split
  · rfl
  · rfl
  · split_ifs <;> rfl

@[simp] theorem taskSetResult_endTime (t : Task) (output : Option (List UInt8))
    (alloc : Bool) : (taskSetResult t output alloc).2.endTime = t.endTime := by
  simp only [taskSetResult]
  split
  · rfl
  · rfl
  · split_ifs <;> rfl

/-! ## The steps -/

/-- The reading of the clock for the start, when the worker has taken it. -/
def Stamped.startReading {ι : Type*} (s : Stamped ι) : Option UInt64 :=
  match s.worker with
  | .idle | .reading => none
  | .stamping now => some now
  | _ => some s.task.startTime

/-- The worker has stored the end. -/
def StampingWorker.closed : StampingWorker → Bool
  | .ended _ _ | .recorded _ | .done => true
  | _ => false

section Moves

variable {ι : Type*} {s t : Stamped ι}

/-- What a step leaves alone that neither moves nor reads the clock and stores no timestamp. -/
structure Stamped.Quiet (s t : Stamped ι) : Prop where
  submit : t.submitTime = s.submitTime
  start : t.task.startTime = s.task.startTime
  stop : t.task.endTime = s.task.endTime
  clock : t.clock = s.clock
  cancels : ∀ c now, t.cancels c = .stamping now → s.cancels c = .stamping now
  startReading : t.startReading = s.startReading
  started : t.worker.started = s.worker.started
  closed : t.worker.closed = s.worker.closed
  closing : ∀ result output now, t.worker = .closing result output now →
    s.worker = .closing result output now

variable [DecidableEq ι]

/-- The steps by what they do to the clock and the timestamps. -/
inductive Stamped.Moves (s : Stamped ι) : StampMove ι → Stamped ι → Prop
  | quiet {l : StampMove ι} {t : Stamped ι} (hquiet : s.Quiet t)
      (hnote : ∀ o, StampOrder.note s o l = o) (horder : ∀ o, StampsInOrder (s, o) l) :
      Moves s l t
  | tick {now : UInt64} (hle : s.clock ≤ now) : Moves s (.tick now) { s with clock := now }
  | cancelRead {c : ι} (hc : s.cancels c = .reading) :
      Moves s (.cancel c) (s.setCancel c (.stamping s.clock))
  | cancelEnd {c : ι} {now : UInt64} (hc : s.cancels c = .stamping now) :
      Moves s (.cancel c)
        (Stamped.setCancel { s with task := { s.task with endTime := now } } c .notifying)
  | workerRead {alloc : Bool} (hw : s.worker = .reading) :
      Moves s (.worker alloc) { s with worker := .stamping s.clock }
  | workerStart {alloc : Bool} {now : UInt64} (hw : s.worker = .stamping now) :
      Moves s (.worker alloc)
        { s with task := { s.task with startTime := now }, worker := .running }
  | workerClose {alloc : Bool} {result : ℤ} {output : Option (List UInt8)}
      (hw : s.worker = .handled result output) :
      Moves s (.worker alloc) { s with worker := .closing result output s.clock }
  | workerEnd {alloc : Bool} {result : ℤ} {output : Option (List UInt8)} {now : UInt64}
      (hw : s.worker = .closing result output now) : Moves s (.worker alloc)
        { s with task := { s.task with endTime := now }, worker := .ended result output }

theorem Stamped.setCancel_stamping {c d : ι} {p : StampingCancel} {now : UInt64}
    (h : (s.setCancel c p).cancels d = .stamping now) :
    d ≠ c ∧ s.cancels d = .stamping now ∨ d = c ∧ p = .stamping now := by
  have hupdate : Function.update s.cancels c p d = .stamping now := h
  by_cases hd : d = c
  · subst hd
    rw [Function.update_self] at hupdate
    exact Or.inr ⟨rfl, hupdate⟩
  · rw [Function.update_of_ne hd] at hupdate
    exact Or.inl ⟨hd, hupdate⟩

theorem stampingCancelStep_moves {c : ι} (hstep : stampingCancelStep s c = some t) :
    s.Moves (.cancel c) t := by
  have hquiet : ∀ {u : Stamped ι} {p : StampingCancel}, u.submitTime = s.submitTime →
      u.task.startTime = s.task.startTime → u.task.endTime = s.task.endTime →
      u.clock = s.clock → u.cancels = s.cancels → u.worker = s.worker →
      (∀ now, p ≠ .stamping now) → s.Quiet (u.setCancel c p) := by
    intro u p hsubmit hstart hstop hclock hcancels hworker hp
    refine ⟨hsubmit, hstart, hstop, hclock, fun d now hd => ?_, ?_, ?_, ?_, ?_⟩
    · rcases Stamped.setCancel_stamping hd with ⟨-, hold⟩ | ⟨-, hnew⟩
      · exact hcancels ▸ hold
      · exact absurd hnew (hp now)
    · simp only [Stamped.startReading, Stamped.setCancel, hworker, hstart]
    · exact congrArg StampingWorker.started hworker
    · exact congrArg StampingWorker.closed hworker
    · exact fun result output now h => hworker ▸ h
  cases hc : s.cancels c with
  | stamping now =>
      simp only [stampingCancelStep, hc, Option.some.injEq] at hstep
      subst hstep
      exact .cancelEnd hc
  | reading =>
      simp only [stampingCancelStep, hc, Option.some.injEq] at hstep
      subst hstep
      exact .cancelRead hc
  | _ =>
      simp only [stampingCancelStep, hc] at hstep
      refine .quiet ?_ (by simp [StampOrder.note, hc]) (by simp [StampsInOrder, hc])
      try split_ifs at hstep
      all_goals
        obtain rfl := Option.some.inj hstep
        exact hquiet rfl rfl rfl rfl rfl rfl (by simp)

theorem stampingWorkerStep_moves {alloc : Bool} (hstep : stampingWorkerStep s alloc = some t) :
    s.Moves (.worker alloc) t := by
  cases hw : s.worker with
  | reading =>
      simp only [stampingWorkerStep, hw, Option.some.injEq] at hstep
      subst hstep
      exact .workerRead hw
  | stamping now =>
      simp only [stampingWorkerStep, hw, Option.some.injEq] at hstep
      subst hstep
      exact .workerStart hw
  | handled result output =>
      simp only [stampingWorkerStep, hw, Option.some.injEq] at hstep
      subst hstep
      exact .workerClose hw
  | closing result output now =>
      simp only [stampingWorkerStep, hw, Option.some.injEq] at hstep
      subst hstep
      exact .workerEnd hw
  | idle | running | done => simp only [stampingWorkerStep, hw, reduceCtorEq] at hstep
  | ended result output =>
      simp only [stampingWorkerStep, hw] at hstep
      refine .quiet ?_ (by simp [StampOrder.note, hw]) (by simp [StampsInOrder, hw])
      split_ifs at hstep <;> obtain rfl := Option.some.inj hstep <;>
        refine ⟨rfl, ?_, ?_, rfl, fun _ _ => id, ?_, ?_, ?_, ?_⟩ <;>
          simp [taskSetError, Stamped.startReading, StampingWorker.started,
            StampingWorker.closed, hw]
  | recorded result =>
      simp only [stampingWorkerStep, hw, Option.some.injEq] at hstep
      refine .quiet ?_ (by simp [StampOrder.note, hw]) (by simp [StampsInOrder, hw])
      subst hstep
      refine ⟨rfl, rfl, rfl, rfl, fun _ _ => id, ?_, ?_, ?_, ?_⟩ <;>
        simp [Stamped.startReading, StampingWorker.started, StampingWorker.closed, hw]

theorem stamped_moves {l : StampMove ι} (hstep : s.step l = some t) : s.Moves l t := by
  cases l with
  | cancel c => exact stampingCancelStep_moves hstep
  | worker alloc => exact stampingWorkerStep_moves hstep
  | tick now =>
      simp only [Stamped.step] at hstep
      split_ifs at hstep with hle
      obtain rfl := Option.some.inj hstep
      exact .tick hle
  | start workerId =>
      simp only [Stamped.step] at hstep
      split_ifs at hstep with hw
      obtain rfl := Option.some.inj hstep
      refine .quiet ⟨rfl, rfl, rfl, rfl, fun _ _ => id, ?_, ?_, ?_, ?_⟩ (fun _ => rfl)
        fun _ => trivial <;>
        simp [Stamped.startReading, StampingWorker.started, StampingWorker.closed, hw]
  | handler result output =>
      simp only [Stamped.step] at hstep
      split_ifs at hstep with hw
      obtain rfl := Option.some.inj hstep
      refine .quiet ⟨rfl, rfl, rfl, rfl, fun _ _ => id, ?_, ?_, ?_, ?_⟩ (fun _ => rfl)
        fun _ => trivial <;>
        simp [Stamped.startReading, StampingWorker.started, StampingWorker.closed, hw]

end Moves

/-! ## What the order of the steps says about a reading -/

/-- A reading `now` of the clock before or after the one for the start, if that has been taken. -/
def Reading.Dates (clock : UInt64) (start : Option UInt64) (now : UInt64) : Reading → Prop
  | .current => now = clock
  | .past => now ≤ clock ∧ now ≠ clock ∧ ∀ w, start = some w → w ≤ now
  | .overtaken => ∃ w, start = some w ∧ ¬ w ≤ now

namespace Reading.Dates

variable {clock now w : UInt64} {start : Option UInt64} {r : Reading}

theorem tick {clock' : UInt64} (h : Reading.Dates clock start now r) (hle : clock ≤ clock')
    (hne : clock' ≠ clock) (hstart : ∀ w, start = some w → w ≤ clock) :
    Reading.Dates clock' start now r.age := by
  cases r with
  | current =>
      obtain rfl : now = clock := h
      exact ⟨hle, hne.symm, hstart⟩
  | past =>
      obtain ⟨hnow, hne', hstart'⟩ := h
      refine ⟨UInt64.le_trans hnow hle, ?_, hstart'⟩
      rintro rfl
      exact hne (UInt64.le_antisymm hnow hle)
  | overtaken => exact h

/-- The worker reads the clock for the start. -/
theorem read (h : Reading.Dates clock none now r) :
    Reading.Dates clock (some clock) now r.overtake := by
  cases r with
  | current => exact h
  | past =>
      obtain ⟨hnow, hne, -⟩ := h
      exact ⟨clock, rfl, fun hle => hne (UInt64.le_antisymm hnow hle)⟩
  | overtaken =>
      obtain ⟨w, hw, -⟩ := h
      cases hw

theorem le_iff (h : Reading.Dates clock (some w) now r) (hw : w ≤ clock) :
    w ≤ now ↔ r ≠ .overtaken := by
  cases r with
  | current =>
      obtain rfl : now = clock := h
      exact iff_of_true hw (by simp)
  | past => exact iff_of_true (h.2.2 w rfl) (by simp)
  | overtaken =>
      obtain ⟨w', hw', hlt⟩ := h
      obtain rfl := Option.some.inj hw'
      exact iff_of_false hlt (by simp)

end Reading.Dates

section Orders

variable {ι : Type*} {s t : Stamped ι} {o : StampOrder ι}

/-- The readings of the clock come after the submission and in the order of the steps. -/
structure StampInv (s : Stamped ι × StampOrder ι) : Prop where
  positive : s.1.submitTime ≠ 0
  submit_le : s.1.submitTime ≤ s.1.clock
  start : ∀ w, s.1.startReading = some w → s.1.submitTime ≤ w ∧ w ≤ s.1.clock
  unstarted : s.1.worker.started = false → s.1.task.startTime = 0
  closing : ∀ result output now, s.1.worker = .closing result output now →
    s.1.task.startTime ≤ now
  cancels : ∀ c now, s.1.cancels c = .stamping now → s.1.submitTime ≤ now ∧
    (s.2.cancels c).Dates s.1.clock s.1.startReading now
  unstored : s.1.worker.closed = false → s.2.stored = none → s.1.task.endTime = 0
  stored : s.1.worker.closed = false → ∀ r, s.2.stored = some r → s.1.task.endTime ≠ 0 ∧
    r.Dates s.1.clock s.1.startReading s.1.task.endTime
  durations : Durations s.1.submitTime s.1.task

theorem stampInv_create {now : UInt64} (hnow : 0 < now) :
    StampInv ((Stamped.create now : Stamped ι), StampOrder.start) where
  positive := UInt64.pos_iff_ne_zero.mp hnow
  submit_le := UInt64.le_refl _
  start := fun w hw => by cases hw
  unstarted := fun _ => rfl
  closing := fun result output now hw => by cases hw
  cancels := fun c now hc => by cases hc
  unstored := fun _ _ => rfl
  stored := fun _ r hr => by cases hr
  durations := durations_iff.mpr ⟨fun h => absurd rfl h, fun h => absurd rfl h,
    fun h => absurd rfl h⟩

namespace StampInv

theorem ne_zero (h : StampInv (s, o)) {now : UInt64} (hle : s.submitTime ≤ now) : now ≠ 0 := by
  rintro rfl
  exact h.positive (UInt64.le_zero_iff.mp hle)

theorem startReading_of_started (hstarted : s.worker.started = true) :
    s.startReading = some s.task.startTime := by
  cases hw : s.worker with
  | idle | reading | stamping =>
      rw [hw] at hstarted
      cases hstarted
  | _ => rw [Stamped.startReading, hw]

/-- A reading of a call of `task_cancel` may be stored when it was not overtaken. -/
theorem cancel_iff (h : StampInv (s, o)) {c : ι} {now : UInt64}
    (hc : s.cancels c = .stamping now) :
    (s.task.startTime ≠ 0 → s.task.startTime ≤ now) ↔
      (s.worker.started = true → o.cancels c ≠ .overtaken) := by
  obtain ⟨-, hdates⟩ := h.cancels c now hc
  cases hstarted : s.worker.started with
  | false =>
      refine iff_of_true (fun hstart => absurd (h.unstarted hstarted) hstart) ?_
      simp
  | true =>
      have hreading := startReading_of_started hstarted
      obtain ⟨hsubmit, hclock⟩ := h.start _ hreading
      rw [hreading] at hdates
      have hiff := hdates.le_iff hclock
      exact ⟨fun hle _ => hiff.mp (hle (h.ne_zero hsubmit)), fun hnot _ => hiff.mpr (hnot rfl)⟩

/-- The worker's reading may be stored when it has not overtaken the one that is stored. -/
theorem start_iff (h : StampInv (s, o)) {now : UInt64} (hw : s.worker = .stamping now) :
    (s.task.endTime ≠ 0 → now ≤ s.task.endTime) ↔ o.stored ≠ some .overtaken := by
  have hreading : s.startReading = some now := by rw [Stamped.startReading, hw]
  have hclosed : s.worker.closed = false := by rw [hw]; rfl
  obtain ⟨-, hclock⟩ := h.start now hreading
  cases hstored : o.stored with
  | none => exact iff_of_true (fun hend => absurd (h.unstored hclosed hstored) hend) (by simp)
  | some r =>
      obtain ⟨hend, hdates⟩ := h.stored hclosed r hstored
      have hdates' : r.Dates s.clock s.startReading s.task.endTime := hdates
      rw [hreading] at hdates'
      have hsome : some r ≠ some .overtaken ↔ r ≠ .overtaken := by simp
      rw [hsome]
      exact ⟨fun hle => (hdates'.le_iff hclock).mp (hle hend),
        fun hnot _ => (hdates'.le_iff hclock).mpr hnot⟩

theorem quiet (h : StampInv (s, o)) (hquiet : s.Quiet t) : StampInv (t, o) where
  positive := by
    rw [hquiet.submit]
    exact h.positive
  submit_le := by
    rw [hquiet.submit, hquiet.clock]
    exact h.submit_le
  start := by
    rw [hquiet.submit, hquiet.clock, hquiet.startReading]
    exact h.start
  unstarted := by
    rw [hquiet.started, hquiet.start]
    exact h.unstarted
  closing := by
    intro result output now hw
    rw [hquiet.start]
    exact h.closing result output now (hquiet.closing result output now hw)
  cancels := by
    intro c now hc
    rw [hquiet.submit, hquiet.clock, hquiet.startReading]
    exact h.cancels c now (hquiet.cancels c now hc)
  unstored := by
    rw [hquiet.closed, hquiet.stop]
    exact h.unstored
  stored := by
    rw [hquiet.closed, hquiet.stop, hquiet.clock, hquiet.startReading]
    exact h.stored
  durations := by
    have hdurations := durations_iff.mp h.durations
    rw [← hquiet.submit, ← hquiet.start, ← hquiet.stop] at hdurations
    exact durations_iff.mpr hdurations

theorem tick (h : StampInv (s, o)) {now : UInt64} (hle : s.clock ≤ now) (hne : now ≠ s.clock) :
    StampInv ({ s with clock := now }, o.map Reading.age) where
  positive := h.positive
  submit_le := UInt64.le_trans h.submit_le hle
  start := fun w hw => ⟨(h.start w hw).1, UInt64.le_trans (h.start w hw).2 hle⟩
  unstarted := h.unstarted
  closing := h.closing
  cancels := fun c now' hc => ⟨(h.cancels c now' hc).1,
    (h.cancels c now' hc).2.tick hle hne fun w hw => (h.start w hw).2⟩
  unstored := fun hclosed hnone => h.unstored hclosed (Option.map_eq_none_iff.mp hnone)
  stored := by
    intro hclosed r hr
    obtain ⟨r', hr', rfl⟩ := Option.map_eq_some_iff.mp hr
    obtain ⟨hend, hdates⟩ := h.stored hclosed r' hr'
    exact ⟨hend, hdates.tick hle hne fun w hw => (h.start w hw).2⟩
  durations := h.durations

/-- The worker reads the clock for the start. -/
theorem workerRead (h : StampInv (s, o)) (hw : s.worker = .reading) :
    StampInv ({ s with worker := .stamping s.clock }, o.map Reading.overtake) := by
  have hnone : s.startReading = none := by rw [Stamped.startReading, hw]
  have hclosed : s.worker.closed = false := by rw [hw]; rfl
  have hdates : ∀ {r : Reading} {now : UInt64}, r.Dates s.clock s.startReading now →
      r.overtake.Dates s.clock (some s.clock) now := by
    intro r now h'
    rw [hnone] at h'
    exact h'.read
  refine ⟨h.positive, h.submit_le, fun w hw' => ?_, fun _ => h.unstarted (by rw [hw]; rfl),
    fun _ _ _ hw' => (by cases hw'), fun c now hc => ?_, fun _ hstored => ?_, fun _ r hr => ?_,
    h.durations⟩
  · obtain rfl := Option.some.inj hw'
    exact ⟨h.submit_le, UInt64.le_refl _⟩
  · exact ⟨(h.cancels c now hc).1, hdates (h.cancels c now hc).2⟩
  · exact h.unstored hclosed (Option.map_eq_none_iff.mp hstored)
  · obtain ⟨r', hr', rfl⟩ := Option.map_eq_some_iff.mp hr
    obtain ⟨hend, hdates'⟩ := h.stored hclosed r' hr'
    exact ⟨hend, hdates hdates'⟩

/-- The worker stores the start. -/
theorem workerStart (h : StampInv (s, o)) {now : UInt64} (hw : s.worker = .stamping now)
    (hdurations : Durations s.submitTime { s.task with startTime := now }) :
    StampInv ({ s with task := { s.task with startTime := now }, worker := .running }, o) := by
  have hreading : s.startReading = some now := by rw [Stamped.startReading, hw]
  have hclosed : s.worker.closed = false := by rw [hw]; rfl
  refine ⟨h.positive, h.submit_le, fun w hw' => ?_, fun hstarted => (by cases hstarted),
    fun _ _ _ hw' => (by cases hw'), fun c now' hc => ?_, fun _ => h.unstored hclosed,
    fun _ r hr => ?_, hdurations⟩
  · obtain rfl := Option.some.inj hw'
    exact h.start now hreading
  · have hdates := h.cancels c now' hc
    rwa [hreading] at hdates
  · have hdates := h.stored hclosed r hr
    rwa [hreading] at hdates

/-- The worker reads the clock for the end. -/
theorem workerClose (h : StampInv (s, o)) {result : ℤ} {output : Option (List UInt8)}
    (hw : s.worker = .handled result output) :
    StampInv ({ s with worker := .closing result output s.clock }, o) := by
  have hreading : s.startReading = some s.task.startTime := by rw [Stamped.startReading, hw]
  have hclosed : s.worker.closed = false := by rw [hw]; rfl
  refine ⟨h.positive, h.submit_le, fun w hw' => ?_, fun hstarted => (by cases hstarted),
    fun result' output' now hw' => ?_, fun c now hc => ?_, fun _ => h.unstored hclosed,
    fun _ r hr => ?_, h.durations⟩
  · obtain rfl := Option.some.inj hw'
    exact h.start _ hreading
  · cases hw'
    exact (h.start _ hreading).2
  · have hdates := h.cancels c now hc
    rwa [hreading] at hdates
  · have hdates := h.stored hclosed r hr
    rwa [hreading] at hdates

/-- The worker stores the end. -/
theorem workerEnd (h : StampInv (s, o)) {result : ℤ} {output : Option (List UInt8)}
    {now : UInt64} (hw : s.worker = .closing result output now)
    (hdurations : Durations s.submitTime { s.task with endTime := now }) :
    StampInv ({ s with
      task := { s.task with endTime := now }, worker := .ended result output }, o) := by
  have hreading : s.startReading = some s.task.startTime := by rw [Stamped.startReading, hw]
  refine ⟨h.positive, h.submit_le, fun w hw' => ?_, fun hstarted => (by cases hstarted),
    fun _ _ _ hw' => (by cases hw'), fun c now' hc => ?_, fun hclosed => (by cases hclosed),
    fun hclosed => (by cases hclosed), hdurations⟩
  · obtain rfl := Option.some.inj hw'
    exact h.start _ hreading
  · have hdates := h.cancels c now' hc
    rwa [hreading] at hdates

variable [DecidableEq ι]

/-- A call of `task_cancel` reads the clock. -/
theorem cancelRead (h : StampInv (s, o)) (c : ι) : StampInv (s.setCancel c (.stamping s.clock),
    { o with cancels := Function.update o.cancels c .current }) where
  positive := h.positive
  submit_le := h.submit_le
  start := h.start
  unstarted := h.unstarted
  closing := h.closing
  cancels := by
    intro d now hd
    rcases Stamped.setCancel_stamping hd with ⟨hne, hold⟩ | ⟨rfl, hnew⟩
    · simp only [Function.update_of_ne hne]
      exact h.cancels d now hold
    · cases hnew
      simp only [Function.update_self]
      exact ⟨h.submit_le, rfl⟩
  unstored := h.unstored
  stored := h.stored
  durations := h.durations

/-- A call of `task_cancel` stores the end. -/
theorem cancelEnd (h : StampInv (s, o)) {c : ι} {now : UInt64} (hc : s.cancels c = .stamping now)
    (hdurations : Durations s.submitTime { s.task with endTime := now }) :
    StampInv (Stamped.setCancel { s with task := { s.task with endTime := now } } c .notifying,
      { o with stored := some (o.cancels c) }) := by
  obtain ⟨hsubmit, hdates⟩ := h.cancels c now hc
  refine ⟨h.positive, h.submit_le, h.start, h.unstarted, h.closing, fun d now' hd => ?_,
    fun _ hnone => (by cases hnone), fun _ r hr => ?_, hdurations⟩
  · rcases Stamped.setCancel_stamping hd with ⟨-, hold⟩ | ⟨-, hnew⟩
    · exact h.cancels d now' hold
    · cases hnew
  · obtain rfl := Option.some.inj hr
    exact ⟨h.ne_zero hsubmit, hdates⟩

/-- A step keeps the timestamps in order exactly when it stores no reading out of order. -/
theorem durations_step_iff (h : StampInv (s, o)) {l : StampMove ι} (hstep : s.step l = some t) :
    Durations t.submitTime t.task ↔ StampsInOrder (s, o) l := by
  obtain ⟨hqueue, hexecution, htotal⟩ := durations_iff.mp h.durations
  cases stamped_moves hstep with
  | quiet hquiet _ horder => exact iff_of_true (h.quiet hquiet).durations (horder o)
  | tick => exact iff_of_true h.durations trivial
  | cancelRead hc => exact iff_of_true h.durations (by simp [StampsInOrder, hc])
  | workerRead hw => exact iff_of_true h.durations (by simp [StampsInOrder, hw])
  | workerClose hw => exact iff_of_true h.durations (by simp [StampsInOrder, hw])
  | @cancelEnd c now hc =>
      obtain ⟨hsubmit, -⟩ := h.cancels c now hc
      have hstored : StampsInOrder (s, o) (.cancel c) ↔
          (s.worker.started = true → o.cancels c ≠ .overtaken) := by
        simp only [StampsInOrder, hc]
      rw [hstored, ← h.cancel_iff hc, durations_iff]
      exact ⟨fun hd hstart => hd.2.1 hstart (h.ne_zero hsubmit),
        fun hle => ⟨hqueue, fun hstart _ => hle hstart, fun _ => hsubmit⟩⟩
  | @workerStart alloc now hw =>
      obtain ⟨hsubmit, -⟩ := h.start now (by rw [Stamped.startReading, hw])
      have hstored : StampsInOrder (s, o) (.worker alloc) ↔ o.stored ≠ some .overtaken := by
        simp only [StampsInOrder, hw]
      rw [hstored, ← h.start_iff hw, durations_iff]
      exact ⟨fun hd hend => hd.2.1 (h.ne_zero hsubmit) hend,
        fun hle => ⟨fun _ => hsubmit, fun _ hend => hle hend, htotal⟩⟩
  | @workerEnd _ result output now hw =>
      obtain ⟨hsubmit, -⟩ := h.start s.task.startTime (by rw [Stamped.startReading, hw])
      have hle := h.closing result output now hw
      refine iff_of_true ?_ (by simp [StampsInOrder, hw])
      exact durations_iff.mpr ⟨hqueue, fun _ _ => hle, fun _ => UInt64.le_trans hsubmit hle⟩

theorem step (h : StampInv (s, o)) {l : StampMove ι} (horder : StampsInOrder (s, o) l)
    (hstep : s.step l = some t) : StampInv (t, StampOrder.note s o l) := by
  have hdurations := (h.durations_step_iff hstep).mpr horder
  cases stamped_moves hstep with
  | quiet hquiet hnote _ =>
      rw [hnote]
      exact h.quiet hquiet
  | @tick now hle =>
      by_cases hnow : now = s.clock
      · subst hnow
        rw [StampOrder.note, if_pos rfl]
        exact h
      · rw [StampOrder.note, if_neg hnow]
        exact h.tick hle hnow
  | @cancelRead c hc =>
      simp only [StampOrder.note, hc]
      exact h.cancelRead c
  | cancelEnd hc =>
      simp only [StampOrder.note, hc]
      exact h.cancelEnd hc hdurations
  | workerRead hw =>
      simp only [StampOrder.note, hw]
      exact h.workerRead hw
  | workerStart hw =>
      simp only [StampOrder.note, hw]
      exact h.workerStart hw hdurations
  | workerClose hw =>
      simp only [StampOrder.note, hw]
      exact h.workerClose hw
  | workerEnd hw =>
      simp only [StampOrder.note, hw]
      exact h.workerEnd hw hdurations

end StampInv

variable [DecidableEq ι]

/-- In a run no subtraction wraps exactly when the worker's reading of the clock for the start
overtakes none that is stored then or later. -/
theorem durations_run_iff {now : UInt64} (hnow : 0 < now) (ls : List (StampMove ι))
    (s : Stamped ι) :
    Transition.Run ((stamped now).filter fun _ _ t => Durations t.submitTime t.task)
        (Stamped.create now) ls s ↔
      ∃ o, Transition.Run (stampedInOrder now) (Stamped.create now, StampOrder.start) ls
        (s, o) := by
  apply Transition.run_filter_iff_record (I := StampInv)
  · rintro ⟨s, o⟩ l ⟨t, o'⟩ h horder ⟨hstep, rfl⟩
    exact h.step horder hstep
  · rintro ⟨s, o⟩ l ⟨t, o'⟩ h ⟨hstep, rfl⟩
    exact h.durations_step_iff hstep
  · exact stampInv_create hnow

end Orders

/-- A task starts at 5, is cancelled at 9 and ends at 9. -/
theorem durations_run_cancelled : ∃ s : Stamped (Fin 1),
    Transition.Run ((stamped 1).filter fun _ _ t => Durations t.submitTime t.task)
      (Stamped.create 1)
      [.tick 5, .start 0, .worker true, .worker true, .tick 9, .cancel 0, .cancel 0, .cancel 0,
        .cancel 0, .cancel 0, .handler 0 none, .worker true, .worker true] s ∧
      taskGetQueueTimeNs s.submitTime s.task = 4 ∧ taskGetExecutionTimeNs s.task = 4 ∧
      taskGetTotalTimeNs s.submitTime s.task = 8 := by
  have hnone : (none : Option Reading) ≠ some .overtaken := by decide
  have hcurrent : Reading.current ≠ .overtaken := by decide
  refine ⟨_, (durations_run_iff (by decide) _ _).mpr ⟨_,
    .record_cons trivial rfl (.record_cons trivial rfl (.record_cons trivial rfl
    (.record_cons hnone rfl (.record_cons trivial rfl (.record_cons trivial rfl
    (.record_cons trivial rfl (.record_cons trivial rfl (.record_cons (fun _ => hcurrent) rfl
    (.record_cons trivial rfl (.record_cons trivial rfl (.record_cons trivial rfl
    (.record_cons trivial rfl (.nil _)))))))))))))⟩, rfl, rfl, rfl⟩

/-- A task is cancelled at 5, before a worker takes it, and the worker starts it at 9. -/
theorem start_after_end : ¬ ∀ (now : UInt64) (s : Stamped (Fin 1)), 0 < now →
    Transition.Reachable (stamped now) s → Durations s.submitTime s.task := by
  intro hclaim
  have hrun : Transition.Reachable (stamped (ι := Fin 1) 1) _ :=
    Transition.reachable_ofFun_iff.mpr ⟨[.tick 5, .cancel 0, .cancel 0, .cancel 0, .cancel 0,
      .cancel 0, .tick 9, .start 0, .worker true, .worker true], rfl⟩
  exact absurd ((hclaim 1 _ (by decide) hrun).ordered (by decide) (by decide)).2 (by decide)

end ModernPool

end ProcessThreadPool
