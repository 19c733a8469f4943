import ProcessThreadPool.CThreadPool.Ring
import ProcessThreadPool.CThreadPool.Teardown
import ProcessThreadPool.Lib.Progress
import ProcessThreadPool.Lib.Projection
import ProcessThreadPool.Lib.WaitSet

/-!
# Who wakes the workers of the C thread pool

In `Machine.lean` a worker in `pthread_cond_wait` may go on at any time. Here it goes on only
after `threadpool_add` has signalled `notify`, after `threadpool_destroy` has broadcast it, or
spuriously. Forgetting who sleeps gives back the machine above, so that its invariants hold
here. What is new is that the work gets done: a queued task is not kept waiting by a sleeping
worker, and every accepted task is taken unless the pool is shut down before.
-/

namespace ProcessThreadPool

namespace CThreadPool

open ThreadFamily

/-- The pool with its threads, and which of the workers are blocked in `pthread_cond_wait`. -/
structure Signalled (n : ℕ) (ι τ : Type*) where
  base : State n ι τ
  asleep : Fin n → Bool

/-- An action, with the worker that `pthread_cond_signal` wakes when it is called, or a
spurious wakeup. -/
inductive Event (n : ℕ) (ι τ : Type*) where
  | act (action : Action n ι τ) (wake : Option (Fin n))
  | spurious (i : Fin n)
  deriving DecidableEq, Repr

/-- The worker is blocked in `pthread_cond_wait`. -/
def Worker.isWaiting {τ : Type*} : Worker τ → Bool
  | .waiting => true
  | _ => false

/-- A worker as the condition `notify` sees it: where it stands, and whether it sleeps. -/
def notifyWaiter (τ : Type*) : Waiter (Worker τ × Bool) where
  asleep := fun a => a.2 && a.1.testing
  awake := fun a => !a.2 && a.1.testing
  notify := fun a => (a.1, false)
  awake_of_notify := by
    rintro ⟨w, b⟩ h
    exact (Bool.and_eq_true_iff.mp h).2
  not_asleep_notify := fun _ => rfl
  not_awake_of_asleep := by
    rintro ⟨w, b⟩ h
    obtain ⟨rfl, -⟩ := Bool.and_eq_true_iff.mp h
    rfl
  notify_of_awake := by
    rintro ⟨w, b⟩ h
    cases b with
    | false => rfl
    | true => cases h

section

variable {n : ℕ} {ι τ : Type*}

/-- The workers as `notify` sees them. -/
def Signalled.positions (s : Signalled n ι τ) : Fin n → Worker τ × Bool :=
  fun i => (s.base.workers i, s.asleep i)

/-- No worker has run yet. -/
def Signalled.start (n : ℕ) (queueSize : ℤ) : Signalled n ι τ where
  base := State.start n queueSize
  asleep := fun _ => false

/-- Who sleeps after an action that ends in `t`. A worker that goes to wait falls asleep,
`threadpool_add` signals once it has stored its task, and the first `threadpool_destroy`
broadcasts. -/
def Signalled.sleepers (s : Signalled n ι τ) (t : State n ι τ) :
    Action n ι τ → Option (Fin n) → Option (Fin n → Bool)
  | .worker i, _ => some (Function.update s.asleep i (t.workers i).isWaiting)
  | .add _ task lockOk signalOk _, wake =>
      if stored s.base.pool task lockOk = [] ∨ signalOk = false then some s.asleep
      else ((notifyWaiter τ).notifyOne s.positions wake).map fun g i => (g i).2
  | .destroy _ lockOk broadcastOk _, _ =>
      if lockOk && !s.base.pool.shutdown && broadcastOk then some fun _ => false
      else some s.asleep
  | .queueCount _, _ | .destroyer _, _ => some s.asleep

/-- A worker that sleeps takes no step. -/
def Signalled.blocks (s : Signalled n ι τ) : Action n ι τ → Bool
  | .worker i => s.asleep i
  | _ => false

/-- One step. -/
def Signalled.step (s : Signalled n ι τ) : Event n ι τ → Option (Signalled n ι τ)
  | .act l wake =>
      if s.blocks l then none
      else (s.base.step l).bind fun t =>
        (s.sleepers t l wake).map fun asleep => { base := t, asleep := asleep }
  | .spurious i => some { s with asleep := Function.update s.asleep i false }

/-- All interleavings on a pool of `n` workers and `queueSize` slots. -/
def signalled (n : ℕ) (queueSize : ℤ) :
    Transition.System (Signalled n ι τ) (Event n ι τ) :=
  Transition.System.ofFun (Signalled.start n queueSize) Signalled.step

/-- The `pthread` calls of an action succeed. -/
def Action.succeeds : Action n ι τ → Bool
  | .add _ _ lockOk signalOk unlockOk => lockOk && signalOk && unlockOk
  | .destroy _ lockOk broadcastOk unlockOk => lockOk && broadcastOk && unlockOk
  | .destroyer joinOk => joinOk
  | .queueCount _ | .worker _ => true

/-- The `pthread` calls of the step succeed. -/
def Event.succeeds : Event n ι τ → Bool
  | .act l _ => l.succeeds
  | .spurious _ => true

/-- The runs in which the `pthread` calls succeed. -/
def succeeding (n : ℕ) (queueSize : ℤ) :
    Transition.System (Signalled n ι τ) (Event n ι τ) :=
  (signalled n queueSize).restrict fun _ l => l.succeeds = true

variable {s t : Signalled n ι τ}

/-- A step is a spurious wakeup, or a step of the pool by a thread that does not sleep. -/
theorem step_cases {l : Event n ι τ} (hstep : s.step l = some t) :
    (∃ i, l = .spurious i ∧ t = { s with asleep := Function.update s.asleep i false }) ∨
      ∃ a wake, l = .act a wake ∧ s.blocks a = false ∧ s.base.step a = some t.base ∧
        s.sleepers t.base a wake = some t.asleep := by
  cases l with
  | spurious i => exact Or.inl ⟨i, rfl, (Option.some.inj hstep).symm⟩
  | act a wake =>
      simp only [Signalled.step] at hstep
      split_ifs at hstep with hblocks
      obtain ⟨u, hu, hmap⟩ := Option.bind_eq_some_iff.mp hstep
      obtain ⟨asleep, hasleep, rfl⟩ := Option.map_eq_some_iff.mp hmap
      exact Or.inr ⟨a, wake, rfl, Bool.eq_false_of_not_eq_true hblocks, hu, hasleep⟩

/-- Forgetting who sleeps gives the pool in which a waiting worker may wake at any time. -/
theorem signalled_projects (queueSize : ℤ) :
    Transition.Projects (signalled (ι := ι) (τ := τ) n queueSize) (threadpool n queueSize)
      Signalled.base where
  init := by
    rintro s rfl
    rfl
  step := by
    intro s l t hstep
    rcases step_cases hstep with ⟨i, -, rfl⟩ | ⟨a, wake, -, -, ha, -⟩
    · exact Or.inl rfl
    · exact Or.inr ⟨a, ha⟩

/-! ## No wakeup is missed -/

/-- The worker is in the loop of `threadpool_thread`. -/
def Worker.inService : Worker τ → Bool
  | .top | .waiting | .running _ => true
  | _ => false

/-- While a worker sleeps there are awake ones for the queued tasks. Nobody sleeps in a pool
that is shut down, and only there somebody leaves the loop or keeps the lock. -/
structure Woken (s : Signalled n ι τ) : Prop where
  waiting : ∀ i, s.asleep i = true → s.base.workers i = .waiting
  served : (notifyWaiter τ).Served s.positions s.base.pool.queueCount.toNat
  closed : s.base.pool.shutdown = true → ∀ i, s.asleep i = false
  locked : s.base.pool.shutdown = false → s.base.lock = none
  inService : s.base.pool.shutdown = false → ∀ i, (s.base.workers i).inService = true

theorem Signalled.positions_apply (s : Signalled n ι τ) (i : Fin n) :
    s.positions i = (s.base.workers i, s.asleep i) := rfl

theorem Signalled.positions_update {i : Fin n} {w : Worker τ} {b : Bool}
    (hworkers : t.base.workers = Function.update s.base.workers i w)
    (hasleep : t.asleep = Function.update s.asleep i b) :
    t.positions = Function.update s.positions i (w, b) := by
  funext j
  rw [Signalled.positions_apply, hworkers, hasleep]
  by_cases hji : j = i
  · subst hji
    simp only [Function.update_self]
  · simp only [Function.update_of_ne hji, Signalled.positions_apply]

theorem Signalled.positions_congr (hworkers : t.base.workers = s.base.workers)
    (hasleep : t.asleep = s.asleep) : t.positions = s.positions := by
  funext i
  rw [Signalled.positions_apply, hworkers, hasleep, Signalled.positions_apply]

theorem Signalled.served_of_awake (h : ∀ i, s.asleep i = false) (supply : ℕ) :
    (notifyWaiter τ).Served s.positions supply :=
  Waiter.Served.of_none_asleep fun i => by
    simp only [notifyWaiter, Signalled.positions_apply, h i, Bool.false_and]

theorem Worker.eq_waiting {w : Worker τ} (h : w.isWaiting = true) : w = .waiting := by
  cases w <;> first | rfl | cases h

theorem Pool.mustWait_iff {p : Pool τ} :
    p.mustWait = true ↔ p.queueCount = 0 ∧ p.shutdown = false := by
  simp [Pool.mustWait]

namespace Woken

theorem start {queueSize : ℤ} : Woken (Signalled.start (ι := ι) (τ := τ) n queueSize) where
  waiting := nofun
  served := Signalled.served_of_awake (fun _ => rfl) _
  closed := fun _ _ => rfl
  locked := fun _ => rfl
  inService := fun _ _ => rfl

/-- A worker moves to `w` and sleeps when it waits there. -/
theorem worker (h : Woken s) {i : Fin n} {w : Worker τ}
    (hworkers : t.base.workers = Function.update s.base.workers i w)
    (hasleep : t.asleep = Function.update s.asleep i w.isWaiting)
    (hshutdown : t.base.pool.shutdown = s.base.pool.shutdown)
    (hclosed : s.base.pool.shutdown = true → w.isWaiting = false)
    (hopen : s.base.pool.shutdown = false → t.base.lock = none ∧ w.inService = true ∧
      (notifyWaiter τ).Served (Function.update s.positions i (w, w.isWaiting))
        t.base.pool.queueCount.toNat) : Woken t := by
  have hawake : t.base.pool.shutdown = true → ∀ j, t.asleep j = false := by
    intro hstop
    rw [hshutdown] at hstop
    rw [hasleep, hclosed hstop]
    exact forall_update (P := fun _ b => b = false) (h.closed hstop) rfl
  refine ⟨?_, ?_, hawake, ?_, ?_⟩
  · intro j hj
    rw [hasleep] at hj
    rw [hworkers]
    by_cases hji : j = i
    · subst hji
      rw [Function.update_self] at hj ⊢
      exact Worker.eq_waiting hj
    · rw [Function.update_of_ne hji] at hj ⊢
      exact h.waiting j hj
  · cases hstop : s.base.pool.shutdown with
    | true => exact Signalled.served_of_awake (hawake (hshutdown.trans hstop)) _
    | false =>
        rw [Signalled.positions_update hworkers hasleep]
        exact (hopen hstop).2.2
  · intro hstop
    exact (hopen (hshutdown.symm.trans hstop)).1
  · intro hstop
    rw [hshutdown] at hstop
    rw [hworkers]
    exact forall_update (P := fun _ (w : Worker τ) => w.inService = true) (h.inService hstop)
      (hopen hstop).2.1

/-- The step of another thread that neither stores a task nor shuts the pool down. -/
theorem frame (h : Woken s) (hworkers : t.base.workers = s.base.workers)
    (hasleep : t.asleep = s.asleep)
    (hpool : t.base.pool = s.base.pool)
    (hlock : s.base.pool.shutdown = false → t.base.lock = none) : Woken t where
  waiting := by
    rw [hworkers, hasleep]
    exact h.waiting
  served := by
    rw [Signalled.positions_congr hworkers hasleep, hpool]
    exact h.served
  closed := by
    rw [hasleep, hpool]
    exact h.closed
  locked := by
    rw [hpool]
    exact hlock
  inService := by
    rw [hworkers, hpool]
    exact h.inService

/-- A task has been stored and `notify` signalled. -/
theorem signal (h : Woken s) {g : Fin n → Worker τ × Bool} {wake : Option (Fin n)}
    (hg : (notifyWaiter τ).notifyOne s.positions wake = some g)
    (hworkers : t.base.workers = s.base.workers) (hasleep : t.asleep = fun i => (g i).2)
    (hshutdown : t.base.pool.shutdown = s.base.pool.shutdown)
    (hcount : t.base.pool.queueCount.toNat = s.base.pool.queueCount.toNat + 1)
    (hlock : t.base.lock = none) : Woken t := by
  have hsame : ∀ i, g i = s.positions i ∨ g i = (s.base.workers i, false) :=
    Waiter.notifyOne_apply hg
  have hle : ∀ i, t.asleep i = true → s.asleep i = true := by
    intro i hi
    simp only [hasleep] at hi
    rcases hsame i with heq | heq <;> rw [heq] at hi
    · exact hi
    · cases hi
  have hpositions : t.positions = g := by
    funext i
    rw [Signalled.positions_apply, hworkers, hasleep]
    refine Prod.ext ?_ rfl
    rcases hsame i with heq | heq <;> exact (congrArg Prod.fst heq).symm
  refine ⟨?_, ?_, ?_, fun _ => hlock, ?_⟩
  · intro i hi
    rw [hworkers]
    exact h.waiting i (hle i hi)
  · rw [hpositions, hcount]
    exact h.served.notifyOne hg
  · intro hstop i
    rw [hshutdown] at hstop
    rw [Bool.eq_false_iff]
    intro hi
    have hold := h.closed hstop i
    rw [hle i hi] at hold
    cases hold
  · rw [hworkers, hshutdown]
    exact h.inService

theorem add {size : ℕ} (h : Woken s) (hring : RunInv size s.base) {client : ι}
    {task : Option τ} {wake : Option (Fin n)} (hlock : s.base.lock = none)
    (hbase : t.base = addStep s.base client task true true true)
    (hasleep : s.sleepers t.base (.add client task true true true) wake = some t.asleep) :
    Woken t := by
  have hnone : t.base.lock = none := by
    rw [hbase]
    simp [addStep, lockAfter, hlock]
  have hframe := threadpoolAdd_frame s.base.pool task true true true
  rcases threadpoolAdd_cases s.base.pool task true true true with
    ⟨hpool, hstored⟩ | ⟨x, -, hstored, hpool⟩
  · rw [Signalled.sleepers, if_pos (Or.inl hstored)] at hasleep
    refine h.frame (by rw [hbase]; rfl) (Option.some.inj hasleep).symm ?_ fun _ => hnone
    rw [hbase]
    exact hpool
  · rw [Signalled.sleepers, hstored, if_neg (by simp)] at hasleep
    obtain ⟨g, hg, hflags⟩ := Option.map_eq_some_iff.mp hasleep
    refine h.signal hg (by rw [hbase]; rfl) hflags.symm ?_ ?_ hnone
    · rw [hbase]
      exact hframe.2
    · have hcount := hring.ring.count
      have hle := hring.ring.le
      rw [hbase]
      simp only [addStep, hpool, storeTask]
      omega

theorem take {size : ℕ} (h : Woken s) (hring : RunInv size s.base) {i : Fin n}
    (hw : (s.base.workers i).testing = true) (hawake : s.asleep i = false)
    (hwait : s.base.pool.mustWait = false) (hshutdown : s.base.pool.shutdown = false)
    {task : Option τ} :
    (notifyWaiter τ).Served (Function.update s.positions i (.running task, false))
      (s.base.pool.queueCount - 1).toNat := by
  have hcount := hring.ring.count
  have hle := hring.ring.le
  have hne : s.base.pool.queueCount ≠ 0 := fun hzero => by
    rw [Pool.mustWait_iff.mpr ⟨hzero, hshutdown⟩] at hwait
    cases hwait
  refine Waiter.Served.take (i := i) ?_ ?_ ?_
  · have hsucc : (s.base.pool.queueCount - 1).toNat + 1 = s.base.pool.queueCount.toNat := by
      omega
    rw [hsucc]
    exact h.served
  · simp only [notifyWaiter, Signalled.positions_apply, hw, hawake, Bool.not_false,
      Bool.and_self]
  · rfl

/-- A spurious wakeup. -/
theorem spurious (h : Woken s) (i : Fin n) :
    Woken { s with asleep := Function.update s.asleep i false } := by
  have hle : ∀ j, Function.update s.asleep i false j = true → s.asleep j = true := by
    intro j hj
    by_cases hji : j = i
    · rw [hji, Function.update_self] at hj
      cases hj
    · rwa [Function.update_of_ne hji] at hj
  refine ⟨fun j hj => h.waiting j (hle j hj), ?_, fun hstop j => ?_, h.locked, h.inService⟩
  · have hpositions : Signalled.positions { s with asleep := Function.update s.asleep i false } =
        Function.update s.positions i (s.base.workers i, false) :=
      Signalled.positions_update (Function.update_eq_self i _).symm rfl
    rw [hpositions]
    exact h.served.notify i
  · rw [Bool.eq_false_iff]
    intro hj
    have hold := h.closed hstop j
    rw [hle j hj] at hold
    cases hold

theorem step {size : ℕ} (h : Woken s) (hring : RunInv size s.base) {l : Event n ι τ}
    (hok : l.succeeds = true) (hstep : s.step l = some t) : Woken t := by
  rcases step_cases hstep with ⟨i, rfl, rfl⟩ | ⟨a, wake, rfl, hblocks, ha, hasleep⟩
  · exact h.spurious i
  have hworker : ∀ {i : Fin n} {w : Worker τ}, a = .worker i →
      t.base.workers = Function.update s.base.workers i w →
        t.asleep = Function.update s.asleep i w.isWaiting := by
    rintro i w rfl hworkers
    rw [Signalled.sleepers, hworkers, Function.update_self] at hasleep
    exact (Option.some.inj hasleep).symm
  generalize hbase : t.base = u at ha hasleep
  cases step_moves ha with
  | @add client task lockOk signalOk unlockOk hlock =>
      simp only [Event.succeeds, Action.succeeds, Bool.and_eq_true] at hok
      obtain ⟨⟨rfl, rfl⟩, rfl⟩ := hok
      rw [← hbase] at hasleep
      exact h.add hring hlock hbase hasleep
  | queueCount hlock =>
      refine h.frame (by rw [hbase]) (Option.some.inj hasleep).symm (by rw [hbase]) fun _ => ?_
      rw [hbase, hlock]
  | notLocked hlock => cases hok
  | destroyAgain hlock hshutdown =>
      rw [Signalled.sleepers, hshutdown] at hasleep
      refine h.frame (by rw [hbase]) (Option.some.inj hasleep).symm (by rw [hbase]) fun hopen => ?_
      rw [hshutdown] at hopen
      cases hopen
  | destroyFails hlock hshutdown hfail =>
      simp only [Event.succeeds, Action.succeeds, Bool.true_and, Bool.and_eq_true] at hok
      rw [hok.1, hok.2] at hfail
      simp at hfail
  | destroy hlock hshutdown =>
      rw [Signalled.sleepers, hshutdown] at hasleep
      have hawake : ∀ i, t.asleep i = false := fun i => by
        rw [← Option.some.inj hasleep]
      refine ⟨fun i hi => ?_, Signalled.served_of_awake hawake _, fun _ => hawake, ?_, ?_⟩
      · rw [hawake i] at hi
        cases hi
      · rw [hbase]
        nofun
      · rw [hbase]
        nofun
  | @wait i hw hlock hwait =>
      obtain ⟨hzero, hshutdown⟩ := Pool.mustWait_iff.mp hwait
      have hworkers : t.base.workers = Function.update s.base.workers i .waiting := by rw [hbase]
      refine h.worker hworkers (hworker rfl hworkers) (by rw [hbase]) ?_ fun _ => ⟨?_, rfl, ?_⟩
      · intro hstop
        rw [hshutdown] at hstop
        cases hstop
      · rw [hbase, hlock]
      · rw [hbase, hzero]
        exact Waiter.Served.of_zero
  | @leave i hw hlock hwait hshutdown =>
      have hworkers : t.base.workers = Function.update s.base.workers i .leaving := by rw [hbase]
      refine h.worker hworkers (hworker rfl hworkers) (by rw [hbase]) (fun _ => rfl) ?_
      intro hopen
      rw [hshutdown] at hopen
      cases hopen
  | @take i hw hlock hwait hshutdown =>
      have hworkers : t.base.workers =
          Function.update s.base.workers i (.running (takeTask s.base.pool).1) := by rw [hbase]
      refine h.worker hworkers (hworker rfl hworkers) (by rw [hbase]; rfl) (fun _ => rfl)
        fun _ => ⟨?_, rfl, ?_⟩
      · rw [hbase, hlock]
      · rw [hbase]
        exact h.take hring hw hblocks hwait hshutdown
  | @run i task hw =>
      have hworkers : t.base.workers = Function.update s.base.workers i .top := by rw [hbase]
      refine h.worker hworkers (hworker rfl hworkers) (by rw [hbase]) (fun _ => rfl)
        fun hopen => ⟨?_, rfl, ?_⟩
      · rw [hbase]
        exact h.locked hopen
      · rw [hbase]
        exact h.served.move rfl fun _ => rfl
  | @decrement i hw =>
      have hworkers : t.base.workers = Function.update s.base.workers i .unlocking := by rw [hbase]
      refine h.worker hworkers (hworker rfl hworkers) (by rw [hbase]) (fun _ => rfl) ?_
      intro hopen
      have hin := h.inService hopen i
      rw [hw] at hin
      cases hin
  | @unlock i hw =>
      have hworkers : t.base.workers = Function.update s.base.workers i .exited := by rw [hbase]
      refine h.worker hworkers (hworker rfl hworkers) (by rw [hbase]) (fun _ => rfl) ?_
      intro hopen
      have hin := h.inService hopen i
      rw [hw] at hin
      cases hin
  -- The destroying thread changes neither the pool nor a worker nor the lock.
  | _ =>
      refine h.frame (by rw [hbase]) (Option.some.inj hasleep).symm (by rw [hbase]) fun hopen => ?_
      rw [hbase]
      exact h.locked hopen

end Woken

/-- What holds of every state that a run of successful calls reaches. -/
structure SignalledInv (size : ℕ) (s : Signalled n ι τ) : Prop where
  run : RunInv size s.base
  teardown : TeardownInv s.base
  woken : Woken s

namespace SignalledInv

theorem step {size : ℕ} (hsize : 1 ≤ size) (h : SignalledInv size s) {l : Event n ι τ}
    (hok : l.succeeds = true) (hstep : s.step l = some t) : SignalledInv size t := by
  refine ⟨?_, ?_, h.woken.step h.run hok hstep⟩
  · rcases step_cases hstep with ⟨i, -, rfl⟩ | ⟨a, wake, -, -, ha, -⟩
    · exact h.run
    · exact h.run.step hsize ha
  · rcases step_cases hstep with ⟨i, -, rfl⟩ | ⟨a, wake, -, -, ha, -⟩
    · exact h.teardown
    · exact h.teardown.step ha

end SignalledInv

theorem inductive_succeeding {size : ℕ} (hsize : 1 ≤ size) :
    Transition.Inductive (succeeding (ι := ι) (τ := τ) n size) (SignalledInv size) :=
  .restrict (by
    rintro s rfl
    exact ⟨RunInv.start, TeardownInv.start, Woken.start⟩)
    fun _ _ _ h hok hstep => h.step hsize hok hstep

theorem total_awake (s : Signalled n ι τ) :
    total (fun a => ((notifyWaiter τ).awake a).toNat) s.positions =
      (Finset.univ.filter fun j =>
        s.asleep j = false ∧ (s.base.workers j).testing = true).card := by
  rw [total, Finset.card_filter]
  refine Finset.sum_congr rfl fun j _ => ?_
  simp only [notifyWaiter, Signalled.positions_apply, Bool.toNat, Bool.cond_eq_ite,
    Bool.and_eq_true, Bool.not_eq_true']

/-- A worker sleeps only in a running pool, and while it does there is for each queued task
another worker that is awake and in front of its test. -/
theorem queued_served {size : ℕ} (hsize : 1 ≤ size)
    (hs : Transition.Reachable (succeeding n size) s) {i : Fin n} (hi : s.asleep i = true) :
    s.base.workers i = .waiting ∧ s.base.pool.shutdown = false ∧
      s.base.pool.queueCount ≤ ((Finset.univ.filter fun j =>
        s.asleep j = false ∧ (s.base.workers j).testing = true).card : ℕ) := by
  have hinv := (inductive_succeeding hsize).reachable hs
  have hwaiting := hinv.woken.waiting i hi
  refine ⟨hwaiting, ?_, ?_⟩
  · rw [Bool.eq_false_iff]
    intro hstop
    rw [hinv.woken.closed hstop i] at hi
    cases hi
  · have hserved := hinv.woken.served ⟨i, by
      simp only [notifyWaiter, Signalled.positions_apply, hi, hwaiting, Worker.testing,
        Bool.and_self]⟩
    rw [total_awake] at hserved
    exact Int.toNat_le.mp hserved

/-- Two workers sleep, one task is stored: one worker is awake for it. -/
theorem queued_served_two : ∃ s : Signalled 2 Unit ℕ,
    Transition.Reachable (succeeding 2 4) s ∧ s.asleep 1 = true ∧
      s.base.pool.queueCount ≤ ((Finset.univ.filter fun j =>
        s.asleep j = false ∧ (s.base.workers j).testing = true).card : ℕ) := by
  have hs : ∃ s : Signalled 2 Unit ℕ, Transition.exec
      (fun s l => if Event.succeeds l = true then Signalled.step s l else none)
      (Signalled.start 2 4)
      [.act (.worker 0) none, .act (.worker 1) none,
        .act (.add () (some 7) true true true) (some 0)] = some s ∧ s.asleep 1 = true :=
    ⟨_, rfl, rfl⟩
  obtain ⟨s, hexec, hasleep⟩ := hs
  have hreach : Transition.Reachable (succeeding 2 4) s :=
    Transition.reachable_restrict_of_exec hexec
  exact ⟨s, hreach, hasleep, (queued_served (by decide) hreach hasleep).2.2⟩

/-! ## Every accepted task is taken -/

/-- The step of a worker. -/
def Event.byWorker : Event n ι τ → Bool
  | .act (.worker _) _ => true
  | _ => false

/-- The first `k` accepted tasks have been taken, or the pool has been shut down. -/
def TakenTo (k : ℕ) (s : Signalled n ι τ) : Prop :=
  k ≤ s.base.taken.length ∨ s.base.pool.shutdown = true

/-- A task is being run. -/
def Worker.busy : Worker τ → ℕ
  | .running _ => 1
  | _ => 0

/-- Each of the first `k` tasks costs its taking and its running. -/
def Signalled.leftTo (k : ℕ) (s : Signalled n ι τ) : ℕ :=
  2 * (k - s.base.taken.length) + total Worker.busy s.base.workers

theorem Worker.busy_of_testing {w : Worker τ} (h : w.testing = true) : w.busy = 0 := by
  cases w <;> first | rfl | cases h

theorem addStep_accepted {s : State n ι τ} (client : ι) (task : Option τ)
    (lockOk signalOk unlockOk : Bool) :
    s.accepted.length ≤ (addStep s client task lockOk signalOk unlockOk).accepted.length := by
  simp [addStep]

/-- A step forgets no accepted task. -/
theorem accepted_le {s t : State n ι τ} {l : Action n ι τ} (hstep : s.step l = some t) :
    s.accepted.length ≤ t.accepted.length := by
  cases step_moves hstep with
  | add hlock => exact addStep_accepted _ _ _ _ _
  | _ => exact le_rfl

/-- A task is queued in front of the goal. -/
theorem SignalledInv.not_mustWait {size k : ℕ} (h : SignalledInv size s)
    (hk : k ≤ s.base.accepted.length) (hgoal : ¬ TakenTo k s) :
    s.base.pool.shutdown = false ∧ 0 < s.base.pool.queueCount ∧
      s.base.pool.mustWait = false := by
  rw [TakenTo, not_or, Nat.not_le, Bool.not_eq_true] at hgoal
  have hcount := h.run.ring.count
  have hpos : 0 < s.base.pool.queueCount := by omega
  refine ⟨hgoal.2, hpos, ?_⟩
  rw [Bool.eq_false_iff]
  intro hwait
  have hzero := (Pool.mustWait_iff.mp hwait).1
  omega

theorem spend_task {size k : ℕ} (h : SignalledInv size s) (hk : k ≤ s.base.accepted.length)
    (hgoal : ¬ TakenTo k s) {l : Event n ι τ} (hstep : s.step l = some t) :
    t.leftTo k + l.byWorker.toNat ≤ s.leftTo k := by
  obtain ⟨hopen, hpos, hwait⟩ := h.not_mustWait hk hgoal
  rcases step_cases hstep with ⟨i, rfl, rfl⟩ | ⟨a, wake, rfl, -, ha, -⟩
  · exact le_rfl
  simp only [Signalled.leftTo]
  generalize t.base = u at ha
  cases step_moves ha with
  | @wait i hw hlock hmust =>
      rw [hwait] at hmust
      cases hmust
  | @leave i hw hlock hmust hshutdown =>
      rw [hopen] at hshutdown
      cases hshutdown
  | @take i hw hlock hmust hshutdown =>
      have htotal := total_update_add Worker.busy s.base.workers i
        (.running (takeTask s.base.pool).1)
      have hlt : s.base.taken.length < k := Nat.lt_of_not_le fun hle => hgoal (Or.inl hle)
      rw [Worker.busy_of_testing hw] at htotal
      simp only [Worker.busy, Event.byWorker, Bool.toNat_true, List.length_append,
        List.length_singleton] at htotal ⊢
      omega
  | @run i task hw =>
      have htotal := total_update_add Worker.busy s.base.workers i .top
      rw [hw] at htotal
      simp only [Worker.busy, Event.byWorker, Bool.toNat_true] at htotal ⊢
      omega
  | @decrement i hw =>
      have hin := h.woken.inService hopen i
      rw [hw] at hin
      cases hin
  | @unlock i hw =>
      have hin := h.woken.inService hopen i
      rw [hw] at hin
      cases hin
  | _ => exact le_rfl

/-- A worker that runs a task goes on, and so does one that is awake in front of its test. -/
theorem worker_enabled {i : Fin n} (hawake : s.asleep i = false)
    (hstep : ∃ u, s.base.step (.worker i) = some u) :
    ∃ t, s.step (.act (.worker i) none) = some t := by
  obtain ⟨u, hu⟩ := hstep
  refine ⟨⟨u, Function.update s.asleep i (u.workers i).isWaiting⟩, ?_⟩
  simp only [Signalled.step, Signalled.blocks, hawake, hu, Signalled.sleepers, Option.bind_some,
    Option.map_some, Bool.false_eq_true, if_false]

theorem SignalledInv.task_enabled {size k : ℕ} (hn : 1 ≤ n) (h : SignalledInv size s)
    (hk : k ≤ s.base.accepted.length) (hgoal : ¬ TakenTo k s) :
    ∃ l t, Event.byWorker l = true ∧ l.succeeds = true ∧ s.step l = some t := by
  obtain ⟨hopen, hpos, hwait⟩ := h.not_mustWait hk hgoal
  have hlock := h.woken.locked hopen
  have hgo : ∀ i, s.asleep i = false →
      ∃ l t, Event.byWorker l = true ∧ l.succeeds = true ∧ s.step l = some t := by
    intro i hi
    have hin := h.woken.inService hopen i
    have hstep : ∃ u, s.base.step (.worker i) = some u := by
      simp only [State.step, workerStep]
      cases hw : s.base.workers i with
      | top | waiting =>
          simp only [hlock, hwait, hopen, Option.isSome_none, Bool.false_eq_true, if_false]
          exact ⟨_, rfl⟩
      | running task => exact ⟨_, rfl⟩
      | _ =>
          rw [hw] at hin
          cases hin
    obtain ⟨t, ht⟩ := worker_enabled hi hstep
    exact ⟨_, t, rfl, rfl, ht⟩
  by_cases hsome : ∃ i, s.asleep i = true
  · obtain ⟨i, hi⟩ := hsome
    obtain ⟨j, hj⟩ := h.woken.served.exists_awake (by omega) ⟨i, by
      simp only [notifyWaiter, Signalled.positions_apply, hi, h.woken.waiting i hi,
        Worker.testing, Bool.and_self]⟩
    refine hgo j ?_
    simpa [Signalled.positions_apply] using (Bool.and_eq_true_iff.mp hj).1
  · exact hgo ⟨0, hn⟩ (Bool.eq_false_of_not_eq_true fun hi => hsome ⟨_, hi⟩)

theorem task_progress {size : ℕ} (hn : 1 ≤ n) (hsize : 1 ≤ size) (k : ℕ) :
    Transition.Progress (succeeding (ι := ι) (τ := τ) n size) Event.byWorker (TakenTo k)
      (fun s => SignalledInv size s ∧ k ≤ s.base.accepted.length) (Signalled.leftTo k) where
  keep := by
    rintro s l t ⟨h, hk⟩ - ⟨hok, hstep⟩
    refine ⟨h.step hsize hok hstep, ?_⟩
    rcases step_cases hstep with ⟨i, -, rfl⟩ | ⟨a, wake, -, -, ha, -⟩
    · exact hk
    · exact hk.trans (accepted_le ha)
  spend := fun _ _ _ h hgoal hstep => spend_task h.1 h.2 hgoal hstep.2
  enabled := by
    rintro s ⟨h, hk⟩ hgoal
    obtain ⟨l, t, hl, hok, hstep⟩ := h.task_enabled hn hk hgoal
    exact ⟨l, t, hl, hok, hstep⟩

/-- Every task that has been accepted is taken by a worker after a bounded number of steps of
the workers, whatever the clients do meanwhile, unless the pool is shut down before. -/
theorem accepted_task_taken {size : ℕ} (hn : 1 ≤ n) (hsize : 1 ≤ size)
    (hs : Transition.Reachable (succeeding n size) s) {k : ℕ}
    (hk : k ≤ s.base.accepted.length) :
    Transition.Finishes (succeeding n size) Event.byWorker (TakenTo k) s :=
  (task_progress hn hsize k).finishes ⟨(inductive_succeeding hsize).reachable hs, hk⟩

theorem accepted_task_taken_one : ∃ s : Signalled 1 Unit ℕ,
    s.asleep 0 = false ∧ s.base.taken = [] ∧
      Transition.Finishes (succeeding 1 4) Event.byWorker (TakenTo 1) s := by
  have hs : ∃ s : Signalled 1 Unit ℕ, Transition.exec
      (fun s l => if Event.succeeds l = true then Signalled.step s l else none)
      (Signalled.start 1 4)
      [.act (.worker 0) none, .act (.add () (some 7) true true true) (some 0)] = some s ∧
        s.asleep 0 = false ∧ s.base.taken = [] ∧ s.base.accepted.length = 1 :=
    ⟨_, rfl, rfl, rfl, rfl⟩
  obtain ⟨s, hexec, hawake, htaken, haccepted⟩ := hs
  exact ⟨s, hawake, htaken, accepted_task_taken (by decide) (by decide)
    (Transition.reachable_restrict_of_exec hexec) haccepted.ge⟩

end

end CThreadPool

end ProcessThreadPool
