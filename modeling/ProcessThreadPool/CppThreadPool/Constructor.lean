import ProcessThreadPool.Lib.Transition
import ProcessThreadPool.Lib.ThreadFamily

/-!
# A constructor that cannot start all its threads

The constructor of `ThreadPool` starts its workers one by one. When the start of one
throws, the `catch` block stores `stop`, notifies `condition` and joins the workers that
are already running. It does not lock `queue_mutex` for the store, so a worker can test
the predicate before it and block after the notification. Nobody can enqueue a task yet,
so the predicate is `stop` alone.
-/

namespace ProcessThreadPool

namespace CppThreadPool

/-- Where a worker stands. It holds `queue_mutex` in `testing`, in `blocking`, where the
predicate was false, and in `leaving`, where it was true. -/
inductive Starter where
  | unstarted
  | top
  | testing
  | blocking
  | asleep
  | woken
  | leaving
  | exited
  deriving DecidableEq, Repr

/-- Where the constructor stands: before the start of a thread, in the `catch` block
before the store, before `notify_all` and at a `join`, or past `throw`. -/
inductive Constructor where
  | starting (i : ℕ)
  | caught
  | stored
  | joining (i : ℕ)
  | thrown
  deriving DecidableEq, Repr

/-- A pool under construction. -/
structure Construction (n : ℕ) where
  constructor : Constructor
  stop : Bool
  mutex : Option (Fin n)
  workers : Fin n → Starter

/-- No thread has been started. -/
def Construction.start (n : ℕ) : Construction n where
  constructor := .starting 0
  stop := false
  mutex := none
  workers := fun _ => .unstarted

/-- What happens next. -/
inductive ConstructionAction (n : ℕ) where
  | constructor
  | worker (i : Fin n)
  | spurious (i : Fin n)
  deriving DecidableEq, Repr

/-- A notification of `condition` reaches the worker. -/
def Starter.notify : Starter → Starter
  | .asleep => .woken
  | w => w

/-- `notify_all` has been issued. -/
def Constructor.notified : Constructor → Bool
  | .joining _ | .thrown => true
  | _ => false

section Steps

variable {n : ℕ}

def Construction.setWorker (s : Construction n) (i : Fin n) (w : Starter) : Construction n :=
  { s with workers := Function.update s.workers i w }

/-- The next step of the constructor, when the start of thread `k` throws. -/
def constructorStep (k : Fin n) (s : Construction n) : Option (Construction n) :=
  match s.constructor with
  | .starting i =>
      if h : i < k then
        some (Construction.setWorker { s with constructor := .starting (i + 1) }
          ⟨i, Nat.lt_trans h k.isLt⟩ .top)
      else some { s with constructor := .caught }
  | .caught => some { s with constructor := .stored, stop := true }
  | .stored =>
      some { s with constructor := .joining 0, workers := fun i => (s.workers i).notify }
  | .joining i =>
      if h : i < k then
        if s.workers ⟨i, Nat.lt_trans h k.isLt⟩ = .exited then
          some { s with constructor := .joining (i + 1) }
        else none
      else some { s with constructor := .thrown }
  | .thrown => none

/-- The next step of a worker: acquire the mutex, test the predicate, block or return. -/
def starterStep (s : Construction n) (i : Fin n) : Option (Construction n) :=
  match s.workers i with
  | .unstarted | .asleep | .exited => none
  | .top | .woken =>
      if s.mutex.isSome then none
      else some (Construction.setWorker { s with mutex := some i } i .testing)
  | .testing => some (s.setWorker i (if s.stop then .leaving else .blocking))
  | .blocking => some (Construction.setWorker { s with mutex := none } i .asleep)
  | .leaving => some (Construction.setWorker { s with mutex := none } i .exited)

/-- One step. -/
def Construction.step (k : Fin n) (s : Construction n) :
    ConstructionAction n → Option (Construction n)
  | .constructor => constructorStep k s
  | .worker i => starterStep s i
  | .spurious i => some (s.setWorker i (s.workers i).notify)

end Steps

/-- All interleavings of a constructor for `n` workers that fails at the start of thread `k`
with the workers that are running. -/
def construction {n : ℕ} (k : Fin n) : Transition.System (Construction n) (ConstructionAction n) :=
  Transition.System.ofFun (Construction.start n) (Construction.step k)

section

variable {n : ℕ} {k : Fin n} {s t : Construction n} {l : ConstructionAction n}

/-- `notify_all` has been issued and a worker is blocked without a notification. -/
def Construction.Stranded (s : Construction n) : Prop :=
  s.constructor.notified = true ∧ ∃ i, s.workers i = .asleep

/-- Neither in this state nor after one more step a worker is stranded. -/
def Construction.NobodyStranded (k : Fin n) (s : Construction n) : Prop :=
  ¬s.Stranded ∧ ∀ l t, s.step k l = some t → ¬t.Stranded

/-- The `notify_all` of the `catch` block finds no worker between its test and its block. -/
def Construction.NotifiesInTime (s : Construction n) (l : ConstructionAction n) : Prop :=
  l = .constructor → s.constructor = .stored → ∀ i, s.workers i ≠ .blocking

/-- The worker is neither blocked nor about to block. -/
def Starter.clear : Starter → Bool
  | .asleep | .blocking => false
  | _ => true

/-- The store of `stop` comes before `notify_all`, and after that nobody is blocked or
about to block. -/
structure Construction.Released (s : Construction n) : Prop where
  stop : s.constructor = .stored ∨ s.constructor.notified = true → s.stop = true
  clear : s.constructor.notified = true → ∀ i, (s.workers i).clear = true

theorem Starter.notify_ne_asleep (w : Starter) : w.notify ≠ .asleep := by
  cases w <;> nofun

theorem Starter.clear_notify {w : Starter} (h : w ≠ .blocking) : w.notify.clear = true := by
  cases w <;> first | rfl | exact absurd rfl h

theorem Starter.ne_blocking_of_clear {w : Starter} (h : w.clear = true) : w ≠ .blocking := by
  rintro rfl
  cases h

theorem Construction.Released.not_stranded (h : s.Released) : ¬s.Stranded := by
  rintro ⟨hnotified, i, hi⟩
  have hclear := h.clear hnotified i
  rw [hi] at hclear
  cases hclear

/-- A worker's step blocks only while `stop` is not set. -/
theorem starterStep_cases {i : Fin n} (hstep : starterStep s i = some t) :
    ∃ w, t.constructor = s.constructor ∧ t.stop = s.stop ∧
      t.workers = Function.update s.workers i w ∧
      (w.clear = true ∨ s.workers i = .testing ∧ s.stop = false ∨ s.workers i = .blocking) := by
  cases hw : s.workers i with
  | testing =>
      simp only [starterStep, hw, Option.some.injEq] at hstep
      subst hstep
      refine ⟨_, rfl, rfl, rfl, ?_⟩
      cases hstop : s.stop with
      | true => exact Or.inl rfl
      | false => exact Or.inr (Or.inl ⟨rfl, rfl⟩)
  | blocking =>
      simp only [starterStep, hw, Option.some.injEq] at hstep
      subst hstep
      exact ⟨_, rfl, rfl, rfl, Or.inr (Or.inr rfl)⟩
  | leaving =>
      simp only [starterStep, hw, Option.some.injEq] at hstep
      subst hstep
      exact ⟨_, rfl, rfl, rfl, Or.inl rfl⟩
  | top | woken =>
      simp only [starterStep, hw] at hstep
      split_ifs at hstep
      obtain rfl := Option.some.inj hstep
      exact ⟨_, rfl, rfl, rfl, Or.inl rfl⟩
  | _ => simp [starterStep, hw] at hstep

/-- What the constructor does to the flag and to the workers. -/
theorem constructorStep_cases (hstep : constructorStep k s = some t) :
    (s.constructor.notified = false ∧ s.constructor ≠ .stored ∧ t.constructor ≠ .stored ∧
        t.constructor.notified = false) ∨
      (t.constructor = .stored ∧ t.stop = true) ∨
      (s.constructor = .stored ∧ t.stop = s.stop ∧ t.workers = fun i => (s.workers i).notify) ∨
      (s.constructor.notified = true ∧ t.stop = s.stop ∧ t.workers = s.workers) := by
  cases hc : s.constructor with
  | starting i =>
      simp only [constructorStep, hc] at hstep
      split_ifs at hstep <;> obtain rfl := Option.some.inj hstep <;>
        exact Or.inl ⟨rfl, nofun, nofun, rfl⟩
  | caught =>
      simp only [constructorStep, hc, Option.some.injEq] at hstep
      subst hstep
      exact Or.inr (Or.inl ⟨rfl, rfl⟩)
  | stored =>
      simp only [constructorStep, hc, Option.some.injEq] at hstep
      subst hstep
      exact Or.inr (Or.inr (Or.inl ⟨rfl, rfl, rfl⟩))
  | joining i =>
      simp only [constructorStep, hc] at hstep
      split_ifs at hstep <;> obtain rfl := Option.some.inj hstep <;>
        exact Or.inr (Or.inr (Or.inr ⟨rfl, rfl, rfl⟩))
  | thrown => simp [constructorStep, hc] at hstep

theorem Construction.Released.step (h : s.Released) (hl : s.NotifiesInTime l)
    (hstep : s.step k l = some t) : t.Released := by
  cases l with
  | constructor =>
      rcases constructorStep_cases hstep with ⟨-, -, hstored, hnotified⟩ | ⟨hstored, hstop⟩ |
        ⟨hstored, hstop, hworkers⟩ | ⟨hnotified, hstop, hworkers⟩
      · refine ⟨fun hcase => ?_, fun hcase => ?_⟩
        · rcases hcase with hcase | hcase
          · exact absurd hcase hstored
          · rw [hnotified] at hcase
            cases hcase
        · rw [hnotified] at hcase
          cases hcase
      · refine ⟨fun _ => hstop, fun hcase => ?_⟩
        rw [hstored] at hcase
        cases hcase
      · refine ⟨fun _ => hstop.trans (h.stop (Or.inl hstored)), fun _ i => ?_⟩
        rw [hworkers]
        exact Starter.clear_notify (hl rfl hstored i)
      · refine ⟨fun _ => hstop.trans (h.stop (Or.inr hnotified)), fun _ i => ?_⟩
        rw [hworkers]
        exact h.clear hnotified i
  | worker i =>
      obtain ⟨w, hconstructor, hstop, hworkers, hw⟩ := starterStep_cases hstep
      refine ⟨fun hcase => ?_, fun hnotified => ?_⟩
      · rw [hconstructor] at hcase
        exact hstop.trans (h.stop hcase)
      · rw [hconstructor] at hnotified
        rw [hworkers]
        have hset := h.stop (Or.inr hnotified)
        have hclear := h.clear hnotified
        refine ThreadFamily.forall_update (P := fun _ w => Starter.clear w = true) hclear ?_
        -- With `stop` set a test does not lead to a block.
        rcases hw with hw | ⟨-, hunset⟩ | hblocking
        · exact hw
        · rw [hset] at hunset
          cases hunset
        · exact absurd hblocking (Starter.ne_blocking_of_clear (hclear i))
  | spurious i =>
      obtain rfl := Option.some.inj hstep
      refine ⟨h.stop, fun hnotified => ?_⟩
      have hclear := h.clear hnotified
      exact ThreadFamily.forall_update (P := fun _ w => Starter.clear w = true) hclear
        (Starter.clear_notify (Starter.ne_blocking_of_clear (hclear i)))

/-- A step after which nobody is stranded is one that notifies in time. -/
theorem Construction.Released.nobodyStranded_iff (h : s.Released) (hstep : s.step k l = some t) :
    t.NobodyStranded k ↔ s.NotifiesInTime l := by
  constructor
  · rintro ⟨-, hnext⟩ rfl hstored i hi
    have ht : t = { s with
        constructor := .joining 0
        workers := fun i => (s.workers i).notify } := by
      simp only [Construction.step, constructorStep, hstored, Option.some.injEq] at hstep
      exact hstep.symm
    have hblocking : t.workers i = .blocking := by
      rw [ht]
      exact congrArg Starter.notify hi
    refine hnext (.worker i) (Construction.setWorker { t with mutex := none } i .asleep) ?_
      ⟨?_, i, Function.update_self _ _ _⟩
    · simp only [Construction.step, starterStep, hblocking]
    · rw [ht]
      rfl
  · intro hl
    have ht := h.step hl hstep
    refine ⟨ht.not_stranded, fun l' u hnext => ?_⟩
    by_cases htimely : t.NotifiesInTime l'
    · exact (ht.step htimely hnext).not_stranded
    · -- The notification itself leaves nobody asleep.
      simp only [Construction.NotifiesInTime, Classical.not_imp] at htimely
      obtain ⟨rfl, hstored, -⟩ := htimely
      simp only [Construction.step, constructorStep, hstored, Option.some.injEq] at hnext
      subst hnext
      rintro ⟨-, i, hi⟩
      exact Starter.notify_ne_asleep _ hi

/-- A run strands no worker, neither in its states nor one step later, exactly when the
`catch` block notifies while no worker is about to block. -/
theorem construction_strands_none_iff (k : Fin n) (ls : List (ConstructionAction n))
    (s : Construction n) :
    Transition.Run ((construction k).filter fun _ _ t => t.NobodyStranded k)
        (Construction.start n) ls s ↔
      Transition.Run ((construction k).restrict Construction.NotifiesInTime)
        (Construction.start n) ls s := by
  apply Transition.run_filter_iff_restrict (I := Construction.Released)
  · intro s l t h hl hstep
    exact h.step hl hstep
  · intro s l t h hstep
    exact h.nobodyStranded_iff hstep
  · refine ⟨fun hcase => ?_, nofun⟩
    rcases hcase with hcase | hcase <;> cases hcase

/-- The first worker tests the predicate, the start of the second throws, the `catch` block
stores and notifies, and the worker blocks. -/
theorem stranded_by_constructor : ¬ ∀ (n : ℕ) (k : Fin n) (s : Construction n),
    Transition.Reachable (construction k) s → ¬s.Stranded := by
  intro hclaim
  exact hclaim 2 1 _ (Transition.reachable_ofFun_iff.mpr
    ⟨[.constructor, .worker 0, .worker 0, .constructor, .constructor, .constructor, .worker 0],
      rfl⟩) ⟨rfl, 0, rfl⟩

end

end CppThreadPool

end ProcessThreadPool
