import Mathlib.Data.Int.Notation
import Mathlib.Logic.Function.Basic
import ProcessThreadPool.Lib.Eventfd
import ProcessThreadPool.Lib.Transition

/-!
# A mutex and a semaphore on eventfds

Any number of threads call the functions of one `eventfd_mutex_t` and one
`eventfd_semaphore_t`. All of these functions come down to a read or a write of the descriptor,
so whether one of them blocks is decided by the flags of its creation: the mutex is a blocking
counter and the semaphore is a non-blocking one in semaphore mode.
-/

namespace ProcessThreadPool

namespace ModernPool

namespace EventfdLocks

open Eventfd Transition

/-- `create_eventfd_blocking`. -/
def createEventfdBlocking : Fd := ⟨{ semaphore := false, nonblock := false }, 0⟩

/-- `create_eventfd_semaphore`. -/
def createEventfdSemaphore : Fd := ⟨{ semaphore := true, nonblock := true }, 0⟩

/-- A call returns a value, or its thread goes to sleep. -/
inductive Outcome where
  | returns (result : ℤ)
  | sleeps
  deriving DecidableEq, Repr

/-- `eventfd_write_value`. -/
def eventfdWriteValue (efd : Fd) (value : ℕ) : Outcome × Fd :=
  if value = 0 then (.returns (-1), efd)
  else
    match efd.write value with
    | .done efd => (.returns 0, efd)
    | .again => (.returns (-2), efd)
    | .blocks => (.sleeps, efd)

/-- `eventfd_read_value`. -/
def eventfdReadValue (efd : Fd) : Outcome × Fd :=
  match efd.read with
  | .done efd => (.returns 0, efd)
  | .again => (.returns (-2), efd)
  | .blocks => (.sleeps, efd)

/-- `eventfd_signal`. -/
def eventfdSignal (efd : Fd) : Outcome × Fd := eventfdWriteValue efd 1

/-- `eventfd_mutex_t`. -/
structure EventfdMutex where
  efd : Fd
  initialized : Bool
  deriving DecidableEq, Repr

/-- `eventfd_semaphore_t`. -/
structure EventfdSemaphore where
  efd : Fd
  initialCount : UInt32
  initialized : Bool
  deriving DecidableEq, Repr

/-- `eventfd_mutex_init`; `created` tells whether `eventfd` succeeds. -/
def eventfdMutexInit (created : Bool) : Option EventfdMutex :=
  if created = false then none
  else
    match eventfdSignal createEventfdBlocking with
    | (.returns 0, efd) => some ⟨efd, true⟩
    | _ => none

/-- `eventfd_semaphore_init`. -/
def eventfdSemaphoreInit (created : Bool) (initialCount : UInt32) : Option EventfdSemaphore :=
  if initialCount = 0 then none
  else if created = false then none
  else
    match eventfdWriteValue createEventfdSemaphore initialCount.toNat with
    | (.returns 0, efd) => some ⟨efd, initialCount, true⟩
    | _ => none

/-- The functions on a mutex with the given operation on its descriptor. -/
def onMutex (m : EventfdMutex) (op : Fd → Outcome × Fd) : Outcome × EventfdMutex :=
  if m.initialized = false then (.returns (-1), m)
  else ((op m.efd).1, { m with efd := (op m.efd).2 })

/-- The functions on a semaphore with the given operation on its descriptor. -/
def onSemaphore (s : EventfdSemaphore) (op : Fd → Outcome × Fd) : Outcome × EventfdSemaphore :=
  if s.initialized = false then (.returns (-1), s)
  else ((op s.efd).1, { s with efd := (op s.efd).2 })

/-- `eventfd_mutex_lock`. -/
def eventfdMutexLock (m : EventfdMutex) : Outcome × EventfdMutex := onMutex m eventfdReadValue

/-- `eventfd_mutex_trylock`. The test for `-2` returns `-2` again. -/
def eventfdMutexTrylock (m : EventfdMutex) : Outcome × EventfdMutex :=
  onMutex m fun efd =>
    let r := eventfdReadValue efd
    if r.1 = .returns (-2) then (.returns (-2), r.2) else r

/-- `eventfd_mutex_unlock`. -/
def eventfdMutexUnlock (m : EventfdMutex) : Outcome × EventfdMutex := onMutex m eventfdSignal

/-- `eventfd_semaphore_wait`. -/
def eventfdSemaphoreWait (s : EventfdSemaphore) : Outcome × EventfdSemaphore :=
  onSemaphore s eventfdReadValue

/-- `eventfd_semaphore_trywait`. The test for `-2` returns `-2` again. -/
def eventfdSemaphoreTrywait (s : EventfdSemaphore) : Outcome × EventfdSemaphore :=
  onSemaphore s fun efd =>
    let r := eventfdReadValue efd
    if r.1 = .returns (-2) then (.returns (-2), r.2) else r

/-- `eventfd_semaphore_post`. -/
def eventfdSemaphorePost (s : EventfdSemaphore) : Outcome × EventfdSemaphore :=
  onSemaphore s eventfdSignal

/-- `eventfd_semaphore_post_multiple`. -/
def eventfdSemaphorePostMultiple (s : EventfdSemaphore) (count : UInt32) :
    Outcome × EventfdSemaphore :=
  if count = 0 then (.returns (-1), s)
  else onSemaphore s fun efd => eventfdWriteValue efd count.toNat

/-- A call of a thread. -/
inductive Call where
  | lock
  | trylock
  | unlock
  | wait
  | trywait
  | post
  | postMultiple (count : UInt32)
  deriving DecidableEq, Repr

/-- The two objects, who holds the mutex, who is asleep in which call, and the numbers of
successful waits and of posted permits. -/
structure Locks (ι : Type*) where
  mutex : EventfdMutex
  semaphore : EventfdSemaphore
  holds : ι → Bool
  asleep : ι → Option Call
  waits : ℕ
  posts : ℕ

inductive Action (ι : Type*) where
  | call (i : ι) (c : Call)
  | resume (i : ι)

section

variable {ι : Type*} [DecidableEq ι]

/-- How a call ends now, and what it makes of the objects. -/
def Locks.attempt (s : Locks ι) : Call → Outcome × EventfdMutex × EventfdSemaphore
  | .lock => ((eventfdMutexLock s.mutex).1, (eventfdMutexLock s.mutex).2, s.semaphore)
  | .trylock => ((eventfdMutexTrylock s.mutex).1, (eventfdMutexTrylock s.mutex).2, s.semaphore)
  | .unlock => ((eventfdMutexUnlock s.mutex).1, (eventfdMutexUnlock s.mutex).2, s.semaphore)
  | .wait => ((eventfdSemaphoreWait s.semaphore).1, s.mutex, (eventfdSemaphoreWait s.semaphore).2)
  | .trywait =>
      ((eventfdSemaphoreTrywait s.semaphore).1, s.mutex, (eventfdSemaphoreTrywait s.semaphore).2)
  | .post => ((eventfdSemaphorePost s.semaphore).1, s.mutex, (eventfdSemaphorePost s.semaphore).2)
  | .postMultiple count =>
      ((eventfdSemaphorePostMultiple s.semaphore count).1, s.mutex,
        (eventfdSemaphorePostMultiple s.semaphore count).2)

/-- The account of a call that returned 0. -/
def Locks.credit (s : Locks ι) (i : ι) : Call → Locks ι
  | .lock | .trylock => { s with holds := Function.update s.holds i true }
  | .unlock => { s with holds := Function.update s.holds i false }
  | .wait | .trywait => { s with waits := s.waits + 1 }
  | .post => { s with posts := s.posts + 1 }
  | .postMultiple count => { s with posts := s.posts + count.toNat }

/-- A thread issues the read or the write of its call. -/
def Locks.perform (s : Locks ι) (i : ι) (c : Call) : Locks ι :=
  match s.attempt c with
  | (.sleeps, _) => { s with asleep := Function.update s.asleep i (some c) }
  | (.returns result, mutex, semaphore) =>
      let t := { s with
        mutex := mutex
        semaphore := semaphore
        asleep := Function.update s.asleep i none }
      if result = 0 then t.credit i c else t

/-- One step. Only a holder calls `eventfd_mutex_unlock`, and a thread wakes up when its call
can go on. -/
def Locks.step (s : Locks ι) : Action ι → Option (Locks ι)
  | .call i c =>
      if s.asleep i = none ∧ (c = .unlock → s.holds i = true) then some (s.perform i c) else none
  | .resume i =>
      match s.asleep i with
      | some c => if (s.attempt c).1 = .sleeps then none else some (s.perform i c)
      | none => none

/-- All interleavings, after both initialisations succeeded. -/
def locks (ι : Type*) [DecidableEq ι] (initialCount : UInt32) : System (Locks ι) (Action ι) where
  init := fun s => eventfdMutexInit true = some s.mutex ∧
    eventfdSemaphoreInit true initialCount = some s.semaphore ∧ (∀ i, s.holds i = false) ∧
    (∀ i, s.asleep i = none) ∧ s.waits = 0 ∧ s.posts = 0
  step := fun s l t => s.step l = some t

/-- Nobody holds the mutex. -/
def Locks.Free (s : Locks ι) : Prop := ∀ i, s.holds i = false

/-- A permit is left. -/
def Locks.Permit (s : Locks ι) (initialCount : UInt32) : Prop :=
  s.waits < initialCount.toNat + s.posts

/-- The outcome of a call is the one its name promises. -/
def Locks.Behaves (s : Locks ι) (initialCount : UInt32) : Call → Outcome → Prop
  | .lock, o => o = .sleeps ∨ o = .returns 0 ∧ s.Free
  | .trylock, o => (s.Free ∧ o = .returns 0) ∨ (¬ s.Free ∧ o = .returns (-2))
  | .wait, o => o = .sleeps ∨ o = .returns 0 ∧ s.Permit initialCount
  | .trywait, o => (s.Permit initialCount ∧ o = .returns 0) ∨
      (¬ s.Permit initialCount ∧ o = .returns (-2))
  | _, _ => True

/-- The call whose read or write a step issues. -/
def Locks.issues (s : Locks ι) : Action ι → Option Call
  | .call _ c => some c
  | .resume i => s.asleep i

/-- A step that is as the names say: one holder, no more waits than permits, and the right
outcome. -/
structure Proper (initialCount : UInt32) (s : Locks ι) (l : Action ι) (t : Locks ι) : Prop where
  holder : ∀ i j, t.holds i = true → t.holds j = true → i = j
  permits : t.waits ≤ initialCount.toNat + t.posts
  behaves : ∀ c, s.issues l = some c → s.Behaves initialCount c (s.attempt c).1

/-- `eventfd_mutex_trylock` is called only on a free mutex, and `eventfd_semaphore_wait` only
when a permit is left. -/
def Available (initialCount : UInt32) (s : Locks ι) : Action ι → Prop
  | .call _ .trylock => s.Free
  | .call _ .wait => s.Permit initialCount
  | _ => True

/-- The counters count, and only `eventfd_mutex_lock` has put threads to sleep. -/
structure Locks.Counted (s : Locks ι) (initialCount : UInt32) : Prop where
  mutex : (s.mutex = ⟨⟨⟨false, false⟩, 1⟩, true⟩ ∧ s.Free) ∨
    (s.mutex = ⟨⟨⟨false, false⟩, 0⟩, true⟩ ∧
      ∃ i, s.holds i = true ∧ ∀ j, s.holds j = true → j = i)
  semaphore : ∃ counter, s.semaphore = ⟨⟨⟨true, true⟩, counter⟩, initialCount, true⟩ ∧
    counter + s.waits = initialCount.toNat + s.posts
  asleep : ∀ i c, s.asleep i = some c → c = .lock

/-! ## The calls on the counters -/

theorem readValue_semaphore (counter : ℕ) :
    (counter ≠ 0 ∧ eventfdReadValue ⟨⟨true, true⟩, counter⟩ =
      (.returns 0, ⟨⟨true, true⟩, counter - 1⟩)) ∨
    (counter = 0 ∧ eventfdReadValue ⟨⟨true, true⟩, counter⟩ =
      (.returns (-2), ⟨⟨true, true⟩, counter⟩)) := by
  by_cases hzero : counter = 0
  · subst hzero
    exact Or.inr ⟨rfl, rfl⟩
  · rw [eventfdReadValue, read_semaphore _ hzero]
    exact Or.inl ⟨hzero, rfl⟩

theorem writeValue_semaphore (counter value : ℕ) :
    eventfdWriteValue ⟨⟨true, true⟩, counter⟩ value =
      (.returns 0, ⟨⟨true, true⟩, counter + value⟩) ∨
    ∃ result, result ≠ 0 ∧ eventfdWriteValue ⟨⟨true, true⟩, counter⟩ value =
      (.returns result, ⟨⟨true, true⟩, counter⟩) := by
  rw [eventfdWriteValue]
  by_cases hzero : value = 0
  · rw [if_pos hzero]
    exact Or.inr ⟨-1, by decide, rfl⟩
  · rw [if_neg hzero]
    rcases write_nonblock true counter value with hdone | hagain
    · rw [hdone]
      exact Or.inl rfl
    · rw [hagain]
      exact Or.inr ⟨-2, by decide, rfl⟩

/-- The functions that try differ from those that wait only in their test for `-2`. -/
theorem retest_again (r : Outcome × Fd) :
    (if r.1 = .returns (-2) then (.returns (-2), r.2) else r) = r := by
  split
  · rename_i hagain
    exact Prod.ext hagain.symm rfl
  · rfl

theorem eventfdMutexTrylock_eq (m : EventfdMutex) :
    eventfdMutexTrylock m = eventfdMutexLock m := by
  simp only [eventfdMutexTrylock, retest_again]
  rfl

theorem eventfdSemaphoreTrywait_eq (s : EventfdSemaphore) :
    eventfdSemaphoreTrywait s = eventfdSemaphoreWait s := by
  simp only [eventfdSemaphoreTrywait, retest_again]
  rfl

/-- A post of no permits fails in the write too. -/
theorem eventfdSemaphorePostMultiple_eq (s : EventfdSemaphore) (count : UInt32) :
    eventfdSemaphorePostMultiple s count =
      onSemaphore s fun efd => eventfdWriteValue efd count.toNat := by
  rw [eventfdSemaphorePostMultiple]
  by_cases hzero : count = 0
  · rw [if_pos hzero, hzero, onSemaphore]
    split <;> rfl
  · exact if_neg hzero

theorem onSemaphore_of_eq {s : EventfdSemaphore} {op : Fd → Outcome × Fd} {efd efd' : Fd}
    {initialCount : UInt32} {outcome : Outcome} (hs : s = ⟨efd, initialCount, true⟩)
    (hop : op efd = (outcome, efd')) :
    onSemaphore s op = (outcome, ⟨efd', initialCount, true⟩) := by
  subst hs
  simp only [onSemaphore, hop, reduceCtorEq, if_false]

end

section

variable {ι : Type*}

namespace Locks

variable {s : Locks ι}

theorem attempt_trylock : s.attempt .trylock = s.attempt .lock := by
  rw [attempt, attempt, eventfdMutexTrylock_eq]

theorem attempt_trywait : s.attempt .trywait = s.attempt .wait := by
  rw [attempt, attempt, eventfdSemaphoreTrywait_eq]

theorem attempt_postMultiple (count : UInt32) : s.attempt (.postMultiple count) =
    ((onSemaphore s.semaphore fun efd => eventfdWriteValue efd count.toNat).1, s.mutex,
      (onSemaphore s.semaphore fun efd => eventfdWriteValue efd count.toNat).2) := by
  rw [attempt, eventfdSemaphorePostMultiple_eq]

end Locks

namespace Locks.Counted

variable {s : Locks ι} {initialCount : UInt32}

/-- A call for the mutex takes it when it is free, and goes to sleep when it is not. -/
theorem attempt_lock (h : s.Counted initialCount) {c : Call} (hc : c = .lock ∨ c = .trylock) :
    (s.Free ∧ s.attempt c = (.returns 0, ⟨⟨⟨false, false⟩, 0⟩, true⟩, s.semaphore)) ∨
    (¬ s.Free ∧ ∃ objects, s.attempt c = (.sleeps, objects)) := by
  have hlock : s.attempt c = s.attempt .lock := by
    rcases hc with rfl | rfl
    · rfl
    · exact attempt_trylock
  rw [hlock, attempt]
  rcases h.mutex with ⟨hmutex, hfree⟩ | ⟨hmutex, i, hi, -⟩
  · rw [hmutex]
    exact Or.inl ⟨hfree, rfl⟩
  · rw [hmutex]
    refine Or.inr ⟨fun hfree => ?_, _, rfl⟩
    rw [hfree i] at hi
    cases hi

theorem attempt_unlock (h : s.Counted initialCount) {i : ι} (hi : s.holds i = true) :
    s.attempt .unlock = (.returns 0, ⟨⟨⟨false, false⟩, 1⟩, true⟩, s.semaphore) := by
  rcases h.mutex with ⟨-, hfree⟩ | ⟨hmutex, -⟩
  · rw [hfree i] at hi
    cases hi
  · rw [attempt, hmutex]
    rfl

/-- A call for a permit takes one when one is left, and returns at once when none is. -/
theorem attempt_wait (h : s.Counted initialCount) {c : Call} (hc : c = .wait ∨ c = .trywait) :
    (s.Permit initialCount ∧ ∃ counter, counter + (s.waits + 1) = initialCount.toNat + s.posts ∧
      s.attempt c =
        (.returns 0, s.mutex, ⟨⟨⟨true, true⟩, counter⟩, initialCount, true⟩)) ∨
    (¬ s.Permit initialCount ∧ s.attempt c = (.returns (-2), s.mutex, s.semaphore)) := by
  have hwait : s.attempt c = s.attempt .wait := by
    rcases hc with rfl | rfl
    · rfl
    · exact attempt_trywait
  obtain ⟨counter, hsemaphore, hsum⟩ := h.semaphore
  rw [hwait, attempt, eventfdSemaphoreWait]
  rcases readValue_semaphore counter with ⟨hcounter, hread⟩ | ⟨hcounter, hread⟩
  · rw [onSemaphore_of_eq hsemaphore hread]
    exact Or.inl ⟨by rw [Permit]; omega, counter - 1, by omega, rfl⟩
  · rw [onSemaphore_of_eq hsemaphore hread, hsemaphore]
    exact Or.inr ⟨by rw [Permit]; omega, rfl⟩

/-- A post adds its permits, or fails and adds none. -/
theorem attempt_post (h : s.Counted initialCount) {c : Call} {permits : ℕ}
    (hc : c = .post ∧ permits = 1 ∨ ∃ count, c = .postMultiple count ∧ permits = count.toNat) :
    (∃ counter, counter + s.waits = initialCount.toNat + (s.posts + permits) ∧
      s.attempt c = (.returns 0, s.mutex, ⟨⟨⟨true, true⟩, counter⟩, initialCount, true⟩)) ∨
    ∃ result, result ≠ 0 ∧ s.attempt c = (.returns result, s.mutex, s.semaphore) := by
  obtain ⟨counter, hsemaphore, hsum⟩ := h.semaphore
  have hwrite : s.attempt c =
      ((onSemaphore s.semaphore fun efd => eventfdWriteValue efd permits).1, s.mutex,
        (onSemaphore s.semaphore fun efd => eventfdWriteValue efd permits).2) := by
    rcases hc with ⟨rfl, rfl⟩ | ⟨count, rfl, rfl⟩
    · rfl
    · exact attempt_postMultiple count
  rw [hwrite]
  rcases writeValue_semaphore counter permits with hdone | ⟨result, hne, hfailed⟩
  · rw [onSemaphore_of_eq hsemaphore hdone]
    exact Or.inl ⟨counter + permits, by omega, rfl⟩
  · rw [onSemaphore_of_eq hsemaphore hfailed, hsemaphore]
    exact Or.inr ⟨result, hne, rfl⟩

theorem holder (h : s.Counted initialCount) (i j : ι) (hi : s.holds i = true)
    (hj : s.holds j = true) : i = j := by
  rcases h.mutex with ⟨-, hfree⟩ | ⟨-, k, -, hk⟩
  · rw [hfree i] at hi
    cases hi
  · exact (hk i hi).trans (hk j hj).symm

theorem permits (h : s.Counted initialCount) :
    s.waits ≤ initialCount.toNat + s.posts := by
  obtain ⟨counter, -, hsum⟩ := h.semaphore
  omega

theorem behaves_lock (h : s.Counted initialCount) :
    s.Behaves initialCount .lock (s.attempt .lock).1 := by
  rcases h.attempt_lock (Or.inl rfl) with ⟨hfree, hattempt⟩ | ⟨-, objects, hattempt⟩
  · rw [hattempt]
    exact Or.inr ⟨rfl, hfree⟩
  · rw [hattempt]
    exact Or.inl rfl

theorem behaves_trylock_iff (h : s.Counted initialCount) :
    s.Behaves initialCount .trylock (s.attempt .trylock).1 ↔ s.Free := by
  rcases h.attempt_lock (Or.inr rfl) with ⟨hfree, hattempt⟩ | ⟨hfree, objects, hattempt⟩
  · rw [hattempt]
    exact iff_of_true (Or.inl ⟨hfree, rfl⟩) hfree
  · rw [hattempt]
    refine iff_of_false ?_ hfree
    rintro (⟨hfree', -⟩ | ⟨-, hsleeps⟩)
    · exact hfree hfree'
    · cases hsleeps

theorem behaves_wait_iff (h : s.Counted initialCount) :
    s.Behaves initialCount .wait (s.attempt .wait).1 ↔ s.Permit initialCount := by
  rcases h.attempt_wait (Or.inl rfl) with ⟨hpermit, counter, -, hattempt⟩ | ⟨hpermit, hattempt⟩
  · rw [hattempt]
    exact iff_of_true (Or.inr ⟨rfl, hpermit⟩) hpermit
  · rw [hattempt]
    refine iff_of_false ?_ hpermit
    rintro (hsleeps | ⟨hreturns, -⟩)
    · cases hsleeps
    · exact absurd (Outcome.returns.inj hreturns) (by decide)

theorem behaves_trywait (h : s.Counted initialCount) :
    s.Behaves initialCount .trywait (s.attempt .trywait).1 := by
  rcases h.attempt_wait (Or.inr rfl) with ⟨hpermit, counter, -, hattempt⟩ | ⟨hpermit, hattempt⟩
  · rw [hattempt]
    exact Or.inl ⟨hpermit, rfl⟩
  · rw [hattempt]
    exact Or.inr ⟨hpermit, rfl⟩

end Locks.Counted

end

section

variable {ι : Type*} [DecidableEq ι]

/-! ## What a call makes of the state -/

namespace Locks

variable {s t : Locks ι} {initialCount : UInt32} {i : ι} {c : Call}

theorem perform_of_sleeps {objects : EventfdMutex × EventfdSemaphore}
    (h : s.attempt c = (.sleeps, objects)) :
    s.perform i c = { s with asleep := Function.update s.asleep i (some c) } := by
  rw [perform, h]

theorem perform_of_zero {mutex : EventfdMutex} {semaphore : EventfdSemaphore}
    (h : s.attempt c = (.returns 0, mutex, semaphore)) :
    s.perform i c = credit { s with
      mutex := mutex
      semaphore := semaphore
      asleep := Function.update s.asleep i none } i c := by
  rw [perform, h]
  rfl

theorem perform_of_ne {result : ℤ} (hne : result ≠ 0)
    (h : s.attempt c = (.returns result, s.mutex, s.semaphore)) :
    s.perform i c = { s with asleep := Function.update s.asleep i none } := by
  rw [perform, h]
  exact if_neg hne

theorem asleep_update (h : ∀ j d, s.asleep j = some d → d = .lock) {o : Option Call}
    (ho : ∀ d, o = some d → d = .lock) (j : ι) (d : Call)
    (hj : Function.update s.asleep i o j = some d) : d = .lock := by
  by_cases hji : j = i
  · subst hji
    rw [Function.update_self] at hj
    exact ho d hj
  · rw [Function.update_of_ne hji] at hj
    exact h j d hj

theorem asleep_update_none (h : ∀ j d, s.asleep j = some d → d = .lock) :
    ∀ j d, Function.update s.asleep i none j = some d → d = .lock :=
  asleep_update h fun _ hd => (Option.some_ne_none _ hd.symm).elim

/-- The first holder after a free mutex is the only one. -/
theorem holder_update_true (hfree : s.Free) (j : ι)
    (hj : Function.update s.holds i true j = true) : j = i := by
  by_contra hji
  rw [Function.update_of_ne hji, hfree j] at hj
  cases hj

/-- The only holder leaves a free mutex. -/
theorem holds_update_false {k : ι} (hi : s.holds i = true) (hk : ∀ j, s.holds j = true → j = k)
    (j : ι) : Function.update s.holds i false j = false := by
  by_cases hji : j = i
  · subst hji
    exact Function.update_self j false s.holds
  · rw [Function.update_of_ne hji]
    refine Bool.eq_false_iff.mpr fun hj => ?_
    exact hji ((hk j hj).trans (hk i hi).symm)

theorem Counted.perform_lock (h : s.Counted initialCount) (hc : c = .lock ∨ c = .trylock)
    (htry : c = .trylock → s.Free) : (s.perform i c).Counted initialCount := by
  rcases h.attempt_lock hc with ⟨hfree, hattempt⟩ | ⟨hfree, objects, hattempt⟩
  · rw [perform_of_zero hattempt]
    have hcounted : Counted { s with
        mutex := ⟨⟨⟨false, false⟩, 0⟩, true⟩
        asleep := Function.update s.asleep i none
        holds := Function.update s.holds i true } initialCount :=
      { mutex := Or.inr
          ⟨rfl, i, Function.update_self i true s.holds, holder_update_true hfree⟩
        semaphore := h.semaphore
        asleep := asleep_update_none h.asleep }
    rcases hc with rfl | rfl
    · exact hcounted
    · exact hcounted
  · rw [perform_of_sleeps hattempt]
    have hlock : c = .lock := hc.resolve_right fun hc => hfree (htry hc)
    exact ⟨h.mutex, h.semaphore,
      asleep_update h.asleep fun d hd => (Option.some.inj hd).symm.trans hlock⟩

theorem Counted.perform_unlock (h : s.Counted initialCount) (hi : s.holds i = true) :
    (s.perform i .unlock).Counted initialCount := by
  rw [perform_of_zero (h.attempt_unlock hi)]
  rcases h.mutex with ⟨-, hfree⟩ | ⟨-, k, -, hk⟩
  · rw [hfree i] at hi
    cases hi
  · exact ⟨Or.inl ⟨rfl, holds_update_false hi hk⟩, h.semaphore, asleep_update_none h.asleep⟩

/-- A call that failed has changed nothing. -/
theorem Counted.wakes (h : s.Counted initialCount) (i : ι) :
    Counted { s with asleep := Function.update s.asleep i none } initialCount :=
  ⟨h.mutex, h.semaphore, asleep_update_none h.asleep⟩

theorem Counted.perform_wait (h : s.Counted initialCount) (hc : c = .wait ∨ c = .trywait) :
    (s.perform i c).Counted initialCount := by
  rcases h.attempt_wait hc with ⟨-, counter, hsum, hattempt⟩ | ⟨-, hattempt⟩
  · rw [perform_of_zero hattempt]
    rcases hc with rfl | rfl
    · exact ⟨h.mutex, ⟨counter, rfl, hsum⟩, asleep_update_none h.asleep⟩
    · exact ⟨h.mutex, ⟨counter, rfl, hsum⟩, asleep_update_none h.asleep⟩
  · rw [perform_of_ne (by decide) hattempt]
    exact h.wakes i

theorem Counted.perform_post (h : s.Counted initialCount) {permits : ℕ}
    (hc : c = .post ∧ permits = 1 ∨ ∃ count, c = .postMultiple count ∧ permits = count.toNat) :
    (s.perform i c).Counted initialCount := by
  rcases h.attempt_post hc with ⟨counter, hsum, hattempt⟩ | ⟨result, hne, hattempt⟩
  · rw [perform_of_zero hattempt]
    rcases hc with ⟨rfl, rfl⟩ | ⟨count, rfl, rfl⟩
    · exact ⟨h.mutex, ⟨counter, rfl, hsum⟩, asleep_update_none h.asleep⟩
    · exact ⟨h.mutex, ⟨counter, rfl, hsum⟩, asleep_update_none h.asleep⟩
  · rw [perform_of_ne hne hattempt]
    exact h.wakes i

theorem Counted.perform (h : s.Counted initialCount) (hunlock : c = .unlock → s.holds i = true)
    (htry : c = .trylock → s.Free) : (s.perform i c).Counted initialCount := by
  cases c with
  | lock => exact h.perform_lock (Or.inl rfl) htry
  | trylock => exact h.perform_lock (Or.inr rfl) htry
  | unlock => exact h.perform_unlock (hunlock rfl)
  | wait => exact h.perform_wait (Or.inl rfl)
  | trywait => exact h.perform_wait (Or.inr rfl)
  | post => exact h.perform_post (Or.inl ⟨rfl, rfl⟩)
  | postMultiple count => exact h.perform_post (Or.inr ⟨count, rfl, rfl⟩)

/-- A step performs the call it issues. -/
theorem step_performs {l : Action ι} (h : s.step l = some t) :
    ∃ i c, s.issues l = some c ∧ t = s.perform i c ∧
      ((l = .call i c ∧ (c = .unlock → s.holds i = true)) ∨
        (l = .resume i ∧ (s.attempt c).1 ≠ .sleeps)) := by
  cases l with
  | call i c =>
      rw [step, Option.ite_none_right_eq_some] at h
      exact ⟨i, c, rfl, (Option.some.inj h.2).symm, Or.inl ⟨rfl, h.1.2⟩⟩
  | resume i =>
      rw [step] at h
      cases hasleep : s.asleep i with
      | none =>
          rw [hasleep] at h
          cases h
      | some c =>
          rw [hasleep] at h
          obtain ⟨hattempt, ht⟩ := Option.ite_none_left_eq_some.mp h
          exact ⟨i, c, hasleep, (Option.some.inj ht).symm, Or.inr ⟨rfl, hattempt⟩⟩

theorem Counted.step {l : Action ι} (h : s.Counted initialCount) (hl : Available initialCount s l)
    (hstep : s.step l = some t) : t.Counted initialCount := by
  obtain ⟨i, c, hissues, rfl, ⟨rfl, hunlock⟩ | ⟨rfl, -⟩⟩ := step_performs hstep
  · refine h.perform hunlock fun hc => ?_
    subst hc
    exact hl
  · -- only calls of `eventfd_mutex_lock` wake up
    obtain rfl := h.asleep i c hissues
    exact h.perform (fun hc => by cases hc) (fun hc => by cases hc)

/-! ## What the names promise -/

theorem Counted.of_init (h : (locks ι initialCount).init s) : s.Counted initialCount := by
  obtain ⟨hmutex, hsemaphore, hfree, hasleep, hwaits, hposts⟩ := h
  refine ⟨Or.inl ⟨(Option.some.inj hmutex).symm, hfree⟩, ⟨initialCount.toNat, ?_, ?_⟩, ?_⟩
  · rw [eventfdSemaphoreInit] at hsemaphore
    obtain ⟨hzero, hsemaphore⟩ := Option.ite_none_left_eq_some.mp hsemaphore
    rcases writeValue_semaphore 0 initialCount.toNat with hdone | ⟨result, hne, hfailed⟩
    · rw [createEventfdSemaphore, hdone, if_neg (by decide)] at hsemaphore
      rw [← Option.some.inj hsemaphore, Nat.zero_add]
    · rw [createEventfdSemaphore, hfailed, if_neg (by decide)] at hsemaphore
      split at hsemaphore
      · rename_i heq
        exact absurd (Outcome.returns.inj (Prod.mk.inj heq).1) hne
      · cases hsemaphore
  · rw [hwaits, hposts]
  · intro i c hc
    rw [hasleep i] at hc
    cases hc

/-- A step is as the names say exactly when it tries for nothing that is taken. -/
theorem Counted.proper_iff {l : Action ι} (h : s.Counted initialCount)
    (hstep : s.step l = some t) : Proper initialCount s l t ↔ Available initialCount s l := by
  constructor
  · intro hproper
    cases l with
    | resume i => trivial
    | call i c =>
        cases c with
        | trylock => exact h.behaves_trylock_iff.mp (hproper.behaves _ rfl)
        | wait => exact h.behaves_wait_iff.mp (hproper.behaves _ rfl)
        | _ => trivial
  · intro hl
    have hcounted := h.step hl hstep
    refine ⟨hcounted.holder, hcounted.permits, fun c hc => ?_⟩
    cases l with
    | resume i =>
        obtain rfl := h.asleep i c hc
        exact h.behaves_lock
    | call i d =>
        obtain rfl := Option.some.inj hc
        cases d with
        | lock => exact h.behaves_lock
        | trylock => exact h.behaves_trylock_iff.mpr hl
        | wait => exact h.behaves_wait_iff.mpr hl
        | trywait => exact h.behaves_trywait
        | _ => trivial

end Locks

/-- `EFD_NONBLOCK` is passed for the wrong one of the two objects of each pair: the mutex sleeps
in `eventfd_mutex_trylock`, and the semaphore returns `-2` from `eventfd_semaphore_wait`. All
the rest is as the names say. -/
theorem locks_behave_iff (initialCount : UInt32) {s₀ t : Locks ι} {ls : List (Action ι)}
    (hinit : (locks ι initialCount).init s₀) :
    Run ((locks ι initialCount).filter (Proper initialCount)) s₀ ls t ↔
      Run ((locks ι initialCount).restrict (Available initialCount)) s₀ ls t :=
  run_filter_iff_restrict (I := fun s => s.Counted initialCount)
    (fun _ _ _ hs hl hstep => hs.step hl hstep) (fun _ _ _ hs hstep => hs.proper_iff hstep)
    (Locks.Counted.of_init hinit)

/-- Both objects as their initialisation leaves them, with one permit. -/
def opened (ι : Type*) : Locks ι where
  mutex := ⟨⟨⟨false, false⟩, 1⟩, true⟩
  semaphore := ⟨⟨⟨true, true⟩, 1⟩, 1, true⟩
  holds := fun _ => false
  asleep := fun _ => none
  waits := 0
  posts := 0

theorem opened_init : (locks ι 1).init (opened ι) :=
  ⟨rfl, rfl, fun _ => rfl, fun _ => rfl, rfl, rfl⟩

end

/-- The second thread sleeps in `eventfd_mutex_lock` until the first one unlocks, and does not
get a second permit. -/
theorem locks_behave_two : ∃ t, Run ((locks Bool 1).filter (Proper 1)) (opened Bool)
    [.call false .trylock, .call true .lock, .call false .wait, .call false .trywait,
      .call false .unlock, .resume true] t ∧ t.holds true = true ∧ t.waits = 1 :=
  ⟨_, (locks_behave_iff 1 opened_init).mpr
    (.cons ⟨fun _ => rfl, rfl⟩ (.cons ⟨trivial, rfl⟩ (.cons ⟨Nat.zero_lt_one, rfl⟩
    (.cons ⟨trivial, rfl⟩ (.cons ⟨trivial, rfl⟩ (.cons ⟨trivial, rfl⟩ (.nil _))))))), rfl, rfl⟩

/-- `eventfd_mutex_trylock` goes to sleep on a mutex that is held, and `eventfd_semaphore_wait`
returns `-2` without a permit. -/
theorem trylock_sleeps : ¬ (∀ (s t : Locks Bool) (l : Action Bool), Reachable (locks Bool 1) s →
      s.step l = some t → Proper 1 s l t) ∧
    (∃ s, Reachable (locks Bool 1) s ∧ s.holds false = true ∧
      (s.attempt .trylock).1 = .sleeps) ∧
    ∃ s, Reachable (locks Bool 1) s ∧ (s.attempt .wait).1 = .returns (-2) := by
  have hheld : ∃ s, Reachable (locks Bool 1) s ∧ s.holds false = true ∧
      s.asleep true = none ∧ (s.attempt .trylock).1 = .sleeps :=
    ⟨_, ⟨_, [.call false .lock], opened_init, .cons rfl (.nil _)⟩, rfl, rfl, rfl⟩
  refine ⟨fun hclaim => ?_, ?_, ?_⟩
  · obtain ⟨s, hs, hholds, hawake, hsleeps⟩ := hheld
    have hstep : s.step (.call true .trylock) = some (s.perform true .trylock) :=
      if_pos ⟨hawake, fun hc => by cases hc⟩
    rcases (hclaim s _ _ hs hstep).behaves _ rfl with ⟨hfree, -⟩ | ⟨-, hreturns⟩
    · rw [hfree false] at hholds
      cases hholds
    · rw [hsleeps] at hreturns
      cases hreturns
  · obtain ⟨s, hs, hholds, -, hsleeps⟩ := hheld
    exact ⟨s, hs, hholds, hsleeps⟩
  · exact ⟨_, ⟨_, [.call false .wait], opened_init, .cons rfl (.nil _)⟩, rfl⟩

end EventfdLocks

end ModernPool

end ProcessThreadPool
