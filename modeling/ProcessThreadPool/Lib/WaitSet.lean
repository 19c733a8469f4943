import ProcessThreadPool.Lib.ThreadFamily

/-!
# A mutex and waiting on a condition variable with `notify_one`

`Exclusive` says that whoever is inside a critical section holds the mutex.

Threads that wait for a supply (elements, free slots) sleep on a condition variable, and
every unit that is supplied comes with one `notify_one`. `Served` says that the awake
threads suffice for the supply as soon as somebody sleeps. A notification keeps this for
one unit more, a thread that leaves with a unit keeps it for one unit less, and a thread
falls asleep only where there is no supply. A thread that was not notified may take the
unit meant for one that was: only the numbers count.
-/

namespace ProcessThreadPool

open ThreadFamily

/-- Every thread inside a critical section is the holder of the mutex. -/
def Exclusive {ι : Type*} (inside : ι → Bool) (mutex : Option ι) : Prop :=
  ∀ i, inside i = true → mutex = some i

namespace Exclusive

variable {ι : Type*} {inside : ι → Bool} {mutex : Option ι} {i j : ι}

theorem eq (h : Exclusive inside mutex) (hi : inside i = true) (hj : inside j = true) : i = j :=
  Option.some.inj ((h i hi).symm.trans (h j hj))

variable [DecidableEq ι]

/-- A free mutex is acquired. -/
theorem acquire (h : Exclusive inside none) (b : Bool) :
    Exclusive (Function.update inside i b) (some i) := by
  intro j hj
  by_cases hji : j = i
  · rw [hji]
  · rw [Function.update_of_ne hji] at hj
    cases h j hj

/-- The thread inside leaves and releases the mutex. -/
theorem release (h : Exclusive inside mutex) (hi : inside i = true) :
    Exclusive (Function.update inside i false) none := by
  intro j hj
  by_cases hji : j = i
  · rw [hji, Function.update_self] at hj
    cases hj
  · rw [Function.update_of_ne hji] at hj
    exact absurd (h.eq hj hi) hji

/-- A thread moves on without entering. -/
theorem move (h : Exclusive inside mutex) {b : Bool} (hb : b = true → inside i = true) :
    Exclusive (Function.update inside i b) mutex := by
  intro j hj
  by_cases hji : j = i
  · rw [hji, Function.update_self] at hj
    rw [hji]
    exact h i (hb hj)
  · rw [Function.update_of_ne hji] at hj
    exact h j hj

end Exclusive

/-- The positions of a thread as far as a condition variable goes: whether it is blocked
without a notification, whether it is on its way to the supply, and what a notification
does. -/
structure Waiter (α : Type*) where
  asleep : α → Bool
  awake : α → Bool
  notify : α → α
  awake_of_notify : ∀ a, asleep a = true → awake (notify a) = true
  not_asleep_notify : ∀ a, asleep (notify a) = false
  not_awake_of_asleep : ∀ a, asleep a = true → awake a = false
  notify_of_awake : ∀ a, awake a = true → notify a = a

namespace Waiter

variable {ι α : Type*} (W : Waiter α)

/-- The threads after `notify_one`, which wakes the given thread; `none` stands for
nobody being asleep. -/
def notifyOne [DecidableEq ι] [Fintype ι] (f : ι → α) : Option ι → Option (ι → α)
  | some i => if W.asleep (f i) then some (Function.update f i (W.notify (f i))) else none
  | none => if ∀ i, W.asleep (f i) = false then some f else none

/-- The threads after `notify_all`. -/
def notifyAll (f : ι → α) : ι → α := fun i => W.notify (f i)

/-- While somebody sleeps, the awake threads suffice for the supply. -/
def Served [Fintype ι] (f : ι → α) (supply : ℕ) : Prop :=
  (∃ i, W.asleep (f i) = true) → supply ≤ total (fun a => (W.awake a).toNat) f

variable {W} {f g : ι → α} {supply supply' : ℕ}

section

variable [Fintype ι]

theorem Served.of_zero : W.Served f 0 := fun _ => Nat.zero_le _

theorem Served.of_none_asleep (h : ∀ i, W.asleep (f i) = false) : W.Served f supply := by
  rintro ⟨i, hi⟩
  rw [h i] at hi
  cases hi

theorem Served.mono (h : W.Served f supply) (hle : supply' ≤ supply) : W.Served f supply' :=
  fun hasleep => hle.trans (h hasleep)

/-- Somebody is awake when there is supply and somebody sleeps. -/
theorem Served.exists_awake (h : W.Served f supply) (hsupply : 0 < supply)
    (hasleep : ∃ i, W.asleep (f i) = true) : ∃ i, W.awake (f i) = true := by
  by_contra hnone
  have hzero : total (fun a => (W.awake a).toNat) f = 0 := by
    refine total_eq_zero_iff.mpr fun i => ?_
    rw [Bool.eq_false_of_not_eq_true fun hi => hnone ⟨i, hi⟩]
    rfl
  have hle := h hasleep
  omega

variable [DecidableEq ι]

/-- One thread moves and the supply changes: the books stay balanced when the thread does
not fall asleep and the supply grows by no more than the thread contributes. -/
theorem Served.update (h : W.Served f supply) {i : ι} {a : α}
    (hasleep : W.asleep a = true → W.asleep (f i) = true)
    (hle : supply' + (W.awake (f i)).toNat ≤ supply + (W.awake a).toNat) :
    W.Served (Function.update f i a) supply' := by
  rintro ⟨j, hj⟩
  have hold : ∃ k, W.asleep (f k) = true := by
    by_cases hji : j = i
    · rw [hji, Function.update_self] at hj
      exact ⟨i, hasleep hj⟩
    · rw [Function.update_of_ne hji] at hj
      exact ⟨j, hj⟩
  have hsupply := h hold
  have htotal := total_update_add (fun a => (W.awake a).toNat) f i a
  omega

/-- A thread that was on its way takes a unit and leaves. -/
theorem Served.take (h : W.Served f (supply + 1)) {i : ι} {a : α}
    (hawake : W.awake (f i) = true) (hasleep : W.asleep a = false) :
    W.Served (Function.update f i a) supply := by
  refine h.update (by rw [hasleep]; exact nofun) ?_
  rw [hawake]
  simp only [Bool.toNat_true]
  omega

/-- A unit is taken, by a thread that leaves, whether it was notified or not. -/
theorem Served.leave (h : W.Served f (supply + 1)) (i : ι) {a : α} (hasleep : W.asleep a = false) :
    W.Served (Function.update f i a) supply := by
  refine h.update (by rw [hasleep]; exact nofun) ?_
  have hone := Bool.toNat_le (W.awake (f i))
  omega

/-- A thread moves on without falling asleep. -/
theorem Served.move (h : W.Served f supply) {i : ι} {a : α} (hasleep : W.asleep a = false)
    (hawake : W.awake (f i) = true → W.awake a = true) :
    W.Served (Function.update f i a) supply := by
  refine h.update (by rw [hasleep]; exact nofun) ?_
  cases hold : W.awake (f i) with
  | false => exact Nat.add_le_add_left (Nat.zero_le _) supply
  | true => rw [hawake hold]

theorem notifyOne_cases {wake : Option ι} (hg : W.notifyOne f wake = some g) :
    (∃ i, W.asleep (f i) = true ∧ g = Function.update f i (W.notify (f i))) ∨
      (∀ i, W.asleep (f i) = false) ∧ g = f := by
  cases wake with
  | some i =>
      simp only [notifyOne] at hg
      split_ifs at hg with hi
      exact Or.inl ⟨i, hi, (Option.some.inj hg).symm⟩
  | none =>
      simp only [notifyOne] at hg
      split_ifs at hg with hnone
      exact Or.inr ⟨hnone, (Option.some.inj hg).symm⟩

/-- There is somebody whom `notify_one` can wake, or nobody sleeps. -/
theorem exists_notifyOne (f : ι → α) : ∃ wake g, W.notifyOne f wake = some g := by
  by_cases hnone : ∀ i, W.asleep (f i) = false
  · exact ⟨none, f, if_pos hnone⟩
  · obtain ⟨i, hi⟩ := not_forall.mp hnone
    exact ⟨some i, _, if_pos (Bool.eq_true_of_not_eq_false hi)⟩

theorem notifyOne_apply {wake : Option ι} (hg : W.notifyOne f wake = some g) (j : ι) :
    g j = f j ∨ g j = W.notify (f j) := by
  rcases notifyOne_cases hg with ⟨i, -, rfl⟩ | ⟨-, rfl⟩
  · by_cases hji : j = i
    · rw [hji, Function.update_self]
      exact Or.inr rfl
    · exact Or.inl (Function.update_of_ne hji _ _)
  · exact Or.inl rfl

/-- One unit more and one notification. -/
theorem Served.notifyOne (h : W.Served f supply) {wake : Option ι}
    (hg : W.notifyOne f wake = some g) : W.Served g (supply + 1) := by
  rcases notifyOne_cases hg with ⟨i, hi, rfl⟩ | ⟨hnone, rfl⟩
  · refine h.update (by rw [W.not_asleep_notify]; exact nofun) ?_
    rw [W.not_awake_of_asleep _ hi, W.awake_of_notify _ hi]
    exact le_rfl
  · exact Served.of_none_asleep hnone

/-- A spurious wakeup, or a notification of one thread that may be awake. -/
theorem Served.notify (h : W.Served f supply) (i : ι) :
    W.Served (Function.update f i (W.notify (f i))) supply :=
  h.move (W.not_asleep_notify _) fun hi => by rw [W.notify_of_awake _ hi, hi]

end

end Waiter

end ProcessThreadPool
