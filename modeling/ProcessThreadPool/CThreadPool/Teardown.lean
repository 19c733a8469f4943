import ProcessThreadPool.CThreadPool.Moves
import ProcessThreadPool.Lib.ThreadFamily
import Mathlib.Algebra.BigOperators.Fin
import Mathlib.Data.Fintype.Fin

/-!
# Teardown of the C thread pool

`threadpool_destroy` joins `threads[i]` while `i` is below `thread_count`, the
field that every leaving worker decrements. Each joined worker has left, so a
test for index `i` is passed only while `2 * i < n`: with two workers or more the
loop ends before all of them are joined, and with one worker it joins it exactly
when its first test comes before the worker's decrement. The storage itself is
safe: `threadpool_free` sees `thread_count = 0` and then takes the lock that the
last leaving worker still holds.
-/

namespace ProcessThreadPool

namespace CThreadPool

open ThreadFamily

/-- Every created thread has been joined, the pool has been given back, and no
worker used it after that. -/
def Complete {n : ℕ} {ι τ : Type*} (s : State n ι τ) : Prop :=
  (∀ i, s.joined i = true) ∧ s.storage = .freed ∧ s.stale = false

/-- The first loop test of `threadpool_destroy` is made in a pool of one worker
that has not decremented `thread_count`. -/
def FirstTestInTime {n : ℕ} {ι τ : Type*} (s : State n ι τ) (l : Action n ι τ) : Prop :=
  (∃ joinOk, l = .destroyer joinOk) → (∃ err, s.destroyer = .test 0 err) →
    n = 1 ∧ ∀ i, (s.workers i).counted = 1

/-- The first `i` threads are the joined ones, and the test before the last of
them was passed. -/
structure JoinedTo {n : ℕ} (joined : Fin n → Bool) (i : ℕ) : Prop where
  iff : ∀ j, joined j = true ↔ j.val < i
  le : i ≤ n
  few : i ≤ 1 ∨ 2 * (i - 1) < n

/-- What the destroying thread's position says about the joins and the storage. -/
def DestroyerOk {n : ℕ} (joined : Fin n → Bool) (storage : Storage) : Destroyer → Prop
  | .idle => storage = .live ∧ JoinedTo joined 0
  | .test i err =>
      storage = .live ∧ (i = 0 → err = .success) ∧ (err = .success → JoinedTo joined i)
  | .join i err => storage = .live ∧ (err = .success → JoinedTo joined i ∧ 2 * i < n)
  | .freeTest => storage = .live ∧ ∃ i, JoinedTo joined i
  | .freePool => storage = .arraysFreed ∧ ∃ i, JoinedTo joined i
  | .returned err => storage ≠ .arraysFreed ∧ (err = .success → ∃ i, JoinedTo joined i)

/-- The invariant of the teardown. -/
structure TeardownInv {n : ℕ} {ι τ : Type*} (s : State n ι τ) : Prop where
  lock_iff : ∀ i, (s.workers i).holdsLock = true ↔ s.lock = some (.worker i)
  threadCount : s.pool.threadCount = total Worker.counted s.workers
  joined : ∀ i, s.joined i = true → s.workers i = .exited
  shutdown : s.destroyer ≠ .idle → s.pool.shutdown = true
  destroyer : DestroyerOk s.joined s.storage s.destroyer
  drained : s.storage ≠ .live → ∀ i, (s.workers i).counted = 0
  exited : s.storage = .freed → ∀ i, s.workers i = .exited
  stale : s.stale = false

theorem Worker.counted_le_one {τ : Type*} (w : Worker τ) : w.counted ≤ 1 := by
  cases w <;> simp [Worker.counted]

theorem Worker.holdsLock_of_testing {τ : Type*} {w : Worker τ} (h : w.testing = true) :
    w.holdsLock = false := by
  cases w <;> first | rfl | cases h

theorem Worker.counted_of_testing {τ : Type*} {w : Worker τ} (h : w.testing = true) :
    w.counted = 1 := by
  cases w <;> first | rfl | cases h

/-- A worker that does not count and does not hold the lock has exited. -/
theorem Worker.eq_exited_of_counted {τ : Type*} {w : Worker τ} (h : w.counted = 0)
    (hlock : w.holdsLock = false) : w = .exited := by
  cases w <;> simp_all [Worker.counted, Worker.holdsLock]

/-- `threadpool_add` touches neither `thread_count` nor `shutdown`. -/
theorem threadpoolAdd_frame {τ : Type*} (p : Pool τ) (task : Option τ)
    (lockOk signalOk unlockOk : Bool) :
    (threadpoolAdd p task lockOk signalOk unlockOk).2.threadCount = p.threadCount ∧
      (threadpoolAdd p task lockOk signalOk unlockOk).2.shutdown = p.shutdown := by
  cases task with
  | none => exact ⟨rfl, rfl⟩
  | some t =>
      simp only [threadpoolAdd]
      split_ifs <;> exact ⟨rfl, rfl⟩

namespace JoinedTo

theorem zero {n : ℕ} : JoinedTo (fun _ : Fin n => false) 0 where
  iff := by simp
  le := Nat.zero_le n
  few := Or.inl (Nat.zero_le 1)

theorem succ {n i : ℕ} {joined : Fin n → Bool} (h : JoinedTo joined i)
    (hi : i < n) (hfew : 2 * i < n) :
    JoinedTo (Function.update joined ⟨i, hi⟩ true) (i + 1) where
  iff := by
    intro j
    by_cases hj : j = ⟨i, hi⟩
    · subst hj
      simp
    · rw [Function.update_of_ne hj, h.iff]
      have hne : j.val ≠ i := fun heq => hj (Fin.ext heq)
      omega
  le := hi
  few := Or.inr hfew

theorem total_eq {n i : ℕ} {joined : Fin n → Bool} (h : JoinedTo joined i) :
    total Bool.toNat joined = i := by
  have hval : ∀ j, (joined j).toNat = if j.val < i then 1 else 0 := by
    intro j
    rw [Bool.toNat, Bool.cond_eq_ite]
    exact if_congr (h.iff j) rfl rfl
  rw [total, Finset.sum_congr rfl fun j _ => hval j, ← Finset.card_filter,
    Fin.card_filter_val_lt, Nat.min_eq_right h.le]

/-- Joining everything takes a pool of at most one thread. -/
theorem le_one_of_all {n i : ℕ} {joined : Fin n → Bool} (h : JoinedTo joined i)
    (hall : ∀ j, joined j = true) : n ≤ 1 := by
  have hi : n ≤ i := by
    by_contra hlt
    have hlast := (h.iff ⟨i, by omega⟩).mp (hall _)
    simp at hlast
  have hfew := h.few
  omega

end JoinedTo

namespace TeardownInv

theorem start {n : ℕ} {ι τ : Type*} {queueSize : ℤ} :
    TeardownInv (State.start (ι := ι) (τ := τ) n queueSize) where
  lock_iff := by simp [State.start, Worker.holdsLock]
  threadCount := by
    have hall : total (Worker.counted (τ := τ)) (fun _ : Fin n => Worker.top) = n := by
      simp [total, Worker.counted]
    simp [State.start, startThreads_eq, initPool, hall]
  joined := by simp [State.start]
  shutdown := by simp [State.start]
  destroyer := ⟨rfl, JoinedTo.zero⟩
  drained := by simp [State.start]
  exited := by simp [State.start]
  stale := rfl

/-- No worker holds the lock while it is free. -/
theorem not_holdsLock {n : ℕ} {ι τ : Type*} {s : State n ι τ} (h : TeardownInv s)
    (hfree : ¬ s.lock.isSome = true) (i : Fin n) : (s.workers i).holdsLock = false := by
  rw [Bool.eq_false_iff, Ne, h.lock_iff]
  intro heq
  rw [heq] at hfree
  exact hfree rfl

theorem lock_iff_client {n : ℕ} {ι τ : Type*} {s : State n ι τ} (h : TeardownInv s)
    (hfree : ¬ s.lock.isSome = true) {lock : Option (Holder n ι)}
    (hlock : ∀ i, lock ≠ some (.worker i)) (i : Fin n) :
    (s.workers i).holdsLock = true ↔ lock = some (.worker i) := by
  rw [h.not_holdsLock hfree]
  simp [hlock i]

/-- A worker that still counts keeps the pool's storage alive. -/
theorem live {n : ℕ} {ι τ : Type*} {s : State n ι τ} (h : TeardownInv s) {i : Fin n}
    (hi : (s.workers i).counted ≠ 0) : s.storage = .live := by
  by_contra hne
  exact hi (h.drained hne i)

/-- What worker `i` may do: it changes its own state and keeps the count of
`thread_count`, the lock's holder and the shutdown flag right. -/
theorem setWorker {n : ℕ} {ι τ : Type*} {s : State n ι τ} (h : TeardownInv s)
    {i : Fin n} (hi : s.workers i ≠ .exited) {w : Worker τ} {p : Pool τ}
    {lock : Option (Holder n ι)} {stale : Bool} {taken ran : List (Option τ)}
    (hlock : ∀ j, (Function.update s.workers i w j).holdsLock = true ↔
      lock = some (.worker j))
    (hcount : p.threadCount = total Worker.counted (Function.update s.workers i w))
    (hshutdown : p.shutdown = s.pool.shutdown)
    (hle : w.counted ≤ (s.workers i).counted) (hstale : stale = false) :
    TeardownInv { s with
      pool := p
      lock := lock
      workers := Function.update s.workers i w
      stale := stale
      taken := taken
      ran := ran } where
  lock_iff := hlock
  threadCount := hcount
  joined := by
    intro j hj
    have hexited := h.joined j hj
    have hne : j ≠ i := fun heq => hi (heq ▸ hexited)
    simp only
    rw [Function.update_of_ne hne, hexited]
  shutdown := by
    intro hne
    rw [hshutdown]
    exact h.shutdown hne
  destroyer := h.destroyer
  drained := by
    intro hne
    have hold := h.drained hne
    exact forall_update (P := fun _ v => Worker.counted v = 0) hold
      (by rw [hold i] at hle; omega)
  exited := by
    intro hfreed
    exact absurd (h.exited hfreed i) hi
  stale := hstale

theorem use_eq_false {n : ℕ} {ι τ : Type*} {s : State n ι τ} (h : TeardownInv s)
    {i : Fin n} (hi : s.workers i ≠ .exited) : s.use false = false := by
  have hne : s.storage ≠ .freed := fun heq => hi (h.exited heq i)
  simp [State.use, h.stale, hne]

theorem lock_iff_update {n : ℕ} {ι τ : Type*} {s : State n ι τ} (h : TeardownInv s)
    {i : Fin n} {w : Worker τ} (hsame : w.holdsLock = (s.workers i).holdsLock) (j : Fin n) :
    (Function.update s.workers i w j).holdsLock = true ↔ s.lock = some (.worker j) := by
  revert j
  refine forall_update
    (P := fun j v => Worker.holdsLock v = true ↔ s.lock = some (.worker j)) h.lock_iff ?_
  rw [hsame, h.lock_iff]

/-- Worker `i` takes or releases the lock while no other worker holds it. -/
theorem lock_iff_own {n : ℕ} {ι τ : Type*} {s : State n ι τ} {i : Fin n}
    (hothers : ∀ j, j ≠ i → (s.workers j).holdsLock = false) {w : Worker τ}
    {lock : Option (Holder n ι)} (hown : w.holdsLock = true ↔ lock = some (.worker i))
    (hlock : ∀ j, j ≠ i → lock ≠ some (.worker j)) (j : Fin n) :
    (Function.update s.workers i w j).holdsLock = true ↔ lock = some (.worker j) := by
  by_cases hj : j = i
  · subst hj
    rw [Function.update_self]
    exact hown
  · rw [Function.update_of_ne hj, hothers j hj]
    simp [hlock j hj]

theorem threadCount_update {n : ℕ} {ι τ : Type*} {s : State n ι τ} (h : TeardownInv s)
    {i : Fin n} {w : Worker τ} (hsame : w.counted = (s.workers i).counted) :
    s.pool.threadCount = total Worker.counted (Function.update s.workers i w) := by
  rw [total_update_of_eq _ _ hsame, h.threadCount]

/-- The lock is free: no worker holds it. -/
theorem holdsLock_of_free {n : ℕ} {ι τ : Type*} {s : State n ι τ} (h : TeardownInv s)
    (hlock : s.lock = none) (i : Fin n) : (s.workers i).holdsLock = false :=
  h.not_holdsLock (by rw [hlock]; exact Bool.false_ne_true) i

theorem ne_exited_of_counted {n : ℕ} {ι τ : Type*} {s : State n ι τ} {i : Fin n}
    (hcounted : (s.workers i).counted = 1) : s.workers i ≠ .exited := by
  intro hexited
  rw [hexited] at hcounted
  cases hcounted

theorem decrement {n : ℕ} {ι τ : Type*} {s : State n ι τ} (h : TeardownInv s) {i : Fin n}
    (hw : s.workers i = .leaving) : TeardownInv { s with
      pool := { s.pool with threadCount := s.pool.threadCount - 1 }
      workers := Function.update s.workers i .unlocking
      stale := s.use false } := by
  refine h.setWorker (by simp [hw]) (h.lock_iff_update (by rw [hw]; rfl)) ?_ rfl
    (Nat.zero_le _) (h.use_eq_false (i := i) (by simp [hw]))
  have hcount := h.threadCount
  have hsum := total_update_to_zero Worker.counted s.workers i (a := .unlocking) rfl
  rw [hw] at hsum
  simp only [Worker.counted] at hsum
  simp only
  omega

theorem unlock {n : ℕ} {ι τ : Type*} {s : State n ι τ} (h : TeardownInv s) {i : Fin n}
    (hw : s.workers i = .unlocking) : TeardownInv (ι := ι) { s with
      lock := none
      workers := Function.update s.workers i .exited
      stale := s.use false } := by
  have hheld : s.lock = some (.worker i) := (h.lock_iff i).mp (by rw [hw]; rfl)
  have hothers : ∀ j, j ≠ i → (s.workers j).holdsLock = false := by
    intro j hj
    rw [Bool.eq_false_iff, Ne, h.lock_iff, hheld]
    simp [Ne.symm hj]
  exact h.setWorker (by simp [hw])
    (lock_iff_own hothers (by simp [Worker.holdsLock]) (by simp))
    (h.threadCount_update (by rw [hw]; rfl)) rfl
    (Nat.zero_le _) (h.use_eq_false (i := i) (by simp [hw]))

theorem wait {n : ℕ} {ι τ : Type*} {s : State n ι τ} (h : TeardownInv s) {i : Fin n}
    (hw : (s.workers i).testing = true) : TeardownInv { s with
      workers := Function.update s.workers i .waiting
      stale := s.use false } := by
  have hcounted := Worker.counted_of_testing hw
  exact h.setWorker (ne_exited_of_counted hcounted)
    (h.lock_iff_update (Worker.holdsLock_of_testing hw).symm)
    (h.threadCount_update hcounted.symm) rfl (by rw [hcounted]; rfl)
    (h.use_eq_false (ne_exited_of_counted hcounted))

theorem leave {n : ℕ} {ι τ : Type*} {s : State n ι τ} (h : TeardownInv s) {i : Fin n}
    (hw : (s.workers i).testing = true) (hlock : s.lock = none) : TeardownInv (ι := ι) { s with
      lock := some (.worker i)
      workers := Function.update s.workers i .leaving
      stale := s.use false } := by
  have hcounted := Worker.counted_of_testing hw
  exact h.setWorker (ne_exited_of_counted hcounted)
    (lock_iff_own (fun j _ => h.holdsLock_of_free hlock j) (by simp [Worker.holdsLock])
      fun j hj => by simp [Ne.symm hj])
    (h.threadCount_update hcounted.symm) rfl (by rw [hcounted]; rfl)
    (h.use_eq_false (ne_exited_of_counted hcounted))

theorem take {n : ℕ} {ι τ : Type*} {s : State n ι τ} (h : TeardownInv s) {i : Fin n}
    (hw : (s.workers i).testing = true) : TeardownInv { s with
      pool := (takeTask s.pool).2
      workers := Function.update s.workers i (.running (takeTask s.pool).1)
      stale := s.use true
      taken := s.taken ++ [(takeTask s.pool).1] } := by
  have hcounted := Worker.counted_of_testing hw
  have hlive : s.storage = .live := h.live (i := i) (by rw [hcounted]; exact one_ne_zero)
  exact h.setWorker (ne_exited_of_counted hcounted)
    (h.lock_iff_update (Worker.holdsLock_of_testing hw).symm)
    (h.threadCount_update hcounted.symm) rfl (by rw [hcounted]; rfl)
    (by simp [State.use, h.stale, hlive])

/-- The loop test for index `i` is passed only while `2 * i < n`. -/
theorem two_mul_lt_of_test {n : ℕ} {ι τ : Type*} {s : State n ι τ} (h : TeardownInv s)
    {i : ℕ} (hjoined : JoinedTo s.joined i) (hlt : (i : ℤ) < s.pool.threadCount) :
    2 * i < n := by
  have hone : ∀ j, (s.workers j).counted + (s.joined j).toNat ≤ 1 := by
    intro j
    by_cases hj : s.joined j = true
    · simp [hj, h.joined j hj, Worker.counted]
    · simpa [hj] using (s.workers j).counted_le_one
  have hsum := total_add_total_le hone
  rw [hjoined.total_eq, Fintype.card_fin] at hsum
  rw [h.threadCount] at hlt
  omega

/-- What the destroying thread may do once it has set `shutdown`: it joins workers that
have exited, and gives storage back when no worker counts. -/
theorem setDestroyer {n : ℕ} {ι τ : Type*} {s : State n ι τ} (h : TeardownInv s)
    (hset : s.destroyer ≠ .idle) {d : Destroyer} {joined : Fin n → Bool}
    {storage : Storage} (hjoined : ∀ i, joined i = true → s.workers i = .exited)
    (hok : DestroyerOk joined storage d)
    (hdrained : storage ≠ .live → ∀ i, (s.workers i).counted = 0)
    (hexited : storage = .freed → ∀ i, s.workers i = .exited) :
    TeardownInv { s with destroyer := d, joined := joined, storage := storage } where
  lock_iff := h.lock_iff
  threadCount := h.threadCount
  joined := hjoined
  shutdown := fun _ => h.shutdown hset
  destroyer := hok
  drained := hdrained
  exited := hexited
  stale := h.stale

/-- What the position of the destroying thread says. -/
theorem destroyerOk {n : ℕ} {ι τ : Type*} {s : State n ι τ} (h : TeardownInv s)
    {d : Destroyer} (hd : s.destroyer = d) : DestroyerOk s.joined s.storage d :=
  hd ▸ h.destroyer

theorem add {n : ℕ} {ι τ : Type*} {s : State n ι τ} (h : TeardownInv s) (hlock : s.lock = none)
    (client : ι) (task : Option τ) (lockOk signalOk unlockOk : Bool) :
    TeardownInv (addStep s client task lockOk signalOk unlockOk) := by
  obtain ⟨hcount, hshutdown⟩ := threadpoolAdd_frame s.pool task lockOk signalOk unlockOk
  refine { h with
    lock_iff := h.lock_iff_client (by simp [hlock]) ?_
    threadCount := hcount.trans h.threadCount
    shutdown := fun hne => hshutdown.trans (h.shutdown hne) }
  intro i
  simp only [addStep, lockAfter, hlock]
  split_ifs <;> simp

/-- Nobody destroys the pool before `shutdown` is set. -/
theorem idle_of_running {n : ℕ} {ι τ : Type*} {s : State n ι τ} (h : TeardownInv s)
    (hshutdown : s.pool.shutdown = false) : s.destroyer = .idle := by
  by_contra hne
  rw [h.shutdown hne] at hshutdown
  cases hshutdown

theorem step {n : ℕ} {ι τ : Type*} {s t : State n ι τ} {l : Action n ι τ}
    (h : TeardownInv s) (hstep : s.step l = some t) : TeardownInv t := by
  cases step_moves hstep with
  | add hlock => exact h.add hlock _ _ _ _ _
  | queueCount | notLocked => exact h
  | destroyAgain hlock hshutdown =>
      exact { h with lock_iff := h.lock_iff_client (by simp [hlock]) (by simp) }
  | destroyFails hlock hshutdown hfail =>
      have hok := h.destroyerOk (h.idle_of_running hshutdown)
      exact { h with
        lock_iff := h.lock_iff_client (by simp [hlock]) (by simp)
        shutdown := fun _ => rfl
        destroyer := ⟨by simp [hok.1], by simp⟩ }
  | destroy hlock hshutdown =>
      have hok := h.destroyerOk (h.idle_of_running hshutdown)
      exact { h with
        shutdown := fun _ => rfl
        destroyer := ⟨hok.1, fun _ => rfl, fun _ => hok.2⟩ }
  | joinNext hd hlt =>
      obtain ⟨hlive, -, hjoined⟩ := h.destroyerOk hd
      exact h.setDestroyer (by simp [hd]) h.joined
        ⟨hlive, fun herr => ⟨hjoined herr, h.two_mul_lt_of_test (hjoined herr) hlt⟩⟩
        h.drained h.exited
  | joinedAll hd hge =>
      obtain ⟨hlive, -, hjoined⟩ := h.destroyerOk hd
      exact h.setDestroyer (by simp [hd]) h.joined ⟨hlive, _, hjoined rfl⟩ h.drained h.exited
  | joinedNotAll hd hge herr =>
      obtain ⟨hlive, -, -⟩ := h.destroyerOk hd
      exact h.setDestroyer (by simp [hd]) h.joined
        ⟨by simp [hlive], fun herr' => absurd herr' herr⟩ h.drained h.exited
  | joinFails hd =>
      obtain ⟨hlive, -⟩ := h.destroyerOk hd
      exact h.setDestroyer (by simp [hd]) h.joined ⟨hlive, by simp, by simp⟩ h.drained h.exited
  | @join i err hd hw =>
      obtain ⟨hlive, hjoined⟩ := h.destroyerOk hd
      refine h.setDestroyer (by simp [hd]) ?_
        ⟨hlive, by simp, fun herr => (hjoined herr).1.succ i.isLt (hjoined herr).2⟩
        h.drained h.exited
      exact forall_update (P := fun j b => b = true → s.workers j = .exited) h.joined
        fun _ => hw
  | refuse hd hpos =>
      obtain ⟨hlive, hjoined⟩ := h.destroyerOk hd
      exact h.setDestroyer (by simp [hd]) h.joined ⟨by simp [hlive], fun _ => hjoined⟩
        h.drained h.exited
  | freeArrays hd hpos =>
      obtain ⟨hlive, hjoined⟩ := h.destroyerOk hd
      have hzero : total Worker.counted s.workers = 0 := by
        have hcount := h.threadCount
        omega
      exact h.setDestroyer (by simp [hd]) h.joined ⟨rfl, hjoined⟩
        (fun _ => total_eq_zero_iff.mp hzero) (by simp)
  | freePool hd hlock =>
      obtain ⟨hfreed, hjoined⟩ := h.destroyerOk hd
      -- The lock is free, so the last worker to decrement has unlocked it too.
      have hzero := h.drained (by simp [hfreed])
      exact h.setDestroyer (by simp [hd]) h.joined ⟨by simp, fun _ => hjoined⟩
        (fun _ => hzero)
        fun _ i => Worker.eq_exited_of_counted (hzero i) (h.holdsLock_of_free hlock i)
  | wait hw hlock hwait => exact h.wait hw
  | leave hw hlock hwait hshutdown => exact h.leave hw hlock
  | take hw hlock hwait hshutdown => exact h.take hw
  | run hw =>
      exact h.setWorker (by simp [hw]) (h.lock_iff_update (by rw [hw]; rfl))
        (h.threadCount_update (by rw [hw]; rfl)) rfl (by rw [hw]; rfl) h.stale
  | decrement hw => exact h.decrement hw
  | unlock hw => exact h.unlock hw

end TeardownInv

/-- Joining all of two or more workers never happens. -/
theorem TeardownInv.le_one_of_complete {n : ℕ} {ι τ : Type*} {s : State n ι τ}
    (h : TeardownInv s) (hret : s.destroyer = .returned .success)
    (hall : ∀ i, s.joined i = true) : n ≤ 1 := by
  have hok := h.destroyer
  rw [hret] at hok
  obtain ⟨i, hjoined⟩ := hok.2 rfl
  exact hjoined.le_one_of_all hall

/-- Only the destroying thread moves itself, once a call that finds `shutdown`
unset has set it going. -/
theorem step_frame {n : ℕ} {ι τ : Type*} {s t : State n ι τ} {l : Action n ι τ}
    (hl : ∀ joinOk, l ≠ .destroyer joinOk) (hstep : s.step l = some t) :
    (t.destroyer = s.destroyer ∧ t.joined = s.joined ∧ t.storage = s.storage) ∨
      s.pool.shutdown = false ∧
        (t.destroyer = .test 0 .success ∨ t.destroyer = .returned .lockFailure) := by
  cases step_moves hstep with
  | destroyFails hlock hshutdown hfail => exact Or.inr ⟨hshutdown, Or.inr rfl⟩
  | destroy hlock hshutdown => exact Or.inr ⟨hshutdown, Or.inl rfl⟩
  | joinNext | joinedAll | joinedNotAll | joinFails | join | refuse | freeArrays | freePool =>
      exact absurd rfl (hl _)
  | _ => exact Or.inl ⟨rfl, rfl, rfl⟩

/-- The join loop ended before it joined anything. -/
def Missed {n : ℕ} {ι τ : Type*} (s : State n ι τ) : Prop :=
  (s.destroyer = .freeTest ∨ s.destroyer = .freePool ∨ ∃ err, s.destroyer = .returned err) ∧
    ∀ i, s.joined i = false

/-- After the join loop, nothing is joined any more. -/
theorem Missed.step {n : ℕ} {ι τ : Type*} {s t : State n ι τ} {l : Action n ι τ}
    (hinv : TeardownInv s) (h : Missed s) (hstep : s.step l = some t) : Missed t := by
  obtain ⟨hd, hjoined⟩ := h
  have hshutdown : s.pool.shutdown = true := by
    apply hinv.shutdown
    rcases hd with hd | hd | ⟨err, hd⟩ <;> simp [hd]
  cases step_moves hstep with
  | refuse | freePool => exact ⟨Or.inr (Or.inr ⟨_, rfl⟩), hjoined⟩
  | freeArrays => exact ⟨Or.inr (Or.inl rfl), hjoined⟩
  | destroyFails hlock hfirst hfail =>
      rw [hshutdown] at hfirst
      cases hfirst
  | destroy hlock hfirst =>
      rw [hshutdown] at hfirst
      cases hfirst
  | joinNext hd' | joinedAll hd' | joinedNotAll hd' | joinFails hd' | join hd' =>
      rcases hd with hd | hd | ⟨err, hd⟩ <;> cases hd.symm.trans hd'
  | _ => exact ⟨hd, hjoined⟩

/-- A first test that comes after the only worker's decrement finds nothing to
join. -/
theorem missed_of_late {ι τ : Type*} {s t : State 1 ι τ} {joinOk : Bool} {err : Error}
    (hinv : TeardownInv s) (hd : s.destroyer = .test 0 err)
    (hlate : ¬ ∀ i, (s.workers i).counted = 1)
    (hstep : destroyerStep s joinOk = some t) : Missed t := by
  have hzero : (s.workers 0).counted = 0 := by
    by_contra hne
    refine hlate fun i => ?_
    rw [Fin.fin_one_eq_zero i]
    exact le_antisymm (Worker.counted_le_one _) (Nat.one_le_iff_ne_zero.mpr hne)
  have hcount := hinv.threadCount
  rw [total, Fin.sum_univ_one, hzero] at hcount
  have hok := hinv.destroyer
  rw [hd] at hok
  obtain ⟨-, herr, hjoined⟩ := hok
  obtain rfl := herr rfl
  simp only [destroyerStep, hd, hcount, Nat.cast_zero, lt_irrefl, if_false, if_true,
    Option.some.injEq] at hstep
  subst hstep
  refine ⟨Or.inl rfl, fun i => ?_⟩
  rw [Bool.eq_false_iff, Ne, (hjoined rfl).iff]
  exact Nat.not_lt_zero _

/-- A run that ends with every worker joined made its first test in time. -/
theorem run_firstTestInTime {n : ℕ} {ι τ : Type*} {queueSize : ℤ} {s t : State n ι τ}
    {ls : List (Action n ι τ)} (hn : 1 ≤ n) (hinv : TeardownInv s)
    (hrun : Transition.Run (threadpool n queueSize) s ls t)
    (hret : t.destroyer = .returned .success) (hall : ∀ i, t.joined i = true) :
    Transition.Run ((threadpool n queueSize).restrict FirstTestInTime) s ls t := by
  induction hrun with
  | nil s => exact .nil s
  | @cons s u t l ls hstep hrest ih =>
      refine .cons ⟨?_, hstep⟩ (ih (hinv.step hstep) hret hall)
      rintro ⟨joinOk, rfl⟩ ⟨err, hd⟩
      have hend : TeardownInv t :=
        hrest.preserves (fun _ _ _ h hs => h.step hs) (hinv.step hstep)
      obtain rfl : n = 1 := le_antisymm (hend.le_one_of_complete hret hall) hn
      refine ⟨rfl, ?_⟩
      by_contra hlate
      -- Nothing is joined at the late test, and nothing is joined after it.
      have hmissed : TeardownInv t ∧ Missed t :=
        hrest.preserves (I := fun s => TeardownInv s ∧ Missed s)
          (fun _ _ _ h hs => ⟨h.1.step hs, h.2.step h.1 hs⟩)
          ⟨hinv.step hstep, missed_of_late hinv hd hlate hstep⟩
      have hjoined := hall 0
      rw [hmissed.2.2 0] at hjoined
      cases hjoined

/-- What the destroying thread has achieved at each point when its first test
is made in time. -/
def InTime {n : ℕ} {ι τ : Type*} (s : State n ι τ) : Prop :=
  match s.destroyer with
  | .idle => True
  | .test i err => i = 0 ∨ n = 1 ∧ (err = .success → ∀ j, s.joined j = true)
  | .join i _ => n = 1 ∧ i = 0
  | .freeTest | .freePool => ∀ j, s.joined j = true
  | .returned err => err = .success → (∀ j, s.joined j = true) ∧ s.storage = .freed

/-- When the first test is in time, the only worker is joined and the next test fails. -/
theorem InTime.test {n : ℕ} {ι τ : Type*} {s : State n ι τ} {i : ℕ} {err : Error}
    (hinv : TeardownInv s) (h : InTime s) (hd : s.destroyer = .test i err)
    (hfirst : i = 0 → n = 1 ∧ ∀ i, (s.workers i).counted = 1) :
    n = 1 ∧ ((i : ℤ) < s.pool.threadCount ↔ i = 0) ∧
      (i ≠ 0 → err = .success → ∀ j, s.joined j = true) := by
  have hcount := hinv.threadCount
  simp only [InTime, hd] at h
  by_cases hi : i = 0
  · subst hi
    obtain ⟨rfl, hcounted⟩ := hfirst rfl
    refine ⟨rfl, iff_of_true ?_ rfl, fun hne => absurd rfl hne⟩
    rw [hcount, total, Fin.sum_univ_one, hcounted 0]
    simp
  · obtain ⟨rfl, hjoined⟩ := h.resolve_left hi
    have hle := total_le_card Worker.counted_le_one s.workers
    rw [Fintype.card_fin] at hle
    exact ⟨rfl, iff_of_false (by omega) hi, fun _ => hjoined⟩

theorem InTime.step {n : ℕ} {ι τ : Type*} {s t : State n ι τ} {l : Action n ι τ}
    (hinv : TeardownInv s) (h : InTime s) (hfirst : FirstTestInTime s l)
    (hstep : s.step l = some t) : InTime t := by
  have htest : ∀ {joinOk : Bool} {i : ℕ} {err : Error}, l = .destroyer joinOk →
      s.destroyer = .test i err →
      n = 1 ∧ ((i : ℤ) < s.pool.threadCount ↔ i = 0) ∧
        (i ≠ 0 → err = .success → ∀ j, s.joined j = true) := by
    intro joinOk i err hl hd
    refine h.test hinv hd fun hi => hfirst ⟨joinOk, hl⟩ ⟨err, ?_⟩
    rw [hd, hi]
  cases step_moves hstep with
  | joinNext hd hlt =>
      obtain ⟨rfl, hzero, -⟩ := htest rfl hd
      exact ⟨rfl, hzero.mp hlt⟩
  | joinedAll hd hge =>
      obtain ⟨-, hzero, hjoined⟩ := htest rfl hd
      exact hjoined (fun hi => hge (hzero.mpr hi)) rfl
  | joinedNotAll hd hge herr => exact fun herr' => absurd herr' herr
  | joinFails hd =>
      simp only [InTime, hd] at h
      exact Or.inr ⟨h.1, by simp⟩
  | @join i err hd hw =>
      simp only [InTime, hd] at h
      obtain ⟨rfl, hi⟩ := h
      refine Or.inr ⟨rfl, fun _ j => ?_⟩
      rw [Fin.fin_one_eq_zero j, Fin.fin_one_eq_zero i]
      exact Function.update_self (0 : Fin 1) true s.joined
  | refuse hd hpos =>
      simp only [InTime, hd] at h
      have hzero : total Worker.counted s.workers = 0 :=
        total_eq_zero fun j => by rw [hinv.joined j (h j)]; rfl
      have hcount := hinv.threadCount
      omega
  | freeArrays hd hpos =>
      simp only [InTime, hd] at h
      exact h
  | freePool hd hlock =>
      simp only [InTime, hd] at h
      exact fun _ => ⟨h, rfl⟩
  | destroyFails => exact fun herr => by cases herr
  | destroy => exact Or.inl rfl
  | _ => exact h

/-- A run in which `threadpool_destroy` returns `THREADPOOL_SUCCESS` has joined
every worker and given back the whole pool exactly when its first loop test came
in time. -/
theorem teardown_complete_iff {n : ℕ} {ι τ : Type*} {queueSize : ℤ} {s : State n ι τ}
    {ls : List (Action n ι τ)} (hn : 1 ≤ n)
    (hrun : Transition.Run (threadpool n queueSize) (State.start n queueSize) ls s)
    (hret : s.destroyer = .returned .success) :
    Complete s ↔ Transition.Run ((threadpool n queueSize).restrict FirstTestInTime)
      (State.start n queueSize) ls s := by
  constructor
  · intro hcomplete
    exact run_firstTestInTime hn TeardownInv.start hrun hret hcomplete.1
  · intro hfirst
    have hend : TeardownInv s ∧ InTime s :=
      hfirst.preserves (I := fun s => TeardownInv s ∧ InTime s)
        (fun _ _ _ h hs => ⟨h.1.step hs.2, h.2.step h.1 hs.1 hs.2⟩)
        ⟨TeardownInv.start, trivial⟩
    have hdone := hend.2
    rw [InTime, hret] at hdone
    obtain ⟨hjoined, hfreed⟩ := hdone rfl
    exact ⟨hjoined, hfreed, hend.1.stale⟩

theorem teardown_complete_one : ∃ s : State 1 Unit Unit,
    s.destroyer = .returned .success ∧
      Transition.Run ((threadpool 1 1).restrict FirstTestInTime) (State.start 1 1)
        [.destroy () true true true, .destroyer true, .worker 0, .worker 0, .worker 0,
          .destroyer true, .destroyer true, .destroyer true, .destroyer true] s := by
  refine ⟨_, ?_, (teardown_complete_iff (by decide) (Transition.run_ofFun_iff.mpr rfl) ?_).mp
    ⟨?_, ?_, ?_⟩⟩
  · rfl
  · rfl
  · decide
  · rfl
  · rfl

/-- Two workers: thread 0 is joined, its decrement ends the loop, and
`threadpool_free` refuses because thread 1 still counts. -/
theorem teardown_incomplete_two : ¬ ∀ (n : ℕ) (s : State n Unit Unit), 1 ≤ n →
    Transition.Reachable (threadpool n 1) s → s.destroyer = .returned .success →
    Complete s := by
  intro hclaim
  have hrun : ∃ s : State 2 Unit Unit,
      Transition.exec State.step (State.start 2 1)
        [.destroy () true true true, .destroyer true, .worker 0, .worker 0, .worker 0,
          .destroyer true, .destroyer true, .destroyer true] = some s ∧
        s.destroyer = .returned .success ∧ s.joined 1 = false :=
    ⟨_, rfl, rfl, rfl⟩
  obtain ⟨s, hexec, hret, hmissed⟩ := hrun
  have hcomplete := hclaim 2 s (by decide)
    (Transition.reachable_ofFun_iff.mpr ⟨_, hexec⟩) hret
  rw [hcomplete.1 1] at hmissed
  cases hmissed

end CThreadPool

end ProcessThreadPool
