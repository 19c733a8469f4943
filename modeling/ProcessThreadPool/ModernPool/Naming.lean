import ProcessThreadPool.Lib.Decimal
import ProcessThreadPool.ModernPool.Mapping

/-!
# The names of the shared-memory objects

`worker_create` formats `/pool_%s_worker_%u` into 64 bytes, and a pool name may have 63
characters, so the number of the worker may be cut off, and so may the end of the pool name.
Pool names may contain the text between the two fields. `shm_create` unlinks an object that
already has the name.
-/

namespace ProcessThreadPool

namespace ModernPool

open Decimal

/-- `SHM_NAME_MAX_LEN`. -/
def shmNameMaxLen : ℕ := 64

/-- The name that `pool_create` keeps in the 64 bytes of `pool_name`. -/
def storedPoolName (name : List UInt8) : List UInt8 := name.take 63

/-- The name of a pool and the number of a worker in it. -/
structure WorkerKey where
  poolName : List UInt8
  workerId : ℕ
  deriving DecidableEq, Repr

/-- The name of the pool is one that `pool_create` stores, and the number is one of a
worker. -/
def WorkerKey.Valid (w : WorkerKey) : Prop :=
  (∃ name, 0 ∉ name ∧ w.poolName = storedPoolName name) ∧ w.workerId < maxWorkers.toNat

/-- The bytes of `"/pool_"`. -/
def poolText : List UInt8 := [47, 112, 111, 111, 108, 95]

/-- The bytes of `"_worker"`. -/
def workerText : List UInt8 := [95, 119, 111, 114, 107, 101, 114]

/-- What follows the pool name: `_worker_%u`. -/
def WorkerKey.suffix (w : WorkerKey) : List UInt8 := workerText ++ 95 :: decimal w.workerId

/-- What `snprintf` leaves of a text in a buffer of the given size. -/
def snprintf (size : ℕ) (text : List UInt8) : List UInt8 := text.take (size - 1)

/-- `shm_name` after `worker_create`. -/
def shmName (w : WorkerKey) : List UInt8 :=
  snprintf shmNameMaxLen (poolText ++ (w.poolName ++ w.suffix))

/-- How the system calls of `shm_create` end: `shm_open` fails for another reason than an
existing object, the second `shm_open`, `ftruncate` and `mmap` succeed. -/
structure ShmCalls where
  refused : Bool
  reopened : Bool
  sized : Bool
  mapped : Bool
  deriving DecidableEq, Repr

/-- `shm_create`: the new object, if there is one, and the objects by their names. -/
def shmCreate (objects : List UInt8 → Option ℕ) (name : List UInt8) (object : ℕ)
    (calls : ShmCalls) : Option ℕ × (List UInt8 → Option ℕ) :=
  if calls.refused then (none, objects)
  else if (objects name).isSome && !calls.reopened then
    (none, Function.update objects name none)
  else if !calls.sized || !calls.mapped then (none, Function.update objects name none)
  else (some object, Function.update objects name (some object))

/-- The names differ, and `shm_create` for the second worker leaves the object of the first
one under its name. -/
structure KeptApart (p q : WorkerKey) : Prop where
  names : shmName p ≠ shmName q
  objects : ∀ (objects : List UInt8 → Option ℕ) (object other : ℕ) (calls : ShmCalls),
    objects (shmName p) = some object → other ≠ object →
      (shmCreate objects (shmName q) other calls).2 (shmName p) = some object

/-- The characters that the buffer has for what follows the pool name. -/
def WorkerKey.room (w : WorkerKey) : ℕ := 57 - w.poolName.length

/-- The pool name goes on with `more`, and `more` begins like the suffix of the worker, as far
as there is room, or reaches up to the separator where there is room for no digit. -/
def WorkerKey.Continues (w : WorkerKey) (more : List UInt8) : Prop :=
  w.room ≤ more.length ∧ more.take w.room = w.suffix.take w.room ∨
    w.poolName.length = 49 ∧ more = workerText

/-- Two workers of one pool are told apart by the digits that there is room for, two pools
neither of whose names begins the other by the first 57 characters, and a pool whose name
begins another one by what follows it there. -/
structure Distinguished (p q : WorkerKey) : Prop where
  samePool : p.poolName = q.poolName →
    (decimal p.workerId).take (49 - p.poolName.length) ≠
      (decimal q.workerId).take (49 - p.poolName.length)
  otherPool : ¬ p.poolName <+: q.poolName → ¬ q.poolName <+: p.poolName →
    p.poolName.take 57 ≠ q.poolName.take 57
  longer : ∀ more ≠ [], q.poolName = p.poolName ++ more → ¬ p.Continues more
  shorter : ∀ more ≠ [], p.poolName = q.poolName ++ more → ¬ q.Continues more

section

variable {p q : WorkerKey}

/-- The names agree when the 57 characters behind `/pool_` do. -/
theorem shmName_eq_iff : shmName p = shmName q ↔
    (p.poolName ++ p.suffix).take 57 = (q.poolName ++ q.suffix).take 57 := by
  have hroom : ∀ text : List UInt8,
      snprintf shmNameMaxLen (poolText ++ text) = poolText ++ text.take 57 := by
    intro text
    have hsize : shmNameMaxLen - 1 = poolText.length + 57 := rfl
    rw [snprintf, hsize, List.take_length_add_append]
  rw [shmName, shmName, hroom, hroom, List.append_cancel_left_eq]

/-- The suffix is eight characters and the number. -/
theorem suffix_eq (w : WorkerKey) : w.suffix = (workerText ++ [95]) ++ decimal w.workerId := by
  rw [WorkerKey.suffix, List.append_assoc, List.singleton_append]

/-- The first eight characters of the suffix do not depend on the worker. -/
theorem take_suffix_of_le {w : WorkerKey} {n : ℕ} (hn : n ≤ 8) :
    w.suffix.take n = (workerText ++ [95]).take n := by
  rw [suffix_eq, List.take_append_of_le_length hn]

theorem take_suffix_add {w : WorkerKey} (n : ℕ) :
    w.suffix.take (8 + n) = (workerText ++ [95]) ++ (decimal w.workerId).take n := by
  have hlength : 8 = (workerText ++ [95]).length := rfl
  rw [suffix_eq, hlength, List.take_length_add_append]

/-- Behind a common pool name only the digits count. -/
theorem take_suffix_eq_iff {n : ℕ} : p.suffix.take n = q.suffix.take n ↔
    (decimal p.workerId).take (n - 8) = (decimal q.workerId).take (n - 8) := by
  rcases Nat.le_total n 8 with hn | hn
  · rw [take_suffix_of_le hn, take_suffix_of_le hn, Nat.sub_eq_zero_of_le hn]
    simp only [List.take_zero]
  · obtain ⟨m, rfl⟩ := Nat.exists_eq_add_of_le hn
    rw [take_suffix_add, take_suffix_add, List.append_cancel_left_eq, Nat.add_sub_cancel_left]

/-- Workers of one pool. -/
theorem shmName_eq_iff_of_samePool (hsame : p.poolName = q.poolName) :
    shmName p = shmName q ↔ (decimal p.workerId).take (49 - p.poolName.length) =
      (decimal q.workerId).take (49 - p.poolName.length) := by
  have hroom : 57 - p.poolName.length - 8 = 49 - p.poolName.length := by omega
  rw [shmName_eq_iff, ← hsame, List.take_append, List.take_append, List.append_cancel_left_eq,
    take_suffix_eq_iff, hroom]

/-- Two names that differ at some character both have it. -/
theorem exists_fork {name other : List UInt8} (h : ¬ name <+: other) (h' : ¬ other <+: name) :
    ∃ common x y rest rest', x ≠ y ∧ name = common ++ x :: rest ∧
      other = common ++ y :: rest' := by
  induction name generalizing other with
  | nil => exact absurd (List.nil_prefix) h
  | cons x rest ih =>
    cases other with
    | nil => exact absurd (List.nil_prefix) h'
    | cons y rest' =>
      by_cases hxy : x = y
      · rw [hxy, List.prefix_cons_inj] at h h'
        obtain ⟨common, a, b, s, s', hab, rfl, rfl⟩ := ih h h'
        exact ⟨y :: common, a, b, s, s', hab, by rw [hxy, List.cons_append], rfl⟩
      · exact ⟨[], x, y, rest, rest', hxy, rfl, rfl⟩

theorem take_fork_iff {common rest rest' : List UInt8} {x y : UInt8} {n : ℕ} (hxy : x ≠ y) :
    (common ++ x :: rest).take n = (common ++ y :: rest').take n ↔ n ≤ common.length := by
  rw [List.take_append, List.take_append, List.append_cancel_left_eq,
    ← Nat.sub_eq_zero_iff_le]
  cases n - common.length with
  | zero => simp only [List.take_zero]
  | succ k =>
    rw [List.take_succ_cons, List.take_succ_cons, List.cons.injEq]
    exact ⟨fun h => absurd h.1 hxy, fun h => absurd h (Nat.succ_ne_zero k)⟩

/-- Pools neither of whose names begins the other. -/
theorem shmName_eq_iff_of_fork (h : ¬ p.poolName <+: q.poolName)
    (h' : ¬ q.poolName <+: p.poolName) :
    shmName p = shmName q ↔ p.poolName.take 57 = q.poolName.take 57 := by
  obtain ⟨common, x, y, rest, rest', hxy, hp, hq⟩ := exists_fork h h'
  rw [shmName_eq_iff, hp, hq, List.append_assoc, List.append_assoc, List.cons_append,
    List.cons_append, take_fork_iff hxy, take_fork_iff hxy]

theorem getElem?_suffix {w : WorkerKey} (i : ℕ) : w.suffix[i]? =
    if i < 8 then (workerText ++ [95])[i]? else (decimal w.workerId)[i - 8]? := by
  rw [suffix_eq, List.getElem?_append]
  rfl

/-- A digit is at least `0` and at most `9`. -/
theorem digit_of_getElem? {w : WorkerKey} {i : ℕ} {b : UInt8} (hi : 8 ≤ i)
    (h : w.suffix[i]? = some b) : 48 ≤ b.toNat ∧ b.toNat ≤ 57 := by
  rw [getElem?_suffix, if_neg (by omega)] at h
  exact mem_decimal (List.mem_of_getElem? h)

/-- The separator stands in two places of a suffix. -/
theorem separator_index {w : WorkerKey} {i : ℕ} (h : w.suffix[i]? = some 95) :
    i = 0 ∨ i = 7 := by
  rcases Nat.lt_or_ge i 8 with hi | hi
  · have hplaces : ∀ j < 8, (workerText ++ [95])[j]? = some 95 → j = 0 ∨ j = 7 := by decide
    rw [getElem?_suffix, if_pos hi] at h
    exact hplaces i hi h
  · exact absurd (digit_of_getElem? hi h).2 (by decide)

/-- A suffix that begins in a name and goes on with another suffix. -/
theorem take_suffix_continued {more : List UInt8} {n : ℕ} (hmore : more ≠ [])
    (hn : more.length < n) :
    p.suffix.take n = (more ++ q.suffix).take n ↔ n = 8 ∧ more = workerText := by
  have hpos : 0 < more.length := List.length_pos_of_ne_nil hmore
  constructor
  · intro h
    have hat : ∀ i < n, p.suffix[i]? = (more ++ q.suffix)[i]? := by
      intro i hi
      rw [← List.getElem?_take_of_lt hi, h, List.getElem?_take_of_lt hi]
    have hbehind : ∀ i, (more ++ q.suffix)[more.length + i]? = q.suffix[i]? := by
      intro i
      rw [List.getElem?_append_right (Nat.le_add_right _ _), Nat.add_sub_cancel_left]
    have hseparator : p.suffix[more.length]? = some 95 := by
      rw [hat _ hn, ← Nat.add_zero more.length, hbehind, getElem?_suffix, if_pos (by omega)]
      rfl
    have hlength : more.length = 7 := by
      rcases separator_index hseparator with h0 | h7
      · omega
      · exact h7
    have hword : more = workerText := by
      have htake := congrArg (List.take 7) h
      rw [List.take_take, List.take_take, Nat.min_eq_left (by omega),
        take_suffix_of_le (by omega), ← hlength, List.take_left] at htake
      rw [← htake, hlength]
      rfl
    refine ⟨?_, hword⟩
    by_contra hne
    -- One more place, and a digit of the first name stands where the second has a letter.
    have hletter : p.suffix[8]? = some 119 := by
      have hplace : 8 = more.length + 1 := by omega
      rw [hat 8 (by omega), hplace, hbehind, getElem?_suffix, if_pos (by omega)]
      rfl
    exact absurd (digit_of_getElem? le_rfl hletter).2 (by decide)
  · rintro ⟨rfl, rfl⟩
    rw [take_suffix_of_le le_rfl]
    rfl

/-- A pool whose name goes on where the other one ends. -/
theorem shmName_eq_iff_of_append {more : List UInt8} (hmore : more ≠ [])
    (hname : q.poolName = p.poolName ++ more) : shmName p = shmName q ↔ p.Continues more := by
  have htake : shmName p = shmName q ↔
      p.suffix.take p.room = (more ++ q.suffix).take p.room := by
    rw [shmName_eq_iff, hname, List.append_assoc, List.take_append, List.take_append,
      List.append_cancel_left_eq, WorkerKey.room]
  rw [htake, WorkerKey.Continues]
  rcases Nat.lt_or_ge more.length p.room with hn | hn
  · have hroom : p.room = 8 ↔ p.poolName.length = 49 := by
      rw [WorkerKey.room]
      omega
    rw [take_suffix_continued hmore hn, hroom, or_iff_right fun h => absurd h.1 (by omega)]
  · have hword : ¬ (p.poolName.length = 49 ∧ more = workerText) := by
      rintro ⟨h49, rfl⟩
      rw [WorkerKey.room, h49] at hn
      exact absurd hn (by decide)
    rw [List.take_append_of_le_length hn, or_iff_left hword, and_iff_right hn, eq_comm]

theorem shmName_ne_iff : shmName p ≠ shmName q ↔ Distinguished p q := by
  constructor
  · intro h
    refine ⟨fun hsame => ?_, fun hp hq => ?_, fun more hmore hname => ?_,
      fun more hmore hname => ?_⟩
    · rwa [ne_eq, shmName_eq_iff_of_samePool hsame] at h
    · rwa [ne_eq, shmName_eq_iff_of_fork hp hq] at h
    · rwa [ne_eq, shmName_eq_iff_of_append hmore hname] at h
    · rwa [ne_comm, ne_eq, shmName_eq_iff_of_append hmore hname] at h
  · intro h
    by_cases hsame : p.poolName = q.poolName
    · rw [ne_eq, shmName_eq_iff_of_samePool hsame]
      exact h.samePool hsame
    by_cases hp : p.poolName <+: q.poolName
    · obtain ⟨more, hmore⟩ := hp
      have hne : more ≠ [] := by
        rintro rfl
        exact hsame (by rw [← hmore, List.append_nil])
      rw [ne_eq, shmName_eq_iff_of_append hne hmore.symm]
      exact h.longer more hne hmore.symm
    by_cases hq : q.poolName <+: p.poolName
    · obtain ⟨more, hmore⟩ := hq
      have hne : more ≠ [] := by
        rintro rfl
        exact hsame (by rw [← hmore, List.append_nil])
      rw [ne_comm, ne_eq, shmName_eq_iff_of_append hne hmore.symm]
      exact h.shorter more hne hmore.symm
    rw [ne_eq, shmName_eq_iff_of_fork hp hq]
    exact h.otherPool hp hq

/-- `shm_create` touches only the object of its own name. -/
theorem shmCreate_of_ne {objects : List UInt8 → Option ℕ} {name other : List UInt8} {object : ℕ}
    {calls : ShmCalls} (h : other ≠ name) :
    (shmCreate objects name object calls).2 other = objects other := by
  rw [shmCreate]
  split_ifs <;> first | rfl | exact Function.update_of_ne h _ _

end

theorem keptApart_iff_names {p q : WorkerKey} : KeptApart p q ↔ shmName p ≠ shmName q := by
  refine ⟨KeptApart.names, fun hne => ⟨hne, ?_⟩⟩
  intro objects object other calls hp _
  rw [shmCreate_of_ne hne, hp]

/-- Every number of a worker has three digits at most, so a pool name of 46 characters leaves
room for all of them. -/
theorem keptApart_of_short_name {p q : WorkerKey} (hp : p.Valid) (hq : q.Valid) (hne : p ≠ q)
    (hsame : p.poolName = q.poolName) (hlength : p.poolName.length ≤ 46) : KeptApart p q := by
  have hthree : ∀ n < 128, (decimal n).length ≤ 3 := by decide
  have hids : p.workerId ≠ q.workerId := by
    intro hid
    cases p
    cases q
    exact hne (by rw [WorkerKey.mk.injEq]; exact ⟨hsame, hid⟩)
  rw [keptApart_iff_names, ne_eq, shmName_eq_iff_of_samePool hsame,
    List.take_of_length_le ((hthree _ hp.2).trans (by omega)),
    List.take_of_length_le ((hthree _ hq.2).trans (by omega))]
  exact decimal_injective.ne hids

/-- The names of two workers differ, and neither of the two takes away the object of the
other, exactly when the workers are told apart by what the buffer has room for. -/
theorem keptApart_iff_distinguished (p q : WorkerKey) : KeptApart p q ↔ Distinguished p q :=
  keptApart_iff_names.trans shmName_ne_iff

/-- In a pool whose name has 49 characters no digit of the number is left. -/
theorem not_keptApart_of_long_name : ¬ ∀ p q : WorkerKey, p.Valid → q.Valid → p ≠ q →
    KeptApart p q := by
  intro h
  have hvalid : ∀ n < 128, (WorkerKey.mk (List.replicate 49 97) n).Valid := fun n hn =>
    ⟨⟨List.replicate 49 97, by decide, rfl⟩, hn⟩
  have hkept := h ⟨List.replicate 49 97, 0⟩ ⟨List.replicate 49 97, 1⟩
    (hvalid 0 (by decide)) (hvalid 1 (by decide)) (by decide)
  exact hkept.names (by decide)

end ModernPool

end ProcessThreadPool
