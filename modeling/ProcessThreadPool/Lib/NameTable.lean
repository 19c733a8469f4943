import Mathlib.Data.List.Basic

/-!
# Tables that number names

A table numbers names by the position of their entry: a name that has an entry gets its
number again, and any other one gets a new entry. The entry keeps the name in a form that may
be shortened, and a name is looked for in its full form. So a name that is shortened is never
found, and it may be taken for another name that is its short form.
-/

namespace ProcessThreadPool

namespace NameTable

section

variable {ε α : Type*} [DecidableEq α]

/-- The position of the entry that keeps the name. -/
def find (key : ε → α) (table : List ε) (n : α) : Option ℕ :=
  table.findIdx? fun e => decide (key e = n)

/-- The number of the name, and the table, to which the entry is added for a new name.
Without room the table is not looked at. -/
def register (room : Bool) (key : ε → α) (table : List ε) (entry : ε) (n : α) :
    Option ℕ × List ε :=
  if room = false then (none, table)
  else
    match find key table n with
    | some i => (some i, table)
    | none => (some table.length, table ++ [entry])

/-- The numbers given so far, after one more registration. -/
def logged (log : List (α × ℕ)) (n : α) : Option ℕ → List (α × ℕ)
  | some i => log ++ [(n, i)]
  | none => log

/-- A name keeps its number and then changes nothing, and no two names share one. -/
structure Stable (log : List (α × ℕ)) (table : List ε) (n : α) (result : Option ℕ × List ε) :
    Prop where
  again : ∀ i, (n, i) ∈ log → result = (some i, table)
  apart : ∀ r, result.1 = some r → ∀ m j, (m, j) ∈ log → m ≠ n → j ≠ r

/-- A known name finds room and is kept in full, and a new name is not the kept form of
another one. -/
structure Clear (store : α → α) (log : List (α × ℕ)) (room : Bool) (key : ε → α)
    (table : List ε) (n : α) : Prop where
  again : ∀ i, (n, i) ∈ log → room = true ∧ store n = n
  fresh : (∀ i, (n, i) ∉ log) → room = true → ∀ e ∈ table, key e ≠ n

/-- The table and the numbers given so far agree. -/
structure Consistent (store : α → α) (log : List (α × ℕ)) (key : ε → α) (table : List ε) :
    Prop where
  first : ∀ n i, (n, i) ∈ log → store n = n → find key table n = some i
  lt : ∀ n i, (n, i) ∈ log → i < table.length
  named : ∀ i, i < table.length → ∃ n, (n, i) ∈ log
  stored : ∀ e ∈ table, store (key e) = key e
  injective : ∀ m n i, (m, i) ∈ log → (n, i) ∈ log → m = n

variable {store : α → α} {log : List (α × ℕ)} {room : Bool} {key : ε → α} {table : List ε}
  {entry : ε} {n : α} {i : ℕ}

theorem find_eq_none_iff : find key table n = none ↔ ∀ e ∈ table, key e ≠ n := by
  rw [find, List.findIdx?_eq_none_iff]
  simp only [decide_eq_false_iff_not, ne_eq]

theorem find_lt (h : find key table n = some i) : i < table.length :=
  (List.findIdx?_eq_some_iff_getElem.mp h).1

theorem exists_of_find (h : find key table n = some i) : ∃ e ∈ table, key e = n := by
  obtain ⟨hi, hkey, -⟩ := List.findIdx?_eq_some_iff_getElem.mp h
  exact ⟨table[i], List.getElem_mem hi, of_decide_eq_true hkey⟩

theorem find_append_of_some (h : find key table n = some i) (entry : ε) :
    find key (table ++ [entry]) n = some i := by
  rw [find, List.findIdx?_append]
  exact Option.or_eq_some_iff.mpr (Or.inl h)

theorem find_append_of_none (h : find key table n = none) (hentry : key entry = n) :
    find key (table ++ [entry]) n = some table.length := by
  rw [find, List.findIdx?_append]
  refine Option.or_eq_some_iff.mpr (Or.inr ⟨h, ?_⟩)
  simp [hentry]

/-- The agreement is one of the kept names. -/
theorem consistent_map_iff :
    Consistent store log id (table.map key) ↔ Consistent store log key table := by
  have hfind : ∀ n, find id (table.map key) n = find key table n := fun n => List.findIdx?_map
  constructor
  · intro h
    refine ⟨fun n i hi hn => hfind n ▸ h.first n i hi hn, fun n i hi => ?_, fun i hi => ?_,
      fun e he => h.stored _ (List.mem_map_of_mem he), h.injective⟩
    · exact List.length_map key ▸ h.lt n i hi
    · exact h.named i ((List.length_map key).symm ▸ hi)
  · intro h
    refine ⟨fun n i hi hn => (hfind n).trans (h.first n i hi hn), fun n i hi => ?_,
      fun i hi => ?_, List.forall_mem_map.mpr h.stored, h.injective⟩
    · exact (List.length_map key).symm ▸ h.lt n i hi
    · exact h.named i (List.length_map key ▸ hi)

/-- The ways a registration ends. -/
theorem register_cases (room : Bool) (key : ε → α) (table : List ε) (entry : ε) (n : α) :
    (room = false ∧ register room key table entry n = (none, table)) ∨
      (∃ i, room = true ∧ find key table n = some i ∧
        register room key table entry n = (some i, table)) ∨
      (room = true ∧ find key table n = none ∧
        register room key table entry n = (some table.length, table ++ [entry])) := by
  cases room with
  | false => exact Or.inl ⟨rfl, rfl⟩
  | true =>
      cases hfind : find key table n with
      | some i => exact Or.inr (Or.inl ⟨i, rfl, rfl, by simp [register, hfind]⟩)
      | none => exact Or.inr (Or.inr ⟨rfl, rfl, by simp [register, hfind]⟩)

/-- A table without entries. -/
theorem consistent_nil : Consistent store [] key ([] : List ε) :=
  ⟨by simp, by simp, by simp, by simp, by simp⟩

theorem Consistent.stable_iff (h : Consistent store log key table) :
    Stable log table n (register room key table entry n) ↔
      Clear store log room key table n := by
  constructor
  · intro hstable
    refine ⟨fun i hi => ?_, fun hnew hroom e he hkey => ?_⟩
    · have hagain := hstable.again i hi
      rcases register_cases room key table entry n with
        ⟨-, hreg⟩ | ⟨j, hroom, hfind, -⟩ | ⟨-, -, hreg⟩
      · rw [hreg] at hagain
        cases hagain
      · obtain ⟨e, he, hkey⟩ := exists_of_find hfind
        exact ⟨hroom, hkey ▸ h.stored e he⟩
      · rw [hreg] at hagain
        have hlt := h.lt n i hi
        have hlength := Option.some.inj (congrArg Prod.fst hagain)
        omega
    · rcases register_cases room key table entry n with
        ⟨hnone, -⟩ | ⟨j, -, hfind, hreg⟩ | ⟨-, hfind, -⟩
      · rw [hnone] at hroom
        cases hroom
      · obtain ⟨m, hm⟩ := h.named j (find_lt hfind)
        refine hstable.apart j (congrArg Prod.fst hreg) m j hm ?_ rfl
        rintro rfl
        exact hnew j hm
      · exact find_eq_none_iff.mp hfind e he hkey
  · intro hclear
    have hagain : ∀ i, (n, i) ∈ log → register room key table entry n = (some i, table) := by
      intro i hi
      obtain ⟨hroom, hstore⟩ := hclear.again i hi
      simp [register, hroom, h.first n i hi hstore]
    refine ⟨hagain, fun r hr m j hj hne hjr => ?_⟩
    by_cases hknown : ∃ i, (n, i) ∈ log
    · obtain ⟨i, hi⟩ := hknown
      rw [hagain i hi] at hr
      obtain rfl := Option.some.inj hr
      exact hne (h.injective m n i (hjr ▸ hj) hi)
    · rcases register_cases room key table entry n with
        ⟨-, hreg⟩ | ⟨k, hroom, hfind, -⟩ | ⟨-, -, hreg⟩
      · rw [hreg] at hr
        cases hr
      · obtain ⟨e, he, hkey⟩ := exists_of_find hfind
        exact hclear.fresh (not_exists.mp hknown) hroom e he hkey
      · rw [hreg] at hr
        have hlt := h.lt m j hj
        have hlength := Option.some.inj hr
        omega

/-- A number that has been given before adds nothing. -/
theorem Consistent.again (h : Consistent store log key table) (hi : (n, i) ∈ log) :
    Consistent store (log ++ [(n, i)]) key table := by
  have hmem : ∀ p, p ∈ log ++ [(n, i)] → p ∈ log := by
    intro p hp
    rcases List.mem_append.mp hp with hold | hnew
    · exact hold
    · exact List.mem_singleton.mp hnew ▸ hi
  refine ⟨fun m j hj => h.first m j (hmem _ hj), fun m j hj => h.lt m j (hmem _ hj),
    fun j hj => ?_, h.stored, fun m m' j hj hj' => h.injective m m' j (hmem _ hj) (hmem _ hj')⟩
  obtain ⟨m, hm⟩ := h.named j hj
  exact ⟨m, List.mem_append_left _ hm⟩

/-- A new name gets the number of its new entry. -/
theorem Consistent.insert (h : Consistent store log key table) (hfind : find key table n = none)
    (hentry : key entry = store n) (hidem : store (store n) = store n) :
    Consistent store (log ++ [(n, table.length)]) key (table ++ [entry]) := by
  have hmem : ∀ m j, (m, j) ∈ log ++ [(n, table.length)] →
      ((m, j) ∈ log ∧ j < table.length) ∨ (m = n ∧ j = table.length) := by
    intro m j hj
    rcases List.mem_append.mp hj with hold | hnew
    · exact Or.inl ⟨hold, h.lt m j hold⟩
    · exact Or.inr (Prod.mk.inj (List.mem_singleton.mp hnew))
  refine ⟨fun m j hj hstore => ?_, fun m j hj => ?_, fun j hj => ?_, fun e he => ?_,
    fun m m' j hj hj' => ?_⟩
  · rcases hmem m j hj with ⟨hold, -⟩ | ⟨rfl, rfl⟩
    · exact find_append_of_some (h.first m j hold hstore) entry
    · exact find_append_of_none hfind (hentry.trans hstore)
  · rw [List.length_append, List.length_singleton]
    rcases hmem m j hj with ⟨-, hlt⟩ | ⟨-, rfl⟩ <;> omega
  · rw [List.length_append, List.length_singleton] at hj
    rcases Nat.lt_succ_iff_lt_or_eq.mp hj with hlt | rfl
    · obtain ⟨m, hm⟩ := h.named j hlt
      exact ⟨m, List.mem_append_left _ hm⟩
    · exact ⟨n, List.mem_append_right _ (List.mem_singleton_self _)⟩
  · rcases List.mem_append.mp he with hold | hnew
    · exact h.stored e hold
    · rw [List.mem_singleton.mp hnew, hentry, hidem]
  · rcases hmem m j hj with ⟨hold, hlt⟩ | ⟨rfl, rfl⟩ <;>
      rcases hmem m' _ hj' with ⟨hold', hlt'⟩ | ⟨rfl, heq⟩
    · exact h.injective m m' j hold hold'
    · omega
    · omega
    · rfl

/-- A clear registration keeps the table and the numbers in agreement. -/
theorem Consistent.register (h : Consistent store log key table)
    (hclear : Clear store log room key table n) (hentry : key entry = store n)
    (hidem : store (store n) = store n) :
    Consistent store (logged log n (register room key table entry n).1) key
      (register room key table entry n).2 := by
  rcases register_cases room key table entry n with
    ⟨-, hreg⟩ | ⟨j, hroom, hfind, hreg⟩ | ⟨-, hfind, hreg⟩ <;> rw [hreg]
  · exact h
  · obtain ⟨e, he, hkey⟩ := exists_of_find hfind
    have hknown : ∃ i, (n, i) ∈ log := by
      by_contra hnew
      exact hclear.fresh (not_exists.mp hnew) hroom e he hkey
    obtain ⟨i, hi⟩ := hknown
    have hfirst := h.first n i hi (hclear.again i hi).2
    obtain rfl := Option.some.inj (hfirst.symm.trans hfind)
    exact h.again hi
  · exact h.insert hfind hentry hidem

end

end NameTable

end ProcessThreadPool
