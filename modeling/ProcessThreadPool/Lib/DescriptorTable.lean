import Mathlib.Data.List.Basic
import Mathlib.Data.Int.Notation
import Mathlib.Logic.Function.Basic

/-!
# Descriptor tables

A process numbers its open files from zero. `entries` says what each number refers
to, and a number with no entry is free. A new file gets the lowest free number.
Numbers are integers, because programs write `-1` where no file is open; looking a
negative number up finds nothing and closing it does nothing.
-/

namespace ProcessThreadPool

namespace DescriptorTable

/-- The open files of a process. -/
structure Table (α : Type*) where
  entries : List (Option α)

namespace Table

/-- What a number refers to. -/
def lookup {α : Type*} (t : Table α) (fd : ℤ) : Option α :=
  if fd < 0 then none else t.entries.getD fd.toNat none

/-- The lowest free number. -/
def lowestFree {α : Type*} (t : Table α) : ℕ := t.entries.findIdx Option.isNone

/-- Open a file under the lowest free number. -/
def openFile {α : Type*} (t : Table α) (a : α) : ℤ × Table α :=
  (t.lowestFree, ⟨(t.entries ++ [none]).set t.lowestFree (some a)⟩)

/-- Open two files, one after the other. -/
def openPair {α : Type*} (t : Table α) (a b : α) : ℤ × ℤ × Table α :=
  ((t.openFile a).1, (t.openFile a).2.openFile b)

/-- Close a number; a number that is not open stays as it is. -/
def close {α : Type*} (t : Table α) (fd : ℤ) : Table α :=
  if fd < 0 then t else ⟨t.entries.set fd.toNat none⟩

/-- Close several numbers, one after the other, with what each of them referred to. -/
def closeAll {α : Type*} (t : Table α) : List ℤ → List (Option α) × Table α
  | [] => ([], t)
  | fd :: fds => (t.lookup fd :: ((t.close fd).closeAll fds).1, ((t.close fd).closeAll fds).2)

theorem lookup_of_neg {α : Type*} (t : Table α) {fd : ℤ} (h : fd < 0) :
    t.lookup fd = none := if_pos h

theorem lookup_natCast {α : Type*} (t : Table α) (n : ℕ) :
    t.lookup n = t.entries.getD n none := by
  rw [lookup, if_neg (by omega), Int.toNat_natCast]

theorem lowestFree_le {α : Type*} (t : Table α) : t.lowestFree ≤ t.entries.length :=
  List.findIdx_le_length

theorem lookup_lowestFree {α : Type*} (t : Table α) : t.lookup t.lowestFree = none := by
  rw [lookup_natCast, List.getD_eq_getElem?_getD]
  rcases Nat.lt_or_eq_of_le t.lowestFree_le with hlt | heq
  · have hnone := List.findIdx_getElem (w := hlt)
    rw [List.getElem?_eq_getElem hlt]
    exact Option.isNone_iff_eq_none.mp hnone
  · rw [List.getElem?_eq_none (Nat.le_of_eq heq.symm)]
    rfl

/-- Opening a file only changes what its number refers to. -/
theorem lookup_openFile {α : Type*} (t : Table α) (a : α) :
    (t.openFile a).2.lookup = Function.update t.lookup (t.openFile a).1 (some a) := by
  have hle := t.lowestFree_le
  funext fd
  by_cases hneg : fd < 0
  · have hne : fd ≠ (t.openFile a).1 := by
      simp only [openFile]
      omega
    rw [lookup_of_neg _ hneg, Function.update_of_ne hne, lookup_of_neg _ hneg]
  · obtain ⟨n, rfl⟩ := Int.eq_ofNat_of_zero_le (Int.not_lt.mp hneg)
    simp only [openFile, lookup_natCast, List.getD_eq_getElem?_getD]
    by_cases hn : n = t.lowestFree
    · subst hn
      rw [Function.update_self, List.getElem?_set_self (by simp; omega)]
      rfl
    · rw [Function.update_of_ne (by omega), List.getElem?_set_ne (by omega), lookup_natCast,
        List.getD_eq_getElem?_getD]
      rcases Nat.lt_trichotomy n t.entries.length with hlt | heq | hgt
      · rw [List.getElem?_append_left hlt]
      · subst heq
        simp
      · rw [List.getElem?_eq_none (by simp; omega), List.getElem?_eq_none (Nat.le_of_lt hgt)]

/-- Closing a number only makes it free. -/
theorem lookup_close {α : Type*} (t : Table α) (fd : ℤ) :
    (t.close fd).lookup = Function.update t.lookup fd none := by
  by_cases hneg : fd < 0
  · rw [close, if_pos hneg, ← t.lookup_of_neg hneg, Function.update_eq_self]
  · obtain ⟨n, rfl⟩ := Int.eq_ofNat_of_zero_le (Int.not_lt.mp hneg)
    funext m
    rw [close, if_neg hneg, Int.toNat_natCast]
    by_cases hm : m < 0
    · rw [lookup_of_neg _ hm, Function.update_of_ne (by omega), lookup_of_neg _ hm]
    · obtain ⟨m, rfl⟩ := Int.eq_ofNat_of_zero_le (Int.not_lt.mp hm)
      simp only [lookup_natCast, List.getD_eq_getElem?_getD, List.getElem?_set]
      by_cases hnm : n = m
      · subst hnm
        rw [Function.update_self, if_pos rfl]
        split <;> rfl
      · rw [Function.update_of_ne (by omega), if_neg hnm, lookup_natCast,
          List.getD_eq_getElem?_getD]

/-- Two files opened together have different numbers that were free before. -/
theorem openPair_spec {α : Type*} (t : Table α) (a b : α) :
    0 ≤ (t.openPair a b).1 ∧ 0 ≤ (t.openPair a b).2.1 ∧
      (t.openPair a b).1 ≠ (t.openPair a b).2.1 ∧
      t.lookup (t.openPair a b).1 = none ∧ t.lookup (t.openPair a b).2.1 = none ∧
      (t.openPair a b).2.2.lookup =
        Function.update (Function.update t.lookup (t.openPair a b).1 (some a))
          (t.openPair a b).2.1 (some b) := by
  have hfirst : t.lookup (t.openFile a).1 = none := t.lookup_lowestFree
  have hsecond : (t.openFile a).2.lookup ((t.openFile a).2.openFile b).1 = none :=
    (t.openFile a).2.lookup_lowestFree
  have hne : (t.openFile a).1 ≠ ((t.openFile a).2.openFile b).1 := by
    intro heq
    rw [← heq, lookup_openFile, Function.update_self] at hsecond
    cases hsecond
  rw [lookup_openFile, Function.update_of_ne hne.symm] at hsecond
  refine ⟨Int.natCast_nonneg _, Int.natCast_nonneg _, hne, hfirst, hsecond, ?_⟩
  rw [openPair, lookup_openFile, lookup_openFile]

theorem openFile_free {α : Type*} (t : Table α) (a : α) :
    0 ≤ (t.openFile a).1 ∧ t.lookup (t.openFile a).1 = none :=
  ⟨Int.natCast_nonneg _, t.lookup_lowestFree⟩

theorem lookup_closeAll {α : Type*} (t : Table α) (fds : List ℤ) (fd : ℤ) :
    (t.closeAll fds).2.lookup fd = if fd ∈ fds then none else t.lookup fd := by
  induction fds generalizing t with
  | nil => rfl
  | cons first fds ih =>
      rw [closeAll, ih, lookup_close]
      by_cases heq : fd = first
      · subst heq
        rw [Function.update_self, if_pos List.mem_cons_self, ite_self]
      · rw [Function.update_of_ne heq]
        exact if_congr (by rw [List.mem_cons, or_iff_right heq]) rfl rfl

/-- A close finds what its number referred to at first, or nothing. -/
theorem mem_closeAll {α : Type*} {t : Table α} {fds : List ℤ} {a : α}
    (h : some a ∈ (t.closeAll fds).1) : ∃ fd ∈ fds, t.lookup fd = some a := by
  induction fds generalizing t with
  | nil => cases h
  | cons first fds ih =>
      rcases List.mem_cons.mp h with heq | hlater
      · exact ⟨first, List.mem_cons_self, heq.symm⟩
      · obtain ⟨fd, hfd, hlookup⟩ := ih hlater
        rw [lookup_close] at hlookup
        have hne : fd ≠ first := by
          rintro rfl
          rw [Function.update_self] at hlookup
          cases hlookup
        rw [Function.update_of_ne hne] at hlookup
        exact ⟨fd, List.mem_cons_of_mem _ hfd, hlookup⟩

/-- Numbers that differ are found as they were at first. -/
theorem closeAll_of_nodup {α : Type*} (t : Table α) {fds : List ℤ} (h : fds.Nodup) :
    (t.closeAll fds).1 = fds.map t.lookup := by
  induction fds generalizing t with
  | nil => rfl
  | cons first fds ih =>
      obtain ⟨hfirst, hrest⟩ := List.nodup_cons.mp h
      rw [closeAll, ih _ hrest, List.map_cons]
      refine congrArg _ (List.map_congr_left fun fd hfd => ?_)
      have hne : fd ≠ first := fun heq => hfirst (heq ▸ hfd)
      rw [lookup_close, Function.update_of_ne hne]

theorem mem_of_lookup {α : Type*} {t : Table α} {fd : ℤ} {a : α} (h : t.lookup fd = some a) :
    some a ∈ t.entries := by
  rw [lookup] at h
  split_ifs at h with hneg
  rw [List.getD_eq_getElem?_getD] at h
  cases hget : t.entries[fd.toNat]? with
  | none =>
      rw [hget] at h
      cases h
  | some o =>
      rw [hget, Option.getD_some] at h
      rw [← h]
      exact List.mem_of_getElem? hget

/-- Opening a file adds it to the open ones. -/
theorem count_openFile {α : Type*} [DecidableEq α] (t : Table α) (a b : α) :
    (t.openFile a).2.entries.count (some b) =
      t.entries.count (some b) + if a = b then 1 else 0 := by
  have hlt : t.lowestFree < (t.entries ++ [none]).length := by
    have hle := t.lowestFree_le
    simp only [List.length_append, List.length_singleton]
    omega
  have hfree : (t.entries ++ [none])[t.lowestFree] = none := by
    have hnone := t.lookup_lowestFree
    rw [lookup_natCast, List.getD_eq_getElem?_getD] at hnone
    rcases Nat.lt_or_eq_of_le t.lowestFree_le with hentry | hend
    · rw [List.getElem?_eq_getElem hentry, Option.getD_some] at hnone
      rw [List.getElem_append_left hentry, hnone]
    · simp only [hend, List.getElem_concat_length]
  simp only [openFile]
  rw [List.count_set hlt, hfree]
  simp [List.count_append]

/-- Closing a number takes what it refers to from the open ones. -/
theorem count_close {α : Type*} [DecidableEq α] (t : Table α) {fd : ℤ} {b : α}
    (h : t.lookup fd ≠ some b) :
    (t.close fd).entries.count (some b) = t.entries.count (some b) := by
  rw [close]
  split_ifs with hneg
  · rfl
  · rw [lookup, if_neg hneg, List.getD_eq_getElem?_getD] at h
    by_cases hlt : fd.toNat < t.entries.length
    · rw [List.getElem?_eq_getElem hlt, Option.getD_some] at h
      simp [List.count_set hlt, h]
    · rw [List.set_eq_of_length_le (Nat.le_of_not_lt hlt)]

end Table

end DescriptorTable

end ProcessThreadPool
