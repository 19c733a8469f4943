import ProcessThreadPool.Lib.RingWindow

/-!
# Masked 32-bit counters

A free-running `UInt32` counter stands for a natural number `a` through
`UInt32.ofNat a`, so it wraps where `a` passes a multiple of `2 ^ 32`. Masking
it with `2 ^ k - 1` reads `a % 2 ^ k`, and masking the wrapped difference of two
counters reads the difference of the naturals when that is below `2 ^ k`.
-/

namespace ProcessThreadPool

namespace WordMask

/-- `mask` selects the low `k` bits. -/
def IsMask (mask : UInt32) (k : ℕ) : Prop := k ≤ 31 ∧ mask.toNat = 2 ^ k - 1

theorem two_pow_dvd_size {k : ℕ} (hk : k ≤ 31) : 2 ^ k ∣ 2 ^ 32 :=
  pow_dvd_pow 2 (by omega)

theorem two_pow_lt_size {k : ℕ} (hk : k ≤ 31) : 2 ^ k < 2 ^ 32 :=
  Nat.pow_lt_pow_right (by omega) (by omega)

theorem toNat_and_mask {mask : UInt32} {k : ℕ} (h : IsMask mask k) (x : UInt32) :
    (x &&& mask).toNat = x.toNat % 2 ^ k := by
  rw [UInt32.toNat_and, h.2, Nat.and_two_pow_sub_one_eq_mod]

theorem toNat_ofNat_and_mask {mask : UInt32} {k : ℕ} (h : IsMask mask k) (a : ℕ) :
    (UInt32.ofNat a &&& mask).toNat = a % 2 ^ k := by
  rw [toNat_and_mask h, UInt32.toNat_ofNat', Nat.mod_mod_of_dvd _ (two_pow_dvd_size h.1)]

theorem and_mask_eq_iff {mask : UInt32} {k : ℕ} (h : IsMask mask k) (a b : ℕ) :
    UInt32.ofNat a &&& mask = UInt32.ofNat b &&& mask ↔ a % 2 ^ k = b % 2 ^ k := by
  rw [← UInt32.toNat_inj, toNat_ofNat_and_mask h, toNat_ofNat_and_mask h]

/-- The masked wrapped difference is the difference of the naturals. -/
theorem toNat_sub_and_mask {mask : UInt32} {k : ℕ} (h : IsMask mask k) {a b : ℕ}
    (hba : b ≤ a) (hlt : a - b < 2 ^ k) :
    ((UInt32.ofNat a - UInt32.ofNat b) &&& mask).toNat = a - b := by
  rw [← UInt32.ofNat_sub hba, toNat_ofNat_and_mask h, Nat.mod_eq_of_lt hlt]

theorem toNat_ofNat_add_and_mask {mask : UInt32} {k : ℕ} (h : IsMask mask k)
    (a : ℕ) (i : UInt32) :
    ((UInt32.ofNat a + i) &&& mask).toNat = (a + i.toNat) % 2 ^ k := by
  rw [← toNat_ofNat_and_mask h, UInt32.ofNat_add, UInt32.ofNat_toNat]

/-- Two counters less than a ring apart fall on the same slot only when they
are equal. -/
theorem and_mask_eq_iff_eq {mask : UInt32} {k : ℕ} (h : IsMask mask k) {a b : ℕ}
    (hba : b ≤ a) (hlt : a < b + 2 ^ k) :
    UInt32.ofNat b &&& mask = UInt32.ofNat a &&& mask ↔ b = a := by
  rw [and_mask_eq_iff h]
  constructor
  · exact RingWindow.eq_of_mod_eq_of_window b le_rfl (by omega) hba hlt
  · intro heq
    rw [heq]

/-- One free slot is left when the counters are a ring less one apart. -/
theorem add_one_and_mask_eq_iff {mask : UInt32} {k : ℕ} (h : IsMask mask k) {a b : ℕ}
    (hba : b ≤ a) (hlt : a < b + 2 ^ k) :
    (UInt32.ofNat a + 1) &&& mask = UInt32.ofNat b &&& mask ↔ a + 1 = b + 2 ^ k := by
  rw [show UInt32.ofNat a + 1 = UInt32.ofNat (a + 1) from (UInt32.ofNat_add a 1).symm,
    and_mask_eq_iff h, ← Nat.add_mod_right b]
  constructor
  · exact RingWindow.eq_of_mod_eq_of_window (b + 1) (by omega) (by omega) (by omega)
      (by omega)
  · intro heq
    rw [heq]

/-- The free space of a ring that always keeps one slot empty. -/
theorem toNat_room {mask capacity : UInt32} {k : ℕ} (h : IsMask mask k)
    (hcap : capacity.toNat = 2 ^ k) {a b : ℕ} (hba : b ≤ a) (hlt : a < b + 2 ^ k) :
    (capacity - ((UInt32.ofNat a - UInt32.ofNat b) &&& mask) - 1).toNat =
      2 ^ k - 1 - (a - b) := by
  have hused := toNat_sub_and_mask h hba (show a - b < 2 ^ k by omega)
  have hsub : (capacity - ((UInt32.ofNat a - UInt32.ofNat b) &&& mask)).toNat =
      2 ^ k - (a - b) := by
    rw [UInt32.toNat_sub_of_le, hcap, hused]
    rw [UInt32.le_iff_toNat_le, hcap, hused]
    omega
  rw [UInt32.toNat_sub_of_le, hsub, UInt32.toNat_one]
  · omega
  · rw [UInt32.le_iff_toNat_le, hsub, UInt32.toNat_one]
    omega

theorem toNat_ite_lt (a b : UInt32) :
    (if a < b then a else b).toNat = min a.toNat b.toNat := by
  split
  · rw [Nat.min_eq_left]
    exact UInt32.le_iff_toNat_le.mp (UInt32.le_of_lt ‹_›)
  · rw [Nat.min_eq_right]
    exact UInt32.le_iff_toNat_le.mp (UInt32.not_lt.mp ‹_›)

theorem toNat_add_one_of_lt {i n : UInt32} (h : i < n) :
    (i + 1).toNat = i.toNat + 1 := by
  rw [UInt32.lt_iff_toNat_lt] at h
  have hword := UInt32.toNat_lt n
  rw [UInt32.toNat_add, UInt32.toNat_one, Nat.mod_eq_of_lt (by omega)]

end WordMask

end ProcessThreadPool
