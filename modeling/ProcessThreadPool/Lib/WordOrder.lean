import Mathlib.Data.Nat.Notation
import Mathlib.Order.Defs.LinearOrder

/-!
# 64-bit words as an order and as counters

`UInt64` is linearly ordered with a largest element. A counter that starts at zero and only
grows is the word of a natural number, so what it shows is that number modulo `2 ^ 64`.
-/

namespace ProcessThreadPool

namespace WordOrder

scoped instance instLinearOrderUInt64 : LinearOrder UInt64 where
  le_refl := UInt64.le_refl
  le_trans := fun _ _ _ => UInt64.le_trans
  le_antisymm := fun _ _ => UInt64.le_antisymm
  le_total := UInt64.le_total
  lt_iff_le_not_ge := fun _ _ => ⟨fun h => ⟨UInt64.le_of_lt h, UInt64.not_le.mpr h⟩,
    fun h => UInt64.not_le.mp h.2⟩
  toDecidableLE := inferInstance

/-- `UINT64_MAX`. -/
def uint64Max : UInt64 := 0xFFFFFFFFFFFFFFFF

theorem le_uint64Max (a : UInt64) : a ≤ uint64Max := by
  rw [UInt64.le_iff_toNat_le]
  have ha := UInt64.toNat_lt a
  have hmax : uint64Max.toNat = 18446744073709551615 := rfl
  omega

/-- Adding to a counter adds to the number. -/
theorem ofNat_add_word (n : ℕ) (a : UInt64) :
    UInt64.ofNat n + a = UInt64.ofNat (n + a.toNat) := by
  rw [UInt64.ofNat_add, UInt64.ofNat_toNat]

theorem ofNat_add_one (n : ℕ) : UInt64.ofNat n + 1 = UInt64.ofNat (n + 1) :=
  ofNat_add_word n 1

end WordOrder

end ProcessThreadPool
