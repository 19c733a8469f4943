import Mathlib.Data.Int.Notation
import Mathlib.Algebra.Order.Ring.Int

/-!
# Signed integers as bytes

A codec of a given width writes every signed integer that fits into so many bytes and
reads it back. `littleEndian` is the two's complement representation with the lowest byte
first.
-/

namespace ProcessThreadPool

namespace IntCodec

/-- A representation of the signed integers of `width` bytes. -/
structure Codec (width : ℕ) where
  encode : ℤ → List UInt8
  decode : List UInt8 → ℤ
  length_encode : ∀ x, (encode x).length = width
  decode_encode : ∀ x, -(2 ^ (8 * width) : ℤ) ≤ 2 * x → 2 * x < 2 ^ (8 * width) →
    decode (encode x) = x

/-- The lowest bytes of a number, lowest first. -/
def digits : ℕ → ℕ → List UInt8
  | 0, _ => []
  | width + 1, n => UInt8.ofNat n :: digits width (n / 2 ^ 8)

/-- The number with these bytes, lowest first. -/
def ofDigits : List UInt8 → ℕ
  | [] => 0
  | b :: bytes => b.toNat + 2 ^ 8 * ofDigits bytes

theorem length_digits (width n : ℕ) : (digits width n).length = width := by
  induction width generalizing n with
  | zero => rfl
  | succ width ih => rw [digits, List.length_cons, ih]

theorem ofDigits_digits (width n : ℕ) : ofDigits (digits width n) = n % 2 ^ (8 * width) := by
  induction width generalizing n with
  | zero => rw [digits, ofDigits, Nat.mul_zero, Nat.pow_zero, Nat.mod_one]
  | succ width ih =>
      rw [digits, ofDigits, ih, UInt8.toNat_ofNat', Nat.mul_succ, Nat.add_comm (8 * width) 8,
        Nat.pow_add, Nat.mod_mul]

/-- Two's complement, lowest byte first. -/
def littleEndian (width : ℕ) : Codec width where
  encode := fun x => digits width (x % 2 ^ (8 * width)).toNat
  decode := fun bytes => (ofDigits bytes : ℤ).bmod (2 ^ (8 * width))
  length_encode := fun _ => length_digits _ _
  decode_encode := fun x hlow hhigh => by
    have hpos : (0 : ℤ) < 2 ^ (8 * width) := Int.pow_pos (by decide)
    have hcast : ((2 ^ (8 * width) : ℕ) : ℤ) = 2 ^ (8 * width) := by norm_cast
    have hmod := Int.emod_nonneg x hpos.ne'
    have hlt := Int.emod_lt_of_pos x hpos
    rw [ofDigits_digits, Nat.mod_eq_of_lt (by omega), Int.toNat_of_nonneg hmod, ← hcast,
      Int.emod_bmod, Int.bmod_eq_of_le_mul_two (by omega) (by omega)]

end IntCodec

end ProcessThreadPool
