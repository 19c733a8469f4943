import Mathlib.Data.Nat.Digits.Lemmas

/-!
# Decimal numerals

The digits of a number as characters, the most significant first, as `%u` prints them. Reading
the characters back gives the number, so different numbers have different numerals.
-/

namespace ProcessThreadPool

namespace Decimal

/-- The character of a digit. -/
def digit (d : ℕ) : UInt8 := UInt8.ofNat (48 + d)

/-- The numeral of `n`. -/
def decimal (n : ℕ) : List UInt8 :=
  if n = 0 then [digit 0] else ((Nat.digits 10 n).map digit).reverse

/-- The number that a numeral stands for. -/
def value (numeral : List UInt8) : ℕ :=
  Nat.ofDigits 10 (numeral.reverse.map fun b => b.toNat - 48)

theorem toNat_digit {d : ℕ} (h : d < 10) : (digit d).toNat = 48 + d := by
  rw [digit, UInt8.toNat_ofNat', Nat.mod_eq_of_lt (by omega)]

theorem mem_decimal {n : ℕ} {b : UInt8} (h : b ∈ decimal n) : 48 ≤ b.toNat ∧ b.toNat ≤ 57 := by
  have hdigit : ∃ d < 10, b = digit d := by
    rw [decimal] at h
    split_ifs at h
    · exact ⟨0, by decide, List.mem_singleton.mp h⟩
    · obtain ⟨d, hd, rfl⟩ := List.mem_map.mp (List.mem_reverse.mp h)
      exact ⟨d, Nat.digits_lt_base (by decide) hd, rfl⟩
  obtain ⟨d, hd, rfl⟩ := hdigit
  rw [toNat_digit hd]
  omega

theorem value_decimal (n : ℕ) : value (decimal n) = n := by
  rw [decimal]
  split_ifs with hn
  · rw [hn]
    rfl
  · have hdigit : ∀ d ∈ Nat.digits 10 n, ((fun b : UInt8 => b.toNat - 48) ∘ digit) d = d := by
      intro d hd
      rw [Function.comp_apply, toNat_digit (Nat.digits_lt_base (by decide) hd),
        Nat.add_sub_cancel_left]
    rw [value, List.reverse_reverse, List.map_map, List.map_congr_left hdigit, List.map_id',
      Nat.ofDigits_digits]

theorem decimal_injective : Function.Injective decimal :=
  Function.LeftInverse.injective value_decimal

end Decimal

end ProcessThreadPool
