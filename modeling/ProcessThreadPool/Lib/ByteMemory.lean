import Mathlib.Algebra.Group.Nat.Defs
import Mathlib.Data.List.Basic

/-!
# Byte memory

A memory is a function from addresses to bytes. A block is read and written byte
by byte, and a 32-bit word is stored in four bytes, lowest first. A write changes
the bytes of its own interval and no others; everything a program relies on when
it lays out records in memory follows from that.
-/

namespace ProcessThreadPool

namespace ByteMemory

/-- The `n` bytes from address `a` on. -/
def readBytes (mem : ℕ → UInt8) (a n : ℕ) : List UInt8 :=
  (List.range n).map fun i => mem (a + i)

/-- Store a block of bytes from address `a` on. -/
def writeBytes (mem : ℕ → UInt8) (a : ℕ) (bytes : List UInt8) : ℕ → UInt8 :=
  fun b => if a ≤ b ∧ b < a + bytes.length then bytes.getD (b - a) 0 else mem b

/-- The four bytes of a word, lowest first. -/
def wordBytes (w : UInt32) : List UInt8 :=
  [UInt8.ofNat w.toNat, UInt8.ofNat (w.toNat / 2 ^ 8), UInt8.ofNat (w.toNat / 2 ^ 16),
    UInt8.ofNat (w.toNat / 2 ^ 24)]

/-- The word stored at address `a`. -/
def readWord (mem : ℕ → UInt8) (a : ℕ) : UInt32 :=
  UInt32.ofNat ((mem a).toNat + 2 ^ 8 * (mem (a + 1)).toNat + 2 ^ 16 * (mem (a + 2)).toNat +
    2 ^ 24 * (mem (a + 3)).toNat)

@[simp] theorem length_wordBytes (w : UInt32) : (wordBytes w).length = 4 := rfl

@[simp] theorem length_readBytes (mem : ℕ → UInt8) (a n : ℕ) :
    (readBytes mem a n).length = n := by
  simp [readBytes]

theorem writeBytes_of_outside {mem : ℕ → UInt8} {a b : ℕ} {bytes : List UInt8}
    (h : b < a ∨ a + bytes.length ≤ b) : writeBytes mem a bytes b = mem b := by
  rw [writeBytes, if_neg (by omega)]

theorem writeBytes_inside {mem : ℕ → UInt8} {a i : ℕ} {bytes : List UInt8}
    (h : i < bytes.length) : writeBytes mem a bytes (a + i) = bytes[i] := by
  rw [writeBytes, if_pos (by omega), Nat.add_sub_cancel_left,
    List.getD_eq_getElem?_getD, List.getElem?_eq_getElem h]
  rfl

/-- A block is what its bytes say. -/
theorem readBytes_eq_iff {mem : ℕ → UInt8} {a : ℕ} {bytes : List UInt8} :
    readBytes mem a bytes.length = bytes ↔
      ∀ i, ∀ h : i < bytes.length, mem (a + i) = bytes[i] := by
  constructor
  · intro heq i h
    have hget := List.getElem_of_eq heq (by simpa using h)
    simpa [readBytes] using hget
  · intro hall
    apply List.ext_getElem
    · simp
    · intro i _ h
      simpa [readBytes] using hall i h

theorem readWord_eq {mem : ℕ → UInt8} {a : ℕ} {w : UInt32}
    (h : ∀ j, ∀ hj : j < (wordBytes w).length, mem (a + j) = (wordBytes w)[j]) :
    readWord mem a = w := by
  have h0 : mem a = UInt8.ofNat w.toNat := h 0 (by simp)
  have h1 : mem (a + 1) = UInt8.ofNat (w.toNat / 2 ^ 8) := h 1 (by simp)
  have h2 : mem (a + 2) = UInt8.ofNat (w.toNat / 2 ^ 16) := h 2 (by simp)
  have h3 : mem (a + 3) = UInt8.ofNat (w.toNat / 2 ^ 24) := h 3 (by simp)
  have hword := UInt32.toNat_lt w
  rw [readWord, h0, h1, h2, h3, ← UInt32.toNat_inj]
  simp only [UInt32.toNat_ofNat', UInt8.toNat_ofNat']
  omega

end ByteMemory

end ProcessThreadPool
