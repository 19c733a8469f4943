import ProcessThreadPool.Lib.Replacement

/-!
# Replacing in strings

`string_replace` scans the string twice: once to count the occurrences, which gives the size
of the result, and once to copy. Sizes are 64-bit words, so `new_len - old_len` wraps around
when the new substring is the shorter one. A write behind the end of the allocated block is a
fault.
-/

namespace ProcessThreadPool

namespace ModernPool

namespace Strings

open Replacement

/-- A string in memory: bytes other than zero, which with the terminator are fewer than
`2 ^ 64`. -/
structure CString where
  bytes : List UInt8
  nonzero : 0 ∉ bytes
  fits : bytes.length + 1 < 18446744073709551616

/-- `strlen`. -/
def CString.strlen (s : CString) : UInt64 := UInt64.ofNat s.bytes.length

/-- `strstr` on a pointer into a string. A pointer is an offset from its first byte. -/
def CString.strstr (s : CString) (pos : ℕ) (needle : CString) : Option ℕ :=
  (find needle.bytes (s.bytes.drop pos)).map (pos + ·)

/-- A block that `malloc` has given, with the number of bytes stored in it so far. A byte that
has not been stored to is `none`. -/
structure Block where
  bytes : List (Option UInt8)
  written : ℕ
  deriving DecidableEq, Repr

/-- `malloc`, unless it fails. -/
def malloc (size : UInt64) (ok : Bool) : Option Block :=
  if ok then some ⟨List.replicate size.toNat none, 0⟩ else none

/-- `memcpy` into a block. -/
def Block.memcpy (b : Block) (dst : ℕ) (src : List UInt8) : Option Block :=
  if dst + src.length ≤ b.bytes.length then
    some ⟨b.bytes.take dst ++ src.map some ++ b.bytes.drop (dst + src.length),
      b.written + src.length⟩
  else none

/-- `safe_strdup`. A null pointer is `none` inside, a fault is `none` outside. -/
def safeStrdup (str : Option CString) (mallocOk : Bool) : Option (Option Block) :=
  match str with
  | none => some none
  | some str =>
      let len := str.strlen + 1
      match malloc len mallocOk with
      | none => some none
      | some copy => (copy.memcpy 0 ((str.bytes ++ [0]).take len.toNat)).map some

/-- The loop of `string_replace` that counts. `none`: it is not over after that many
rounds. -/
def countLoop (str oldSubstr : CString) (oldLen : UInt64) :
    ℕ → ℕ → UInt64 → Option UInt64
  | 0, _, _ => none
  | rounds + 1, pos, count =>
      match str.strstr pos oldSubstr with
      | none => some count
      | some pos => countLoop str oldSubstr oldLen rounds (pos + oldLen.toNat) (count + 1)

/-- The loop of `string_replace` that copies, and the `strcpy` behind it. -/
def copyLoop (str oldSubstr newSubstr : CString) (oldLen newLen : UInt64) :
    ℕ → ℕ → ℕ → Block → Option Block
  | 0, _, _, _ => none
  | rounds + 1, src, dst, result =>
      match str.strstr src oldSubstr with
      | none => result.memcpy dst (str.bytes.drop src ++ [0])
      | some pos =>
          let prefixLen := pos - src
          (result.memcpy dst ((str.bytes.drop src).take prefixLen)).bind fun result =>
            (result.memcpy (dst + prefixLen) (newSubstr.bytes.take newLen.toNat)).bind
              (copyLoop str oldSubstr newSubstr oldLen newLen rounds (pos + oldLen.toNat)
                (dst + prefixLen + newLen.toNat))

/-- `string_replace`. -/
def stringReplace (str oldSubstr newSubstr : Option CString) (mallocOk : Bool) :
    Option (Option Block) :=
  match str, oldSubstr, newSubstr with
  | some str, some oldSubstr, some newSubstr =>
      let oldLen := oldSubstr.strlen
      let newLen := newSubstr.strlen
      if oldLen = 0 then safeStrdup (some str) mallocOk
      else
        (countLoop str oldSubstr oldLen (str.bytes.length + 1) 0 0).bind fun count =>
          if count = 0 then safeStrdup (some str) mallocOk
          else
            match malloc (str.strlen + count * (newLen - oldLen) + 1) mallocOk with
            | none => some none
            | some result =>
                (copyLoop str oldSubstr newSubstr oldLen newLen (str.bytes.length + 1) 0 0
                  result).map some
  | _, _, _ => some none

/-- A string and its terminator, in a block of exactly that size. -/
def Block.holding (bytes : List UInt8) : Block where
  bytes := (bytes ++ [0]).map some
  written := bytes.length + 1

/-! ## Blocks and sizes -/

theorem CString.toNat_strlen (s : CString) : s.strlen.toNat = s.bytes.length := by
  have hfits := s.fits
  rw [CString.strlen, UInt64.toNat_ofNat', Nat.mod_eq_of_lt (by omega)]

/-- A copy behind the bytes that are there already. -/
theorem Block.memcpy_eq (out src : List UInt8) (room : ℕ) :
    Block.memcpy ⟨out.map some ++ List.replicate (src.length + room) none, out.length⟩
        out.length src =
      some ⟨(out ++ src).map some ++ List.replicate room none, (out ++ src).length⟩ := by
  have htake : (out.map some ++ List.replicate (src.length + room) none).take out.length =
      out.map some := List.take_left' (List.length_map _)
  have hdrop : (out.map some ++ List.replicate (src.length + room) none).drop
      (out.length + src.length) = List.replicate room (none : Option UInt8) := by
    rw [← List.drop_drop, List.drop_left' (List.length_map _), List.drop_replicate,
      Nat.add_sub_cancel_left]
  rw [Block.memcpy, if_pos, htake, hdrop, List.map_append, List.length_append]
  rw [List.length_append, List.length_map, List.length_replicate]
  omega

theorem safeStrdup_eq (str : CString) :
    safeStrdup (some str) true = some (some (.holding str.bytes)) := by
  have hfits := str.fits
  have hlen : (str.strlen + 1).toNat = str.bytes.length + 1 := by
    rw [UInt64.toNat_add, str.toNat_strlen, UInt64.toNat_one, Nat.mod_eq_of_lt (by omega)]
  have hall : (str.bytes ++ [0]).take (str.bytes.length + 1) = str.bytes ++ [0] := by
    rw [List.take_of_length_le]
    rw [List.length_append, List.length_singleton]
  have hcopy := Block.memcpy_eq [] (str.bytes ++ [0]) 0
  rw [List.length_append, List.length_singleton] at hcopy
  simp only [safeStrdup, malloc, if_true, hlen, hall]
  rw [List.map_nil, List.nil_append, List.length_nil, Nat.add_zero] at hcopy
  rw [hcopy, Block.holding, List.replicate_zero, List.append_nil, List.nil_append,
    List.length_append, List.length_singleton]
  rfl

/-! ## The two scans -/

section Scans

variable {str oldSubstr newSubstr : CString}

/-- Behind an occurrence both scans go on with what the replacement goes on with. -/
theorem drop_behind {s : List UInt8} {pos : ℕ} (hs : str.bytes.drop pos = s) (k : ℕ) :
    str.bytes.drop (pos + k + oldSubstr.strlen.toNat) =
      s.drop (k + oldSubstr.bytes.length) := by
  rw [← hs, List.drop_drop, oldSubstr.toNat_strlen, Nat.add_assoc]

/-- The first scan counts the occurrences that the replacement replaces. -/
theorem countLoop_eq (hold : oldSubstr.bytes ≠ []) {s : List UInt8} {rounds pos : ℕ}
    (hs : str.bytes.drop pos = s) (hrounds : s.length < rounds) (c : UInt64) :
    countLoop str oldSubstr oldSubstr.strlen rounds pos c =
      some (c + UInt64.ofNat (count oldSubstr.bytes s)) := by
  induction s using occurrenceInduction hold generalizing rounds pos c with
  | hnone s hfind =>
      obtain ⟨rounds, rfl⟩ := Nat.exists_eq_succ_of_ne_zero (Nat.ne_zero_of_lt hrounds)
      rw [countLoop, CString.strstr, hs, hfind, count_of_none hfind]
      exact congrArg some (UInt64.add_zero c).symm
  | hsome s k hfind ih =>
      obtain ⟨rounds, rfl⟩ := Nat.exists_eq_succ_of_ne_zero (Nat.ne_zero_of_lt hrounds)
      have hfewer : (s.drop (k + oldSubstr.bytes.length)).length < rounds :=
        (length_drop_lt_of_find hold hfind).trans_le (Nat.le_of_lt_succ hrounds)
      rw [countLoop, CString.strstr, hs, hfind, Option.map_some]
      refine (ih (drop_behind hs k) hfewer (c + 1)).trans (congrArg some ?_)
      rw [count_of_some hold hfind, UInt64.ofNat_add, UInt64.add_assoc,
        UInt64.add_comm 1]
      rfl

/-- The second scan fills the rest of the block. -/
theorem copyLoop_eq (hold : oldSubstr.bytes ≠ []) {s : List UInt8} {rounds src : ℕ}
    (hs : str.bytes.drop src = s) (hrounds : s.length < rounds) (out : List UInt8) :
    copyLoop str oldSubstr newSubstr oldSubstr.strlen newSubstr.strlen rounds src out.length
        ⟨out.map some ++ List.replicate
          ((replaceAll oldSubstr.bytes newSubstr.bytes s).length + 1) none, out.length⟩ =
      some (.holding (out ++ replaceAll oldSubstr.bytes newSubstr.bytes s)) := by
  induction s using occurrenceInduction hold generalizing rounds src out with
  | hnone s hfind =>
      obtain ⟨rounds, rfl⟩ := Nat.exists_eq_succ_of_ne_zero (Nat.ne_zero_of_lt hrounds)
      have hcopy := Block.memcpy_eq out (s ++ [0]) 0
      rw [List.length_append, List.length_singleton, Nat.add_zero, List.replicate_zero,
        List.append_nil, ← List.append_assoc] at hcopy
      rw [copyLoop, CString.strstr, hs, hfind, replaceAll_of_none hfind]
      refine hcopy.trans (congrArg some ?_)
      rw [Block.holding, List.length_append, List.length_singleton]
  | hsome s k hfind ih =>
      obtain ⟨rounds, rfl⟩ := Nat.exists_eq_succ_of_ne_zero (Nat.ne_zero_of_lt hrounds)
      have hle := add_length_le_of_find hold hfind
      have hfewer : (s.drop (k + oldSubstr.bytes.length)).length < rounds :=
        (length_drop_lt_of_find hold hfind).trans_le (Nat.le_of_lt_succ hrounds)
      have htake : (s.take k).length = k := List.length_take_of_le (by omega)
      have hlength : (replaceAll oldSubstr.bytes newSubstr.bytes s).length + 1 =
          (s.take k).length + (newSubstr.bytes.length + ((replaceAll oldSubstr.bytes
            newSubstr.bytes (s.drop (k + oldSubstr.bytes.length))).length + 1)) := by
        rw [replaceAll_of_some hold hfind, List.length_append, List.length_append]
        omega
      have hdst : out.length + k = (out ++ s.take k).length := by
        rw [List.length_append, htake]
      have hdst' : (out ++ s.take k).length + newSubstr.bytes.length =
          (out ++ s.take k ++ newSubstr.bytes).length := List.length_append.symm
      rw [copyLoop, CString.strstr, hs, hfind, Option.map_some]
      simp only [Nat.add_sub_cancel_left, newSubstr.toNat_strlen, List.take_length, hlength]
      rw [Block.memcpy_eq, Option.bind_some, hdst, Block.memcpy_eq, Option.bind_some, hdst']
      refine (ih (drop_behind hs k) hfewer _).trans (congrArg some ?_)
      rw [replaceAll_of_some hold hfind, List.append_assoc, List.append_assoc]

end Scans

/-- The wrapped difference of the lengths cancels: the block has the size of the result. -/
theorem resultLen_eq {str oldSubstr newSubstr : CString} (hold : oldSubstr.bytes ≠ [])
    (hfits : (replaceAll oldSubstr.bytes newSubstr.bytes str.bytes).length + 1 <
      18446744073709551616) :
    (str.strlen + UInt64.ofNat (count oldSubstr.bytes str.bytes) *
      (newSubstr.strlen - oldSubstr.strlen) + 1).toNat =
      (replaceAll oldSubstr.bytes newSubstr.bytes str.bytes).length + 1 := by
  have hlength := congrArg UInt64.ofNat
    (length_replaceAll hold newSubstr.bytes str.bytes)
  rw [UInt64.ofNat_add, UInt64.ofNat_add, UInt64.ofNat_mul, UInt64.ofNat_mul] at hlength
  have hword : str.strlen + UInt64.ofNat (count oldSubstr.bytes str.bytes) *
      (newSubstr.strlen - oldSubstr.strlen) + 1 =
      UInt64.ofNat ((replaceAll oldSubstr.bytes newSubstr.bytes str.bytes).length + 1) := by
    rw [UInt64.ofNat_add]
    simp only [CString.strlen]
    grind
  rw [hword, UInt64.toNat_ofNat', Nat.mod_eq_of_lt (by omega)]

/-- `string_replace` returns the string with every leftmost occurrence that does not overlap
an earlier one replaced, in a block that it fills exactly. -/
theorem stringReplace_eq (str oldSubstr newSubstr : CString) (hold : oldSubstr.bytes ≠ [])
    (hfits : (replaceAll oldSubstr.bytes newSubstr.bytes str.bytes).length + 1 <
      18446744073709551616) :
    stringReplace (some str) (some oldSubstr) (some newSubstr) true =
      some (some (.holding (replaceAll oldSubstr.bytes newSubstr.bytes str.bytes))) := by
  have hlen : oldSubstr.strlen ≠ 0 := by
    rw [← UInt64.toNat_inj.ne, oldSubstr.toNat_strlen]
    exact (List.length_pos_iff.mpr hold).ne'
  have hcount : countLoop str oldSubstr oldSubstr.strlen (str.bytes.length + 1) 0 0 =
      some (UInt64.ofNat (count oldSubstr.bytes str.bytes)) := by
    refine (countLoop_eq hold List.drop_zero (Nat.lt_succ_self _) 0).trans ?_
    rw [UInt64.zero_add]
  simp only [stringReplace, if_neg hlen, hcount, Option.bind_some]
  cases hfind : find oldSubstr.bytes str.bytes with
  | none =>
      rw [count_of_none hfind, replaceAll_of_none hfind]
      exact safeStrdup_eq str
  | some k =>
      have hnonzero : UInt64.ofNat (count oldSubstr.bytes str.bytes) ≠ 0 := by
        have hmost := count_le_length hold str.bytes
        have hstr := str.fits
        have hsome := count_of_some hold hfind
        rw [← UInt64.toNat_inj.ne, UInt64.toNat_ofNat', Nat.mod_eq_of_lt (by omega), hsome]
        exact Nat.succ_ne_zero _
      rw [if_neg hnonzero]
      simp only [malloc, if_true, resultLen_eq hold hfits]
      have hcopy : copyLoop str oldSubstr newSubstr oldSubstr.strlen newSubstr.strlen
          (str.bytes.length + 1) 0 0 ⟨List.replicate _ none, 0⟩ = _ :=
        copyLoop_eq hold List.drop_zero (Nat.lt_succ_self _) []
      rw [hcopy]
      rfl

/-- A pattern that overlaps itself, and a replacement that is shorter. -/
theorem stringReplace_eq_overlapping :
    stringReplace (some ⟨[97, 97, 97, 98, 97, 97], by decide, by decide⟩)
      (some ⟨[97, 97], by decide, by decide⟩) (some ⟨[99], by decide, by decide⟩) true =
      some (some (.holding [99, 97, 98, 99])) :=
  stringReplace_eq _ _ _ (by decide) (by decide)

end Strings

end ModernPool

end ProcessThreadPool
