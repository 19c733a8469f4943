import Mathlib.Data.List.TakeWhile
import ProcessThreadPool.Lib.Decimal

/-!
# JSON texts

A machine reads a text byte by byte and cuts it into tokens. The text denotes a value when its
tokens are those of the value. Bytes from 128 on stand for themselves in a string, and a number
is known by its numeral.

A name that is put between quotation marks as it stands is read back as that name only when none
of its bytes is a quotation mark, a backslash or a control character. What the machine reads
instead can never make up for the difference: a string is at least as long in the text as in
the value, it is longer as soon as there is an escape, and then the quotation mark behind the
name would have to belong to an escape, which puts a quotation mark into the name, further and
further to the front.
-/

namespace ProcessThreadPool

namespace Json

open Decimal

/-- The bytes of a text of ASCII characters. -/
def ascii (s : String) : List UInt8 := s.toList.map fun c => UInt8.ofNat c.toNat

/-- A value. The numeral of a number is what the text has for it. -/
inductive Value where
  | null
  | bool (b : Bool)
  | num (numeral : List UInt8)
  | str (content : List UInt8)
  | arr (elements : List Value)
  | obj (members : List (List UInt8 × Value))

/-- What a text is cut into. A word is `true`, `false` or `null`. -/
inductive Token where
  | openBrace
  | closeBrace
  | openBracket
  | closeBracket
  | colon
  | comma
  | string (content : List UInt8)
  | number (numeral : List UInt8)
  | word (letters : List UInt8)
  deriving DecidableEq, Repr

mutual

/-- The tokens of a value. -/
def Value.tokens : Value → List Token
  | .null => [.word (ascii "null")]
  | .bool b => [.word (if b then ascii "true" else ascii "false")]
  | .num numeral => [.number numeral]
  | .str content => [.string content]
  | .arr elements => .openBracket :: (elementTokens elements ++ [.closeBracket])
  | .obj members => .openBrace :: (memberTokens members ++ [.closeBrace])

/-- The elements of an array, with commas between them. -/
def elementTokens : List Value → List Token
  | [] => []
  | v :: vs => v.tokens ++ (if vs.isEmpty then [] else .comma :: elementTokens vs)

/-- The members of an object, with commas between them. -/
def memberTokens : List (List UInt8 × Value) → List Token
  | [] => []
  | (name, v) :: ms =>
      .string name :: .colon :: (v.tokens ++
        (if ms.isEmpty then [] else .comma :: memberTokens ms))

end

/-! ## The machine -/

/-- `"`. -/
def quote : UInt8 := 34

/-- `\`. -/
def backslash : UInt8 := 92

/-- Space, tab, line feed and carriage return. -/
def isWhite (b : UInt8) : Bool := b == 32 || b == 9 || b == 10 || b == 13

def isDigit (b : UInt8) : Bool := 48 ≤ b && b ≤ 57

def isLetter (b : UInt8) : Bool := 97 ≤ b && b ≤ 122

/-- The bytes of a numeral: digits, signs, the point, `e` and `E`. -/
def isNumberByte (b : UInt8) : Bool :=
  isDigit b || b == 45 || b == 43 || b == 46 || b == 101 || b == 69

/-- A byte that stands for itself in a string. -/
def isPlain (b : UInt8) : Bool := 32 ≤ b && b != quote && b != backslash

/-- All bytes stand for themselves. -/
def Plain (name : List UInt8) : Prop := ∀ b ∈ name, isPlain b = true

instance (name : List UInt8) : Decidable (Plain name) :=
  List.decidableBAll (fun b => isPlain b = true) name

/-- `{`, `}`, `[`, `]`, `:` and `,`. -/
def mark (b : UInt8) : Option Token :=
  if b = 123 then some .openBrace
  else if b = 125 then some .closeBrace
  else if b = 91 then some .openBracket
  else if b = 93 then some .closeBracket
  else if b = 58 then some .colon
  else if b = 44 then some .comma
  else none

/-- An exponent or nothing. -/
def isExponent : List UInt8 → Bool
  | [] => true
  | b :: rest =>
      let digits := if rest.head? = some 45 ∨ rest.head? = some 43 then rest.tail else rest
      (b == 101 || b == 69) && !digits.isEmpty && digits.all isDigit

/-- A fraction, or nothing, and an exponent. -/
def isFraction (t : List UInt8) : Bool :=
  if t.head? = some 46 then
    !(t.tail.takeWhile isDigit).isEmpty && isExponent (t.tail.dropWhile isDigit)
  else isExponent t

/-- A numeral. Its integer part has no leading zero. -/
def isNumeral (t : List UInt8) : Bool :=
  let unsigned := if t.head? = some 45 then t.tail else t
  let int := unsigned.takeWhile isDigit
  !int.isEmpty && (int.length == 1 || int.head? != some 48) &&
    isFraction (unsigned.dropWhile isDigit)

def numberToken (t : List UInt8) : Option Token :=
  if isNumeral t then some (.number t) else none

def wordToken (t : List UInt8) : Option Token :=
  if t = ascii "null" ∨ t = ascii "true" ∨ t = ascii "false" then some (.word t) else none

/-- What a single byte stands for after a backslash. -/
def shortEscape (b : UInt8) : Option UInt8 :=
  if b = quote ∨ b = backslash ∨ b = 47 then some b
  else if b = 98 then some 8
  else if b = 102 then some 12
  else if b = 110 then some 10
  else if b = 114 then some 13
  else if b = 116 then some 9
  else none

/-- The value of a hexadecimal digit. -/
def hexDigit (b : UInt8) : Option ℕ :=
  if isDigit b then some (b.toNat - 48)
  else if 97 ≤ b ∧ b ≤ 102 then some (b.toNat - 87)
  else if 65 ≤ b ∧ b ≤ 70 then some (b.toNat - 55)
  else none

/-- The UTF-8 form of a character. -/
def utf8 (code : ℕ) : List UInt8 := String.utf8EncodeChar (Char.ofNat code)

/-- Where the machine stands. Inside a string `content` is what it has read so far, `escape` is
after a backslash, and `unicode` after `\u` and some of the four digits; `high` is the first half
of a pair of surrogates, and `pair` waits for the second one. -/
inductive Mode where
  | between
  | string (content : List UInt8)
  | escape (content : List UInt8)
  | unicode (content : List UInt8) (high : Option ℕ) (digits : List ℕ)
  | pair (content : List UInt8) (high : ℕ) (begun : Bool)
  | number (numeral : List UInt8)
  | word (letters : List UInt8)
  deriving DecidableEq, Repr

/-- A byte where a token may begin. -/
def start (b : UInt8) : Option (List Token × Mode) :=
  if isWhite b then some ([], .between)
  else
    match mark b with
    | some t => some ([t], .between)
    | none =>
        if b = quote then some ([], .string [])
        else if isDigit b || b == 45 then some ([], .number [b])
        else if isLetter b then some ([], .word [b])
        else none

/-- After the four digits of `\u`. -/
def unit (content : List UInt8) (high : Option ℕ) (code : ℕ) : Option Mode :=
  match high with
  | none =>
      if 0xD800 ≤ code ∧ code < 0xDC00 then some (.pair content code false)
      else if 0xDC00 ≤ code ∧ code < 0xE000 then none
      else some (.string (content ++ utf8 code))
  | some h =>
      if 0xDC00 ≤ code ∧ code < 0xE000 then
        some (.string (content ++ utf8 (0x10000 + (h - 0xD800) * 0x400 + (code - 0xDC00))))
      else none

/-- One byte of a string. -/
def stringStep : Mode → UInt8 → Option (List Token × Mode)
  | .string content, b =>
      if b = quote then some ([.string content], .between)
      else if b = backslash then some ([], .escape content)
      else if isPlain b then some ([], .string (content ++ [b]))
      else none
  | .escape content, b =>
      if b = 117 then some ([], .unicode content none [])
      else (shortEscape b).map fun c => ([], .string (content ++ [c]))
  | .unicode content high digits, b =>
      (hexDigit b).bind fun d =>
        if digits.length < 3 then some ([], .unicode content high (digits ++ [d]))
        else (unit content high (Nat.ofDigits 16 (digits ++ [d]).reverse)).map fun m => ([], m)
  | .pair content high false, b =>
      if b = backslash then some ([], .pair content high true) else none
  | .pair content high true, b =>
      if b = 117 then some ([], .unicode content (some high) []) else none
  | _, _ => none

/-- One byte: the tokens that it completes, and where the machine stands then. -/
def step : Mode → UInt8 → Option (List Token × Mode)
  | .between, b => start b
  | .number numeral, b =>
      if isNumberByte b then some ([], .number (numeral ++ [b]))
      else (numberToken numeral).bind fun t => (start b).map fun r => (t :: r.1, r.2)
  | .word letters, b =>
      if isLetter b then some ([], .word (letters ++ [b]))
      else (wordToken letters).bind fun t => (start b).map fun r => (t :: r.1, r.2)
  | m, b => stringStep m b

/-- The end of the text. -/
def finish : Mode → Option (List Token)
  | .between => some []
  | .number numeral => (numberToken numeral).map fun t => [t]
  | .word letters => (wordToken letters).map fun t => [t]
  | .string _ | .escape _ | .unicode _ _ _ | .pair _ _ _ => none

/-- The tokens of the rest of a text. -/
def lexFrom : Mode → List UInt8 → Option (List Token)
  | m, [] => finish m
  | m, b :: rest => (step m b).bind fun r => (lexFrom r.2 rest).map fun ts => r.1 ++ ts

/-- The text is one for the value. -/
def Denotes (text : List UInt8) (v : Value) : Prop := lexFrom .between text = some v.tokens

/-! ## One value for a text -/

/-- The first token of a value. -/
def Token.Begins : Token → Prop
  | .closeBracket | .closeBrace | .colon | .comma => False
  | .openBrace | .openBracket | .string _ | .number _ | .word _ => True

theorem Value.tokens_eq_cons (v : Value) : ∃ t ts, v.tokens = t :: ts ∧ t.Begins := by
  cases v with
  | _ => exact ⟨_, _, rfl, trivial⟩

mutual

theorem Value.tokens_unique : (v v' : Value) → (r r' : List Token) →
    v.tokens ++ r = v'.tokens ++ r' → v = v' ∧ r = r'
  | .null, v', r, r', h => by
      cases v' with
      | null => exact ⟨rfl, (List.cons.inj h).2⟩
      | bool b => cases b <;> exact absurd (List.cons.inj h).1 (by decide)
      | _ => cases (List.cons.inj h).1
  | .bool b, v', r, r', h => by
      cases v' with
      | null => cases b <;> exact absurd (List.cons.inj h).1 (by decide)
      | bool b' =>
          obtain ⟨hword, hrest⟩ := List.cons.inj h
          refine ⟨?_, hrest⟩
          cases b <;> cases b' <;> first | rfl | exact absurd hword (by decide)
      | _ => cases (List.cons.inj h).1
  | .num numeral, v', r, r', h => by
      cases v' with
      | num numeral' =>
          obtain ⟨hnumeral, hrest⟩ := List.cons.inj h
          rw [Token.number.inj hnumeral]
          exact ⟨rfl, hrest⟩
      | _ => cases (List.cons.inj h).1
  | .str content, v', r, r', h => by
      cases v' with
      | str content' =>
          obtain ⟨hcontent, hrest⟩ := List.cons.inj h
          rw [Token.string.inj hcontent]
          exact ⟨rfl, hrest⟩
      | _ => cases (List.cons.inj h).1
  | .arr elements, v', r, r', h => by
      cases v' with
      | arr elements' =>
          simp only [Value.tokens, List.cons_append, List.append_assoc, List.nil_append,
            List.cons.injEq, true_and] at h
          obtain ⟨rfl, rfl⟩ := elementTokens_unique elements elements' r r' h
          exact ⟨rfl, rfl⟩
      | _ => cases (List.cons.inj h).1
  | .obj members, v', r, r', h => by
      cases v' with
      | obj members' =>
          simp only [Value.tokens, List.cons_append, List.append_assoc, List.nil_append,
            List.cons.injEq, true_and] at h
          obtain ⟨rfl, rfl⟩ := memberTokens_unique members members' r r' h
          exact ⟨rfl, rfl⟩
      | _ => cases (List.cons.inj h).1

theorem elementTokens_unique : (vs vs' : List Value) → (r r' : List Token) →
    elementTokens vs ++ .closeBracket :: r = elementTokens vs' ++ .closeBracket :: r' →
      vs = vs' ∧ r = r'
  | [], [], r, r', h => ⟨rfl, (List.cons.inj h).2⟩
  | [], v' :: vs', r, r', h => by
      obtain ⟨t, ts, ht, hbegins⟩ := v'.tokens_eq_cons
      rw [elementTokens, elementTokens, ht] at h
      obtain rfl := (List.cons.inj h).1
      exact hbegins.elim
  | v :: vs, [], r, r', h => by
      obtain ⟨t, ts, ht, hbegins⟩ := v.tokens_eq_cons
      rw [elementTokens, elementTokens, ht] at h
      obtain rfl := (List.cons.inj h).1
      exact hbegins.elim
  | v :: vs, v' :: vs', r, r', h => by
      rw [elementTokens, elementTokens, List.append_assoc, List.append_assoc] at h
      obtain ⟨rfl, hrest⟩ := Value.tokens_unique v v' _ _ h
      cases vs with
      | nil =>
          cases vs' with
          | nil => exact ⟨rfl, (List.cons.inj hrest).2⟩
          | cons v' vs' => cases (List.cons.inj hrest).1
      | cons w ws =>
          cases vs' with
          | nil => cases (List.cons.inj hrest).1
          | cons w' ws' =>
              obtain ⟨heq, hr⟩ := elementTokens_unique (w :: ws) (w' :: ws') r r'
                (List.cons.inj hrest).2
              rw [heq]
              exact ⟨rfl, hr⟩

theorem memberTokens_unique : (ms ms' : List (List UInt8 × Value)) → (r r' : List Token) →
    memberTokens ms ++ .closeBrace :: r = memberTokens ms' ++ .closeBrace :: r' →
      ms = ms' ∧ r = r'
  | [], [], r, r', h => ⟨rfl, (List.cons.inj h).2⟩
  | [], (name', v') :: ms', r, r', h => by
      rw [memberTokens, memberTokens] at h
      cases (List.cons.inj h).1
  | (name, v) :: ms, [], r, r', h => by
      rw [memberTokens, memberTokens] at h
      cases (List.cons.inj h).1
  | (name, v) :: ms, (name', v') :: ms', r, r', h => by
      rw [memberTokens, memberTokens, List.cons_append, List.cons_append, List.cons_append,
        List.cons_append] at h
      obtain ⟨hname, hbehind⟩ := List.cons.inj h
      obtain rfl := Token.string.inj hname
      have hvalue := (List.cons.inj hbehind).2
      rw [List.append_assoc, List.append_assoc] at hvalue
      obtain ⟨rfl, hrest⟩ := Value.tokens_unique v v' _ _ hvalue
      cases ms with
      | nil =>
          cases ms' with
          | nil => exact ⟨rfl, (List.cons.inj hrest).2⟩
          | cons m' ms' => cases (List.cons.inj hrest).1
      | cons m ms =>
          cases ms' with
          | nil => cases (List.cons.inj hrest).1
          | cons m' ms' =>
              obtain ⟨heq, hr⟩ := memberTokens_unique (m :: ms) (m' :: ms') r r'
                (List.cons.inj hrest).2
              rw [heq]
              exact ⟨rfl, hr⟩

end

/-- A text denotes one value at most. -/
theorem Denotes.unique {text : List UInt8} {v v' : Value} (h : Denotes text v)
    (h' : Denotes text v') : v = v' := by
  have heq : v.tokens = v'.tokens := Option.some.inj (h.symm.trans h')
  exact (Value.tokens_unique v v' [] [] (congrArg (· ++ []) heq)).1

/-! ## Strings -/

section Strings

variable {name content body text rest e : List UInt8} {m : Mode} {ts us : List Token}

/-- The body of a string in a text, and the content it stands for. -/
inductive Spelled : List UInt8 → List UInt8 → Prop
  | nil : Spelled [] []
  | plain {b : UInt8} {content body : List UInt8} : isPlain b = true → Spelled content body →
      Spelled (b :: content) (b :: body)
  | quotation {content body : List UInt8} : Spelled content body →
      Spelled (quote :: content) (backslash :: quote :: body)
  | escape {d e content body : List UInt8} : quote ∉ e → d.length < e.length →
      Spelled content body → Spelled (d ++ content) (e ++ body)

/-- What the machine has read of a string: its content, and the bytes of an escape that is not
complete. -/
inductive Pending : Mode → List UInt8 → List UInt8 → Prop
  | string (content : List UInt8) : Pending (.string content) content []
  | escape (content : List UInt8) : Pending (.escape content) content [backslash]
  | unicode {content e : List UInt8} (high : Option ℕ) (digits : List ℕ) : quote ∉ e →
      2 + digits.length ≤ e.length → Pending (.unicode content high digits) content e
  | pair {content e : List UInt8} (high : ℕ) (begun : Bool) : quote ∉ e → 6 ≤ e.length →
      Pending (.pair content high begun) content e

theorem length_utf8_le (code : ℕ) : (utf8 code).length ≤ 4 := by
  rw [utf8, String.length_utf8EncodeChar]
  exact Char.utf8Size_le_four _

theorem hexDigit_ne_quote {b : UInt8} {d : ℕ} (h : hexDigit b = some d) : b ≠ quote := by
  rintro rfl
  cases h

/-- After four digits the machine is behind a character or waits for the other half of a
pair. -/
theorem unit_cases {high : Option ℕ} {code : ℕ} (h : unit content high code = some m) :
    (∃ d, d.length ≤ 4 ∧ m = .string (content ++ d)) ∨ ∃ high, m = .pair content high false := by
  cases high with
  | none =>
      simp only [unit] at h
      split_ifs at h
      · exact Or.inr ⟨code, (Option.some.inj h).symm⟩
      · exact Or.inl ⟨_, length_utf8_le _, (Option.some.inj h).symm⟩
  | some high =>
      simp only [unit] at h
      split_ifs at h
      exact Or.inl ⟨_, length_utf8_le _, (Option.some.inj h).symm⟩

/-- A byte inside a string ends it, or goes on with it. -/
theorem step_of_pending {b : UInt8} {r : List Token × Mode} (h : Pending m content e)
    (hstep : step m b = some r) :
    (e = [] ∧ b = quote ∧ r = ([.string content], .between)) ∨
      r.1 = [] ∧ (Pending r.2 content (e ++ [b]) ∨
        ∃ d, Pending r.2 (content ++ d) [] ∧
          ∀ content' body, Spelled content' body → Spelled (d ++ content') (e ++ b :: body)) := by
  cases h with
  | string content =>
      simp only [step, stringStep] at hstep
      split_ifs at hstep with hquote hslash hplain
      · exact Or.inl ⟨rfl, hquote, (Option.some.inj hstep).symm⟩
      · obtain rfl := Option.some.inj hstep
        exact Or.inr ⟨rfl, Or.inl (hslash ▸ .escape content)⟩
      · obtain rfl := Option.some.inj hstep
        exact Or.inr ⟨rfl, Or.inr ⟨[b], .string _, fun _ _ => .plain hplain⟩⟩
  | escape content =>
      simp only [step, stringStep] at hstep
      split_ifs at hstep with hu
      · obtain rfl := Option.some.inj hstep
        subst hu
        exact Or.inr ⟨rfl, Or.inl (.unicode none [] (by decide) le_rfl)⟩
      · obtain ⟨c, hc, rfl⟩ := Option.map_eq_some_iff.mp hstep
        refine Or.inr ⟨rfl, Or.inr ⟨[c], .string _, fun content' body h => ?_⟩⟩
        by_cases hb : b = quote
        · subst hb
          obtain rfl := Option.some.inj hc
          exact .quotation h
        · refine .escape (e := [backslash, b]) ?_ Nat.one_lt_two h
          simp only [List.mem_cons, List.not_mem_nil, or_false, not_or]
          exact ⟨by decide, Ne.symm hb⟩
  | @unicode content e high digits hnot hlength =>
      obtain ⟨d, hd, hrest⟩ := Option.bind_eq_some_iff.mp hstep
      have hmem : quote ∉ e ++ [b] := by
        rw [List.mem_append, List.mem_singleton, not_or]
        exact ⟨hnot, (hexDigit_ne_quote hd).symm⟩
      split_ifs at hrest with hmore
      · obtain rfl := Option.some.inj hrest
        refine Or.inr ⟨rfl, Or.inl (.unicode high _ hmem ?_)⟩
        rw [List.length_append, List.length_append, ← add_assoc]
        exact Nat.add_le_add_right hlength 1
      · obtain ⟨m, hm, rfl⟩ := Option.map_eq_some_iff.mp hrest
        rcases unit_cases hm with ⟨utf8, hutf8, rfl⟩ | ⟨high, rfl⟩
        · refine Or.inr ⟨rfl, Or.inr ⟨utf8, .string _, fun content' body h => ?_⟩⟩
          rw [List.append_cons]
          refine .escape hmem ?_ h
          rw [List.length_append, List.length_singleton]
          omega
        · refine Or.inr ⟨rfl, Or.inl (.pair high false hmem ?_)⟩
          rw [List.length_append, List.length_singleton]
          omega
  | @pair content e high begun hnot hlength =>
      cases begun with
      | false =>
          simp only [step, stringStep] at hstep
          split_ifs at hstep with hslash
          obtain rfl := Option.some.inj hstep
          refine Or.inr ⟨rfl, Or.inl (.pair high true ?_ ?_)⟩
          · rw [hslash, List.mem_append, List.mem_singleton, not_or]
            exact ⟨hnot, by decide⟩
          · rw [List.length_append]
            exact Nat.le_add_right_of_le hlength
      | true =>
          simp only [step, stringStep] at hstep
          split_ifs at hstep with hu
          obtain rfl := Option.some.inj hstep
          refine Or.inr ⟨rfl, Or.inl (.unicode (some high) [] ?_ ?_)⟩
          · rw [hu, List.mem_append, List.mem_singleton, not_or]
            exact ⟨hnot, by decide⟩
          · rw [List.length_append, List.length_nil]
            omega

/-- A string that is read ends at a quotation mark, behind a body that stands for its
content. -/
theorem spelled_of_lexFrom (h : Pending m content e) (hlex : lexFrom m text = some ts) :
    ∃ content' body rest us, e ++ text = body ++ quote :: rest ∧ Spelled content' body ∧
      ts = .string (content ++ content') :: us ∧ lexFrom .between rest = some us := by
  induction text generalizing m content e ts with
  | nil =>
      cases h with
      | _ => cases hlex
  | cons b text ih =>
      obtain ⟨r, hstep, hrest⟩ := Option.bind_eq_some_iff.mp hlex
      obtain ⟨us, hus, rfl⟩ := Option.map_eq_some_iff.mp hrest
      rcases step_of_pending h hstep with ⟨rfl, rfl, rfl⟩ | ⟨hnone, hpending | ⟨d, hdone, hd⟩⟩
      · exact ⟨[], [], text, us, rfl, .nil, by rw [List.append_nil]; rfl, hus⟩
      · rw [hnone, List.nil_append, List.append_cons]
        exact ih hpending hus
      · obtain ⟨content', body, rest, us, htext, hspelled, rfl, hlast⟩ := ih hdone hus
        rw [List.nil_append] at htext
        refine ⟨d ++ content', e ++ b :: body, rest, us, ?_, hd content' body hspelled, ?_,
          hlast⟩
        · rw [htext, List.append_assoc, List.cons_append]
        · rw [hnone, List.nil_append, List.append_assoc]

theorem Spelled.length_le (h : Spelled content body) :
    content.length ≤ body.length ∧ (body.length ≤ content.length → content = body ∧
      Plain content) := by
  induction h with
  | nil => exact ⟨le_rfl, fun _ => ⟨rfl, fun _ hb => absurd hb List.not_mem_nil⟩⟩
  | plain hb _ ih =>
      refine ⟨Nat.succ_le_succ ih.1, fun hle => ?_⟩
      obtain ⟨rfl, hplain⟩ := ih.2 (Nat.le_of_succ_le_succ hle)
      exact ⟨rfl, List.forall_mem_cons.mpr ⟨hb, hplain⟩⟩
  | quotation _ ih =>
      simp only [List.length_cons]
      exact ⟨by omega, fun hle => by omega⟩
  | escape _ hlt _ ih =>
      simp only [List.length_append]
      exact ⟨by omega, fun hle => by omega⟩

/-- A quotation mark inside the body stands for one in the content, and there it is further to
the front. -/
theorem Spelled.quote_mem (h : Spelled content body) {u v : List UInt8}
    (hbody : body = u ++ quote :: v) :
    ∃ p s, content = p ++ quote :: s ∧ p.length < u.length := by
  induction h generalizing u v with
  | nil => exact absurd hbody.symm (List.append_ne_nil_of_right_ne_nil u (List.cons_ne_nil _ _))
  | @plain b content body hb _ ih =>
      cases u with
      | nil =>
          obtain rfl := (List.cons.inj hbody).1
          cases hb
      | cons c u =>
          obtain ⟨p, s, rfl, hlt⟩ := ih (List.cons.inj hbody).2
          exact ⟨b :: p, s, rfl, Nat.succ_lt_succ hlt⟩
  | quotation _ _ =>
      refine ⟨[], _, rfl, ?_⟩
      cases u with
      | nil => cases (List.cons.inj hbody).1
      | cons c u => exact Nat.succ_pos _
  | @escape d e content body hnot hlt _ ih =>
      obtain ⟨w, rfl, hrest⟩ | ⟨w, rfl, hrest⟩ := List.append_eq_append_iff.mp hbody
      · obtain ⟨p, s, rfl, hlength⟩ := ih hrest
        refine ⟨d ++ p, s, by rw [List.append_assoc], ?_⟩
        rw [List.length_append, List.length_append]
        omega
      · cases w with
        | nil =>
            obtain ⟨p, s, rfl, hlength⟩ := ih (u := []) hrest.symm
            cases hlength
        | cons c w =>
            obtain rfl := (List.cons.inj hrest).1
            exact absurd (List.mem_append_right _ List.mem_cons_self) hnot

/-- When the body is longer than the name that it begins with, there is a quotation mark behind
the name, and so one in the name, and another one in front of that. -/
theorem Spelled.not_append_quote (h : Spelled name (name ++ quote :: rest)) : False := by
  have hnone : ∀ k (u v : List UInt8), u.length ≤ k → name ++ quote :: rest ≠ u ++ quote :: v := by
    intro k
    induction k with
    | zero =>
        intro u v hu heq
        obtain ⟨p, s, -, hlt⟩ := h.quote_mem heq
        exact absurd hlt (Nat.not_lt.mpr (hu.trans (Nat.zero_le _)))
    | succ k ih =>
        intro u v hu heq
        obtain ⟨p, s, hname, hlt⟩ := h.quote_mem heq
        refine ih p (s ++ quote :: rest) (Nat.le_of_lt_succ (hlt.trans_le hu)) ?_
        rw [hname, List.append_assoc, List.cons_append]
  exact hnone _ name rest le_rfl rfl

/-- A text that begins with the name and a quotation mark has that name for a string only when
it needs no escapes. -/
theorem Spelled.eq_of_append (h : Spelled name body) {rest' : List UInt8}
    (heq : name ++ quote :: rest = body ++ quote :: rest') : Plain name ∧ rest = rest' := by
  have hle : body.length ≤ name.length := by
    by_contra hlt
    rw [Nat.not_le] at hlt
    rcases List.append_eq_append_iff.mp heq with ⟨w, rfl, hrest⟩ | ⟨w, rfl, -⟩
    · cases w with
      | nil => exact absurd hlt (by rw [List.append_nil]; exact lt_irrefl _)
      | cons c w =>
          obtain rfl := (List.cons.inj hrest).1
          exact h.not_append_quote
    · rw [List.length_append] at hlt
      omega
  obtain ⟨rfl, hplain⟩ := h.length_le.2 hle
  exact ⟨hplain, (List.cons.inj (List.append_cancel_left heq)).2⟩

theorem lexFrom_string_of_plain (hname : Plain name) (content rest : List UInt8) :
    lexFrom (.string content) (name ++ quote :: rest) =
      (lexFrom .between rest).map fun ts => .string (content ++ name) :: ts := by
  induction name generalizing content with
  | nil =>
      rw [List.append_nil]
      rfl
  | cons b name ih =>
      obtain ⟨hb, hname⟩ := List.forall_mem_cons.mp hname
      have hquote : b ≠ quote := by
        rintro rfl
        cases hb
      have hslash : b ≠ backslash := by
        rintro rfl
        cases hb
      have hstep : step (.string content) b = some ([], .string (content ++ [b])) := by
        change stringStep (.string content) b = _
        rw [stringStep, if_neg hquote, if_neg hslash, if_pos hb]
      rw [List.cons_append, lexFrom, hstep, Option.bind_some, ih hname]
      simp [Function.comp_def]

/-- A name between quotation marks. -/
def quoted (name : List UInt8) : List UInt8 := quote :: (name ++ [quote])

/-- A name between quotation marks is read as that name exactly when it needs no escapes. -/
theorem lexFrom_quoted_iff : lexFrom .between (quoted name ++ rest) = some (.string name :: us) ↔
    Plain name ∧ lexFrom .between rest = some us := by
  have hopen : lexFrom .between (quoted name ++ rest) =
      lexFrom (.string []) (name ++ quote :: rest) := by
    have hstart : step .between quote = some ([], .string []) := by decide
    rw [quoted, List.cons_append, lexFrom, hstart, Option.bind_some, List.append_assoc]
    exact Option.map_id'
  rw [hopen]
  constructor
  · intro hlex
    obtain ⟨content, body, rest', us', htext, hspelled, hts, hrest⟩ :=
      spelled_of_lexFrom (.string []) hlex
    obtain ⟨hname, rfl⟩ := List.cons.inj hts
    obtain rfl := Token.string.inj hname
    obtain ⟨hplain, rfl⟩ := hspelled.eq_of_append htext
    exact ⟨hplain, hrest⟩
  · rintro ⟨hplain, hrest⟩
    rw [lexFrom_string_of_plain hplain, hrest]
    rfl

end Strings

/-! ## Numbers and punctuation -/

section Pieces

variable {text piece rest : List UInt8} {ts us : List Token}

/-- The tokens of a piece that has white space, braces, brackets, colons and commas only. -/
def punctuation : List UInt8 → Option (List Token)
  | [] => some []
  | b :: rest =>
      if isWhite b then punctuation rest
      else (mark b).bind fun t => (punctuation rest).map fun ts => t :: ts

theorem lexFrom_punctuation (h : punctuation piece = some ts) (rest : List UInt8) :
    lexFrom .between (piece ++ rest) = (lexFrom .between rest).map fun us => ts ++ us := by
  induction piece generalizing ts with
  | nil =>
      obtain rfl := Option.some.inj h
      exact Option.map_id'.symm
  | cons b piece ih =>
      rw [punctuation] at h
      split_ifs at h with hwhite
      · have hstep : step .between b = some ([], .between) := if_pos hwhite
        rw [List.cons_append, lexFrom, hstep, Option.bind_some, ih h]
        exact Option.map_id'
      · obtain ⟨t, ht, hrest⟩ := Option.bind_eq_some_iff.mp h
        obtain ⟨ts, hts, rfl⟩ := Option.map_eq_some_iff.mp hrest
        have hstep : step .between b = some ([t], .between) := by
          rw [step, start, if_neg hwhite, ht]
        rw [List.cons_append, lexFrom, hstep, Option.bind_some, ih hts, Option.map_map]
        rfl

theorem lexFrom_punctuation_iff (h : punctuation piece = some ts) :
    lexFrom .between (piece ++ rest) = some (ts ++ us) ↔ lexFrom .between rest = some us := by
  rw [lexFrom_punctuation h, Option.map_eq_some_iff]
  constructor
  · rintro ⟨vs, hvs, heq⟩
    rw [hvs, List.append_cancel_left heq]
  · exact fun hrest => ⟨us, hrest, rfl⟩

theorem lexFrom_number {b : UInt8} (hb : isNumberByte b = false) {digits : List UInt8}
    (hdigits : ∀ d ∈ digits, isNumberByte d = true) (numeral : List UInt8) :
    lexFrom (.number numeral) (digits ++ b :: rest) =
      (numberToken (numeral ++ digits)).bind fun t =>
        (lexFrom .between (b :: rest)).map fun ts => t :: ts := by
  induction digits generalizing numeral with
  | nil =>
      rw [List.append_nil, List.nil_append, lexFrom, step, if_neg (by rw [hb]; decide)]
      cases numberToken numeral with
      | none => rfl
      | some t =>
          rw [Option.bind_some, Option.bind_some, lexFrom, step]
          cases start b with
          | none => rfl
          | some r => simp [Function.comp_def]
  | cons d digits ih =>
      obtain ⟨hd, hdigits⟩ := List.forall_mem_cons.mp hdigits
      have hstep : step (.number numeral) d = some ([], .number (numeral ++ [d])) := if_pos hd
      rw [List.cons_append, lexFrom, hstep, Option.bind_some, ih hdigits]
      simp

/-- The digits of a number, the first of which is zero only for zero. -/
theorem decimal_cases (n : ℕ) : ∃ d ds, decimal n = d :: ds ∧ (∀ b ∈ d :: ds, isDigit b = true) ∧
    (ds ≠ [] → d ≠ 48) := by
  have hdigits : ∀ b ∈ decimal n, isDigit b = true := by
    intro b hb
    obtain ⟨hle, hge⟩ := mem_decimal hb
    rw [isDigit, Bool.and_eq_true, decide_eq_true_eq, decide_eq_true_eq, UInt8.le_iff_toNat_le,
      UInt8.le_iff_toNat_le]
    exact ⟨hle, hge⟩
  cases hdecimal : decimal n with
  | nil =>
      rw [decimal] at hdecimal
      split_ifs at hdecimal with hn
      exact absurd (Nat.digits_eq_nil_iff_eq_zero.mp
        (List.map_eq_nil_iff.mp (List.reverse_eq_nil_iff.mp hdecimal))) hn
  | cons d ds =>
      rw [hdecimal] at hdigits
      refine ⟨d, ds, rfl, hdigits, fun hds hd => ?_⟩
      rw [decimal] at hdecimal
      split_ifs at hdecimal with hn
      · exact hds (List.cons.inj hdecimal).2.symm
      · have hne : Nat.digits 10 n ≠ [] := Nat.digits_ne_nil_iff_ne_zero.mpr hn
        have hlast := congrArg List.head? hdecimal
        rw [List.head?_reverse, List.getLast?_map, List.getLast?_eq_some_getLast hne] at hlast
        have hdigit := congrArg UInt8.toNat (Option.some.inj hlast)
        rw [toNat_digit (Nat.digits_lt_base (by decide) (List.getLast_mem hne)), hd] at hdigit
        exact Nat.getLast_digit_ne_zero 10 hn (Nat.add_left_cancel (k := 0) hdigit)

/-- A number begins at a digit. -/
theorem start_of_isDigit {d : UInt8} (h : isDigit d = true) :
    start d = some ([], .number [d]) := by
  have hne : ∀ c, isDigit c = false → d ≠ c := by
    rintro c hc rfl
    rw [h] at hc
    cases hc
  have hwhite : isWhite d = false := by
    simp [isWhite, hne 32 rfl, hne 9 rfl, hne 10 rfl, hne 13 rfl]
  have hmark : mark d = none := by
    simp [mark, hne 123 rfl, hne 125 rfl, hne 91 rfl, hne 93 rfl, hne 58 rfl, hne 44 rfl]
  simp [start, hwhite, hmark, hne quote rfl, h]

theorem isNumberByte_of_isDigit {b : UInt8} (h : isDigit b = true) : isNumberByte b = true := by
  simp [isNumberByte, h]

theorem isNumeral_decimal (n : ℕ) : isNumeral (decimal n) = true := by
  obtain ⟨d, ds, hdecimal, hdigits, hzero⟩ := decimal_cases n
  have hminus : d ≠ 45 := by
    rintro rfl
    cases hdigits 45 List.mem_cons_self
  have htake := List.takeWhile_eq_self_iff.mpr hdigits
  have hdrop := List.dropWhile_eq_nil_iff.mpr hdigits
  rw [hdecimal, isNumeral]
  simp only [List.head?_cons, Option.some.injEq, if_neg hminus, htake, hdrop]
  cases ds with
  | nil => rfl
  | cons c ds => simp [hzero (List.cons_ne_nil c ds), isFraction, isExponent]

/-- A number in front of a byte that is none of a numeral. -/
theorem lexFrom_decimal_iff {b : UInt8} (hb : isNumberByte b = false) (n : ℕ) :
    lexFrom .between (decimal n ++ b :: rest) = some (.number (decimal n) :: us) ↔
      lexFrom .between (b :: rest) = some us := by
  have htoken : numberToken (decimal n) = some (.number (decimal n)) :=
    if_pos (isNumeral_decimal n)
  obtain ⟨d, ds, hdecimal, hdigits, -⟩ := decimal_cases n
  obtain ⟨hd, hds⟩ := List.forall_mem_cons.mp hdigits
  have hstep : step .between d = some ([], .number [d]) := start_of_isDigit hd
  have hlex : lexFrom .between (decimal n ++ b :: rest) =
      (lexFrom .between (b :: rest)).map fun ts => .number (decimal n) :: ts := by
    rw [hdecimal, List.cons_append, lexFrom, hstep, Option.bind_some,
      lexFrom_number hb (fun c hc => isNumberByte_of_isDigit (hds c hc)), List.singleton_append,
      ← hdecimal, htoken]
    simp [Function.comp_def]
  rw [hlex, Option.map_eq_some_iff]
  constructor
  · rintro ⟨vs, hvs, heq⟩
    rw [hvs, (List.cons.inj heq).2]
  · exact fun hrest => ⟨us, hrest, rfl⟩

end Pieces

end Json

end ProcessThreadPool
