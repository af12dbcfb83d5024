import Mathlib.Data.UInt
import Mathlib.Data.List.Basic

/-!
# Numbers in strings (`string.c`)

`str_to_long` skips blanks, takes a sign and a prefix if there is one, and reads digits up
to the end of the string. What it accepts is given as a grammar here. It asks for a digit
only where there is another character, so it also accepts strings without a single digit.
-/

namespace EmbeddedMx

/-! ## Characters -/

def isUpper (c : UInt8) : Bool := c ≥ 'A'.toUInt8 && c ≤ 'Z'.toUInt8

def isAlpha (c : UInt8) : Bool :=
  (c ≥ 'A'.toUInt8 && c ≤ 'Z'.toUInt8) || (c ≥ 'a'.toUInt8 && c ≤ 'z'.toUInt8)

/-- A blank; `'\12'` is octal, a line feed. -/
def isSpace (c : UInt8) : Bool :=
  c == ' '.toUInt8 || c == '\t'.toUInt8 || c == '\n'.toUInt8 || c == 10

def isDigit (c : UInt8) : Bool := c ≥ '0'.toUInt8 && c ≤ '9'.toUInt8

/-! ## The functions of `string.c` -/

/-- A string in memory: its characters, behind which there is a `NUL`. -/
structure CString where
  chars : List UInt8
  noNul : 0 ∉ chars

/-- `*str`; at the end there is the `NUL`. -/
def peek : List UInt8 → UInt8
  | [] => 0
  | c :: _ => c

theorem peek_cons (c : UInt8) (str : List UInt8) : peek (c :: str) = c := rfl

/-- `str_strip_left` -/
def strStripLeft : List UInt8 → List UInt8
  | [] => []
  | c :: str => if isSpace c then strStripLeft str else c :: str

/-- Pick up leading sign if any. -/
def strSign (str : List UInt8) : Int × List UInt8 :=
  if peek str = '-'.toUInt8 then (-1, str.tail)
  else if peek str = '+'.toUInt8 then (1, str.tail)
  else (1, str)

/-- If base is 0, allow 0x for hex and 0 for octal, else assume decimal; if base is already
16, allow 0x. -/
def strBase (base : Nat) (str : List UInt8) : Nat × List UInt8 :=
  if (base = 0 ∨ base = 16) ∧ peek str = '0'.toUInt8 ∧
      (peek str.tail = 'x'.toUInt8 ∨ peek str.tail = 'X'.toUInt8) then (16, str.tail.tail)
  else if base = 0 then (if peek str = '0'.toUInt8 then 8 else 10, str)
  else (base, str)

/-- The value of a digit. -/
def strDigit (c : UInt8) : Option Nat :=
  if isDigit c then some (c.toNat - '0'.toNat)
  else if isAlpha c then
    some (c.toNat - if isUpper c then 'A'.toNat - 10 else 'a'.toNat - 10)
  else none

/-- Convert string to number. A `long` has `bits` bits, an overflow wraps. -/
def strDigits {bits : Nat} (base : Nat) : List UInt8 → BitVec bits → Option (BitVec bits)
  | [], retval => some retval
  | c :: str, retval =>
      match strDigit c with
      | none => none
      | some c =>
          if c ≥ base then none
          else strDigits base str (retval * BitVec.ofNat bits base + BitVec.ofNat bits c)

/-- `str_to_long`: what it returns, and `*val`. -/
def strToLong {bits : Nat} (str : CString) (val : BitVec bits) (base : Nat) :
    Bool × BitVec bits :=
  let (sign, str) := strSign (strStripLeft str.chars)
  let (base, str) := strBase base str
  match strDigits base str 0 with
  | none => (false, val)
  | some retval => (true, BitVec.ofInt bits sign * retval)

example : strToLong ⟨['-'.toUInt8, '0'.toUInt8, 'x'.toUInt8, '1'.toUInt8, 'f'.toUInt8],
    by decide⟩ (5 : BitVec 64) 0 = (true, -31) := by decide +kernel

/-! ## The grammar -/

/-- The base that is in effect behind the prefix `hex`: 16 with a prefix, else for base 0
it is 8 for a leading 0 and 10 otherwise. -/
def effectiveBase (base : Nat) (hex digits : List UInt8) : Nat :=
  if hex ≠ [] then 16
  else if base = 0 then (if digits.head? = some '0'.toUInt8 then 8 else 10)
  else base

theorem effectiveBase_nil (base : Nat) (digits : List UInt8) :
    effectiveBase base [] digits =
      if base = 0 then (if digits.head? = some '0'.toUInt8 then 8 else 10) else base :=
  if_neg (not_not.mpr rfl)

theorem effectiveBase_hex (base : Nat) {hex : List UInt8} (hhex : hex ≠ [])
    (digits : List UInt8) : effectiveBase base hex digits = 16 :=
  if_pos hhex

/-- The string consists of blanks, a sign or none, a prefix or none if the base is 0 or 16,
and `digits`. -/
structure NumberParts (base : Nat) (str blanks sign hex digits : List UInt8) : Prop where
  parts : str = blanks ++ (sign ++ (hex ++ digits))
  blanks : ∀ c ∈ blanks, isSpace c = true
  sign : sign = [] ∨ sign = ['+'.toUInt8] ∨ sign = ['-'.toUInt8]
  hex : hex = [] ∨ (base = 0 ∨ base = 16) ∧
    (hex = ['0'.toUInt8, 'x'.toUInt8] ∨ hex = ['0'.toUInt8, 'X'.toUInt8])

/-- The factor that a sign stands for. -/
def signValue (sign : List UInt8) : Int := if sign = ['-'.toUInt8] then -1 else 1

/-- `c` is a digit below `base`. -/
def BelowBase (base : Nat) (c : UInt8) : Prop := ∃ d, strDigit c = some d ∧ d < base

/-- A number: one or more digits that are below the effective base. -/
def IsNumber (base : Nat) (str : List UInt8) : Prop :=
  ∃ blanks sign hex digits, NumberParts base str blanks sign hex digits ∧ digits ≠ [] ∧
    ∀ c ∈ digits, BelowBase (effectiveBase base hex digits) c

/-- A string that is over behind blanks, sign and prefix. -/
def IsBare (base : Nat) (str : List UInt8) : Prop :=
  ∃ blanks sign hex, NumberParts base str blanks sign hex []

/-! ## Taking the parts -/

theorem strStripLeft_blanks {blanks str : List UInt8} (h : ∀ c ∈ blanks, isSpace c = true)
    (hstr : isSpace (peek str) = false) : strStripLeft (blanks ++ str) = str := by
  induction blanks with
  | nil =>
      cases str with
      | nil => rfl
      | cons c str =>
          rw [peek_cons] at hstr
          show (if isSpace c then strStripLeft str else c :: str) = c :: str
          rw [if_neg (Bool.eq_false_iff.mp hstr)]
  | cons b blanks ih =>
      obtain ⟨hb, hblanks⟩ := List.forall_mem_cons.mp h
      show (if isSpace b then strStripLeft (blanks ++ str) else _) = str
      rw [if_pos hb]
      exact ih hblanks

/-- What is stripped are blanks. -/
theorem strStripLeft_spec (str : List UInt8) : ∃ blanks, str = blanks ++ strStripLeft str ∧
    (∀ c ∈ blanks, isSpace c = true) := by
  induction str with
  | nil => exact ⟨[], rfl, nofun⟩
  | cons c str ih =>
      unfold strStripLeft
      split
      · rename_i hc
        obtain ⟨blanks, hparts, hblanks⟩ := ih
        refine ⟨c :: blanks, ?_, List.forall_mem_cons.mpr ⟨hc, hblanks⟩⟩
        rw [List.cons_append, ← hparts]
      · exact ⟨[], rfl, nofun⟩

/-- A character that the string begins with. -/
theorem cons_of_peek {str : List UInt8} {c : UInt8} (h : peek str = c) (hc : c ≠ 0) :
    str = c :: str.tail := by
  cases str with
  | nil => exact absurd h.symm hc
  | cons c' str => exact h ▸ rfl

theorem strSign_spec (str : List UInt8) : ∃ sign, str = sign ++ (strSign str).2 ∧
    (sign = [] ∨ sign = ['+'.toUInt8] ∨ sign = ['-'.toUInt8]) := by
  unfold strSign
  split
  · rename_i hminus
    exact ⟨['-'.toUInt8], cons_of_peek hminus (by decide), .inr (.inr rfl)⟩
  · split
    · rename_i hplus
      exact ⟨['+'.toUInt8], cons_of_peek hplus (by decide), .inr (.inl rfl)⟩
    · exact ⟨[], rfl, .inl rfl⟩

theorem peek_eq_iff (str : List UInt8) {c : UInt8} (hc : c ≠ 0) :
    peek str = c ↔ str.head? = some c := by
  cases str with
  | nil => exact ⟨fun h => absurd h.symm hc, nofun⟩
  | cons c' str => exact ⟨fun h => congrArg some h, fun h => Option.some.inj h⟩

theorem strBase_spec (base : Nat) (str : List UInt8) : ∃ hex, str = hex ++ (strBase base str).2 ∧
    (hex = [] ∨ (base = 0 ∨ base = 16) ∧
      (hex = ['0'.toUInt8, 'x'.toUInt8] ∨ hex = ['0'.toUInt8, 'X'.toUInt8])) ∧
    (strBase base str).1 = effectiveBase base hex (strBase base str).2 := by
  unfold strBase
  split
  · rename_i hhex
    obtain ⟨hbase, hzero, hx⟩ := hhex
    have hstr := cons_of_peek hzero (by decide)
    rcases hx with hx | hx
    · refine ⟨['0'.toUInt8, 'x'.toUInt8], ?_, .inr ⟨hbase, .inl rfl⟩, rfl⟩
      rw [List.cons_append, List.singleton_append, ← cons_of_peek hx (by decide), ← hstr]
    · refine ⟨['0'.toUInt8, 'X'.toUInt8], ?_, .inr ⟨hbase, .inr rfl⟩, rfl⟩
      rw [List.cons_append, List.singleton_append, ← cons_of_peek hx (by decide), ← hstr]
  · refine ⟨[], ?_, .inl rfl, ?_⟩
    · split <;> rfl
    · rw [effectiveBase_nil]
      split
      · simp only [peek_eq_iff str (c := '0'.toUInt8) (by decide)]
      · rfl

/-- Where the digits of a number begin there is neither a blank nor a sign, and if there is
no prefix before them, then they do not look like one. -/
structure PlainStart (base : Nat) (hex digits : List UInt8) : Prop where
  space : isSpace (peek digits) = false
  minus : peek digits ≠ '-'.toUInt8
  plus : peek digits ≠ '+'.toUInt8
  hex : hex = [] → ¬ ((base = 0 ∨ base = 16) ∧ peek digits = '0'.toUInt8 ∧
    (peek digits.tail = 'x'.toUInt8 ∨ peek digits.tail = 'X'.toUInt8))

theorem NumberParts.based {base : Nat} {str blanks sign hex digits : List UInt8}
    (h : NumberParts base str blanks sign hex digits) (hplain : PlainStart base hex digits) :
    strBase base (hex ++ digits) = (effectiveBase base hex digits, digits) := by
  unfold strBase
  rcases h.hex with rfl | ⟨hbase, rfl | rfl⟩
  · rw [List.nil_append, if_neg (hplain.hex rfl), effectiveBase_nil]
    simp only [peek_eq_iff digits (c := '0'.toUInt8) (by decide)]
    split <;> rfl
  · rw [if_pos ⟨hbase, rfl, .inl rfl⟩]
    rfl
  · rw [if_pos ⟨hbase, rfl, .inr rfl⟩]
    rfl

theorem NumberParts.signed {base : Nat} {str blanks sign hex digits : List UInt8}
    (h : NumberParts base str blanks sign hex digits) (hplain : PlainStart base hex digits) :
    strSign (strStripLeft str) = (signValue sign, hex ++ digits) := by
  -- what is behind the sign
  have hfirst : isSpace (peek (hex ++ digits)) = false ∧ peek (hex ++ digits) ≠ '-'.toUInt8 ∧
      peek (hex ++ digits) ≠ '+'.toUInt8 := by
    have hzero : isSpace '0'.toUInt8 = false ∧ '0'.toUInt8 ≠ '-'.toUInt8 ∧
        '0'.toUInt8 ≠ '+'.toUInt8 := by decide
    rcases h.hex with rfl | ⟨-, rfl | rfl⟩
    · exact ⟨hplain.space, hplain.minus, hplain.plus⟩
    · exact hzero
    · exact hzero
  -- the blanks
  have hspace : isSpace (peek (sign ++ (hex ++ digits))) = false := by
    rcases h.sign with rfl | rfl | rfl
    · exact hfirst.1
    · show isSpace '+'.toUInt8 = false
      decide
    · show isSpace '-'.toUInt8 = false
      decide
  rw [h.parts, strStripLeft_blanks h.blanks hspace]
  unfold strSign
  rcases h.sign with rfl | rfl | rfl
  · rw [List.nil_append, if_neg hfirst.2.1, if_neg hfirst.2.2]
    rfl
  · rw [List.singleton_append, peek_cons, if_neg (by decide), if_pos rfl, List.tail_cons]
    rfl
  · rw [List.singleton_append, peek_cons, if_pos rfl, List.tail_cons]
    rfl

/-- Then there is one way to take the parts only. -/
theorem NumberParts.taken {base : Nat} {str blanks sign hex digits : List UInt8}
    (h : NumberParts base str blanks sign hex digits) (hplain : PlainStart base hex digits) :
    strBase base (strSign (strStripLeft str)).2 = (effectiveBase base hex digits, digits) := by
  rw [h.signed hplain]
  exact h.based hplain

/-- The parts that are taken. -/
theorem numberParts_taken (base : Nat) (str : List UInt8) :
    let taken := strBase base (strSign (strStripLeft str)).2
    ∃ blanks sign hex, NumberParts base str blanks sign hex taken.2 ∧
      taken.1 = effectiveBase base hex taken.2 := by
  intro taken
  obtain ⟨blanks, hstr, hblanks⟩ := strStripLeft_spec str
  obtain ⟨sign, hrest, hsign⟩ := strSign_spec (strStripLeft str)
  obtain ⟨hex, hdigits, hhex, hbase⟩ := strBase_spec base (strSign (strStripLeft str)).2
  refine ⟨blanks, sign, hex, ⟨?_, hblanks, hsign, hhex⟩, hbase⟩
  rw [← hdigits, ← hrest, ← hstr]

/-! ## Digits -/

/-- The digit loop goes through if and only if all characters are digits below the base. -/
theorem strDigits_isSome {bits : Nat} (base : Nat) (str : List UInt8) (retval : BitVec bits) :
    (strDigits base str retval).isSome = true ↔ ∀ c ∈ str, BelowBase base c := by
  induction str generalizing retval with
  | nil => exact ⟨fun _ => nofun, fun _ => rfl⟩
  | cons c str ih =>
      rw [List.forall_mem_cons, strDigits]
      unfold BelowBase
      cases strDigit c with
      | none => exact ⟨nofun, fun h => absurd h.1.choose_spec.1 nofun⟩
      | some d =>
          dsimp only
          split
          · rename_i hge
            refine ⟨nofun, fun ⟨⟨d', hd', hlt⟩, _⟩ => ?_⟩
            rw [Option.some.inj hd'] at hge
            exact absurd hlt (Nat.not_lt.mpr hge)
          · rename_i hlt
            rw [ih]
            exact (and_iff_right ⟨d, rfl, Nat.lt_of_not_ge hlt⟩).symm

/-- A digit is neither a blank nor a sign, and an `x` is not a digit below 16. -/
theorem strDigit_some {c : UInt8} {d : Nat} (h : strDigit c = some d) :
    isSpace c = false ∧ c ≠ '-'.toUInt8 ∧ c ≠ '+'.toUInt8 ∧
      (c = 'x'.toUInt8 ∨ c = 'X'.toUInt8 → 16 ≤ d) := by
  have hsome : ∀ {c'}, strDigit c' = none → c ≠ c' := by
    rintro c' hc' rfl
    rw [hc'] at h
    cases h
  refine ⟨Bool.eq_false_iff.mpr fun hspace => ?_, hsome rfl, hsome rfl, ?_⟩
  · unfold isSpace at hspace
    simp only [Bool.or_eq_true, beq_iff_eq] at hspace
    rcases hspace with ((hc | hc) | hc) | hc
    all_goals exact absurd hc (hsome rfl)
  · rintro (rfl | rfl)
    · have hd : 33 = d := Option.some.inj h
      omega
    · have hd : 33 = d := Option.some.inj h
      omega

/-- The digits of a number can be told from what is before them. -/
theorem plainStart_digits {base : Nat} {hex digits : List UInt8}
    (h : ∀ c ∈ digits, BelowBase (effectiveBase base hex digits) c) :
    PlainStart base hex digits := by
  cases digits with
  | nil =>
      exact ⟨by decide, by decide, by decide, fun _ hzero => absurd hzero.2.1 (by decide)⟩
  | cons c digits =>
      obtain ⟨hc, hdigits⟩ := List.forall_mem_cons.mp h
      obtain ⟨d, hd, -⟩ := hc
      obtain ⟨hspace, hminus, hplus, -⟩ := strDigit_some hd
      refine ⟨hspace, hminus, hplus, ?_⟩
      rintro rfl ⟨hbase, hzero, hx⟩
      -- an x behind the zero is not below 8, nor below 16
      have hnext : digits = peek digits :: digits.tail := by
        refine cons_of_peek rfl fun hnul => ?_
        rw [List.tail_cons, hnul] at hx
        exact absurd hx (by decide)
      rw [peek_cons] at hzero
      rw [List.tail_cons] at hx
      obtain ⟨d', hd', hlt⟩ := hdigits (peek digits) (hnext ▸ List.mem_cons_self)
      have hge := (strDigit_some hd').2.2.2 hx
      have heff : effectiveBase base [] (c :: digits) ≤ 16 := by
        rw [effectiveBase_nil]
        rcases hbase with rfl | rfl
        · rw [if_pos rfl]
          split <;> decide
        · exact Nat.le_refl _
      omega

/-- A number is what the digit loop is given, if that is not empty. -/
theorem isNumber_iff (base : Nat) (str : List UInt8) :
    let taken := strBase base (strSign (strStripLeft str)).2
    IsNumber base str ↔ taken.2 ≠ [] ∧ ∀ c ∈ taken.2, BelowBase taken.1 c := by
  intro taken
  constructor
  · rintro ⟨blanks, sign, hex, digits, hparts, hne, hbelow⟩
    have htaken : taken = (effectiveBase base hex digits, digits) :=
      hparts.taken (plainStart_digits hbelow)
    rw [htaken]
    exact ⟨hne, hbelow⟩
  · rintro ⟨hne, hbelow⟩
    obtain ⟨blanks, sign, hex, hparts, hbase⟩ := numberParts_taken base str
    exact ⟨blanks, sign, hex, taken.2, hparts, hne, hbase ▸ hbelow⟩

theorem isBare_iff (base : Nat) (str : List UInt8) :
    IsBare base str ↔ (strBase base (strSign (strStripLeft str)).2).2 = [] := by
  constructor
  · rintro ⟨blanks, sign, hex, hparts⟩
    rw [hparts.taken (plainStart_digits nofun)]
  · intro hnil
    obtain ⟨blanks, sign, hex, hparts, -⟩ := numberParts_taken base str
    rw [hnil] at hparts
    exact ⟨blanks, sign, hex, hparts⟩

/-- What `str_to_long` returns, and when it writes. -/
theorem strToLong_spec {bits : Nat} (str : CString) (val : BitVec bits) (base : Nat) :
    let taken := strBase base (strSign (strStripLeft str.chars)).2
    ((strToLong str val base).1 = true ↔ ∀ c ∈ taken.2, BelowBase taken.1 c) ∧
      ((strToLong str val base).1 = false → (strToLong str val base).2 = val) := by
  intro taken
  have hdigits := strDigits_isSome taken.1 taken.2 (0 : BitVec bits)
  unfold strToLong
  dsimp only
  rw [← hdigits]
  cases strDigits taken.1 taken.2 (0 : BitVec bits) with
  | none => exact ⟨Iff.rfl, fun _ => rfl⟩
  | some retval => exact ⟨Iff.rfl, nofun⟩

/-- **`str_to_long` accepts the grammar of numbers** if and only if there is something
behind the blanks, the sign and the prefix. -/
theorem str_to_long_grammar {bits : Nat} (str : CString) (val : BitVec bits) (base : Nat) :
    (((strToLong str val base).1 = true ↔ IsNumber base str.chars) ∧
        ((strToLong str val base).1 = false → (strToLong str val base).2 = val)) ↔
      ¬ IsBare base str.chars := by
  obtain ⟨htrue, hval⟩ := strToLong_spec str val base
  have hnumber := isNumber_iff base str.chars
  dsimp only at hnumber
  rw [htrue, hnumber, isBare_iff]
  constructor
  · rintro ⟨hiff, -⟩ hnil
    refine (hiff.mp ?_).1 hnil
    rw [hnil]
    exact nofun
  · intro hne
    exact ⟨(and_iff_right hne).symm, hval⟩

/-- A lone sign is accepted, and is 0. -/
theorem str_to_long_sign :
    ¬ (∀ (str : CString) (val : BitVec 64) (base : Nat), base = 0 ∨ 2 ≤ base ∧ base ≤ 36 →
      (((strToLong str val base).1 = true ↔ IsNumber base str.chars) ∧
        ((strToLong str val base).1 = false → (strToLong str val base).2 = val))) := by
  intro h
  obtain ⟨hiff, -⟩ := h ⟨['-'.toUInt8], by decide⟩ 5 10 (by decide)
  have hnumber := (isNumber_iff _ _).mp (hiff.mp (by decide +kernel))
  exact hnumber.1 rfl

end EmbeddedMx
