import EmbeddedMx.Lib.Numeral
import EmbeddedMx.Strings

/-!
# The value of a number in a string

`str_to_long` multiplies and adds without a look at the range of a `long`. What it stores is
the number in the string as long as no product and no sum on the way leaves that range, and
this is so if and only if the number and its negation are both in the range: the sign is
applied last.
-/

namespace EmbeddedMx

open EmbeddedMx.Lib

variable {bits : Nat}

/-! ## The arithmetic of `str_to_long` -/

/-- Along the digit loop, no product and no sum leaves the range of a `long`. -/
def StrDigitsFit (base : Nat) : List UInt8 → BitVec bits → Prop
  | [], _ => True
  | c :: str, retval =>
      match strDigit c with
      | none => True
      | some c =>
          if c ≥ base then True
          else
            Fits bits (retval.toInt * base) ∧
              Fits bits ((retval * BitVec.ofNat bits base).toInt + c) ∧
                StrDigitsFit base str (retval * BitVec.ofNat bits base + BitVec.ofNat bits c)

instance decidableStrDigitsFit (base : Nat) :
    (str : List UInt8) → (retval : BitVec bits) → Decidable (StrDigitsFit base str retval)
  | [], _ => .isTrue trivial
  | c :: str, retval =>
      have (d : Nat) := decidableStrDigitsFit base str
        (retval * BitVec.ofNat bits base + BitVec.ofNat bits d)
      match hc : strDigit c with
      | none => .isTrue (by rw [StrDigitsFit, hc]; trivial)
      | some d =>
          decidable_of_iff
            (if d ≥ base then True
            else
              Fits bits (retval.toInt * base) ∧
                Fits bits ((retval * BitVec.ofNat bits base).toInt + d) ∧
                  StrDigitsFit base str (retval * BitVec.ofNat bits base + BitVec.ofNat bits d))
            (by rw [StrDigitsFit, hc])

/-- No signed overflow in `str_to_long`, where a `long` has `bits` bits. -/
def NoOverflow (bits : Nat) (str : CString) (base : Nat) : Prop :=
  let signed := strSign (strStripLeft str.chars)
  let based := strBase base signed.2
  StrDigitsFit based.1 based.2 (0 : BitVec bits) ∧
    ∀ retval ∈ strDigits based.1 based.2 (0 : BitVec bits), Fits bits (signed.1 * retval.toInt)

instance (bits : Nat) (str : CString) (base : Nat) : Decidable (NoOverflow bits str base) :=
  inferInstanceAs (Decidable (_ ∧ _))

-- the accumulator overflows before the sign is applied, and wraps to the right number
example : ¬ NoOverflow 8 ⟨['-'.toUInt8, '1'.toUInt8, '2'.toUInt8, '8'.toUInt8], by decide⟩ 10 ∧
    strToLong ⟨['-'.toUInt8, '1'.toUInt8, '2'.toUInt8, '8'.toUInt8], by decide⟩ (5 : BitVec 8) 10
      = (true, -128) := by decide +kernel

/-! ## The number in a string -/

/-- The number that a string of digits denotes; without digits it is 0. -/
def digitsValue (base : Nat) (digits : List UInt8) : Nat :=
  Nat.ofDigits base (digits.filterMap strDigit).reverse

/-- `str` is a string of digits below the effective base, with blanks, a sign and a prefix in
front as in the grammar, and `x` is the number that it denotes. -/
def NumberValue (base : Nat) (str : List UInt8) (x : Int) : Prop :=
  ∃ blanks sign hex digits, NumberParts base str blanks sign hex digits ∧
    (∀ c ∈ digits, BelowBase (effectiveBase base hex digits) c) ∧
    x = signValue sign * digitsValue (effectiveBase base hex digits) digits

/-- The number that is taken, if all characters that the digit loop is given are digits. -/
theorem numberValue_iff (base : Nat) (str : List UInt8) (x : Int) :
    let signed := strSign (strStripLeft str)
    let taken := strBase base signed.2
    NumberValue base str x ↔
      (∀ c ∈ taken.2, BelowBase taken.1 c) ∧ x = signed.1 * digitsValue taken.1 taken.2 := by
  intro signed taken
  constructor
  · rintro ⟨blanks, sign, hex, digits, hparts, hbelow, hx⟩
    have hplain := plainStart_digits hbelow
    have hsigned : signed = (signValue sign, hex ++ digits) := hparts.signed hplain
    have htaken : taken = (effectiveBase base hex digits, digits) := hparts.taken hplain
    rw [htaken, hsigned]
    exact ⟨hbelow, hx⟩
  · rintro ⟨hbelow, hx⟩
    obtain ⟨blanks, sign, hex, hparts, hbase⟩ := numberParts_taken base str
    have hdigits : ∀ c ∈ taken.2, BelowBase (effectiveBase base hex taken.2) c :=
      hbase ▸ hbelow
    have hsigned : signed.1 = signValue sign :=
      congrArg Prod.fst (hparts.signed (plainStart_digits hdigits))
    refine ⟨blanks, sign, hex, taken.2, hparts, hdigits, ?_⟩
    rw [hx, hsigned, ← hbase]

/-- A sign does not change the magnitude. -/
theorem natAbs_strSign (str : List UInt8) (n : Nat) : ((strSign str).1 * n).natAbs = n := by
  unfold strSign
  split
  · rw [Int.neg_one_mul, Int.natAbs_neg, Int.natAbs_natCast]
  · split
    · rw [one_mul, Int.natAbs_natCast]
    · rw [one_mul, Int.natAbs_natCast]

theorem strBase_pos (base : Nat) (str : List UInt8) : 0 < (strBase base str).1 := by
  unfold strBase
  split
  · exact Nat.zero_lt_succ 15
  · split
    · dsimp only
      split <;> decide
    · exact Nat.pos_of_ne_zero ‹_›

/-! ## The digit loop -/

/-- On digits below the base the loop is Horner's rule in a `long`. -/
theorem strDigits_below {base : Nat} {str : List UInt8} (h : ∀ c ∈ str, BelowBase base c)
    (retval : BitVec bits) :
    strDigits base str retval = some (wordHorner base (str.filterMap strDigit) retval) ∧
      (StrDigitsFit base str retval ↔ HornerFits base (str.filterMap strDigit) retval) := by
  induction str generalizing retval with
  | nil => exact ⟨rfl, Iff.rfl⟩
  | cons c str ih =>
      obtain ⟨⟨d, hd, hlt⟩, hstr⟩ := List.forall_mem_cons.mp h
      obtain ⟨hloop, hfit⟩ := ih hstr (retval * BitVec.ofNat bits base + BitVec.ofNat bits d)
      rw [List.filterMap_cons_some hd, wordHorner, HornerFits, strDigits, StrDigitsFit, hd]
      dsimp only
      rw [if_neg (Nat.not_le.mpr hlt), if_neg (Nat.not_le.mpr hlt)]
      exact ⟨hloop, and_congr_right' (and_congr_right' hfit)⟩

/-- The loop goes through the digits without overflow if and only if the number that they
denote is in the range, and then this is what it computes. -/
theorem strDigits_value (bits : Nat) {base : Nat} (hbase : 0 < base) {digits : List UInt8}
    (h : ∀ c ∈ digits, BelowBase base c) : ∃ retval : BitVec bits,
      strDigits base digits (0 : BitVec bits) = some retval ∧
      (StrDigitsFit base digits (0 : BitVec bits) ↔ Fits bits (digitsValue base digits)) ∧
      (StrDigitsFit base digits (0 : BitVec bits) → retval.toInt = digitsValue base digits) := by
  have hzero : (0 : BitVec bits).toInt = (0 : Nat) := BitVec.toInt_zero
  obtain ⟨hloop, hfit⟩ := strDigits_below h (0 : BitVec bits)
  unfold digitsValue
  rw [hfit, ← horner_zero]
  exact ⟨_, hloop, hornerFits_iff hbase hzero, toInt_wordHorner hzero⟩

/-! ## The number that is stored -/

/-- What `str_to_long` does with a number. -/
theorem strToLong_value {str : CString} {base : Nat} {x : Int}
    (h : NumberValue base str.chars x) (val : BitVec bits) :
    (strToLong str val base).1 = true ∧
      (NoOverflow bits str base ↔ 2 * x.natAbs < 2 ^ bits) ∧
      (NoOverflow bits str base → (strToLong str val base).2.toInt = x) := by
  obtain ⟨hbelow, rfl⟩ := (numberValue_iff base str.chars x).mp h
  obtain ⟨retval, hloop, hfit, hvalue⟩ := strDigits_value bits (strBase_pos _ _) hbelow
  rw [natAbs_strSign]
  unfold strToLong NoOverflow
  dsimp only
  rw [hloop]
  refine ⟨rfl, ⟨?_, ?_⟩, ?_⟩
  · rintro ⟨hdigits, -⟩
    exact fits_natCast.mp (hfit.mp hdigits)
  · intro hlt
    have hdigits := hfit.mpr (fits_natCast.mpr hlt)
    refine ⟨hdigits, fun _ hretval => ?_⟩
    rw [← Option.mem_some_iff.mp hretval, hvalue hdigits]
    exact fits_natAbs (by rwa [natAbs_strSign])
  · rintro ⟨hdigits, hfinal⟩
    have hsign := hfinal retval rfl
    rw [hvalue hdigits] at hsign
    dsimp only
    rw [BitVec.toInt_mul, BitVec.toInt_ofInt, hvalue hdigits, Int.bmod_mul_bmod,
      bmod_of_fits hsign]

/-- What `str_to_long` accepts denotes a number. -/
theorem numberValue_of_true {str : CString} {base : Nat} {val : BitVec bits}
    (h : (strToLong str val base).1 = true) : ∃ x, NumberValue base str.chars x :=
  ⟨_, (numberValue_iff base str.chars _).mpr ⟨(strToLong_spec str val base).1.mp h, rfl⟩⟩

/-- **No number is silently wrong** if and only if there is no number in the string, or one
whose magnitude a `long` can hold. -/
theorem str_to_long_value (str : CString) (val : BitVec bits) (base : Nat) :
    ((strToLong str val base).1 = true → ∃ x, NumberValue base str.chars x ∧ Fits bits x ∧
        (strToLong str val base).2.toInt = x ∧ NoOverflow bits str base) ↔
      ∀ x, NumberValue base str.chars x → 2 * x.natAbs < 2 ^ bits := by
  constructor
  · intro hright x hx
    obtain ⟨htrue, hiff, -⟩ := strToLong_value hx val
    obtain ⟨-, -, -, -, hno⟩ := hright htrue
    exact hiff.mp hno
  · intro hsmall htrue
    obtain ⟨x, hx⟩ := numberValue_of_true htrue
    obtain ⟨-, hiff, hvalue⟩ := strToLong_value hx val
    have hno := hiff.mpr (hsmall x hx)
    exact ⟨x, hx, fits_natAbs (hsmall x hx), hvalue hno, hno⟩

/-- `1` and sixteen zeros in base 16 is accepted, as 0. -/
theorem str_to_long_wraps :
    ¬ (∀ (str : CString) (val : BitVec 64) (base : Nat), base = 0 ∨ 2 ≤ base ∧ base ≤ 36 →
      (strToLong str val base).1 = true → ∃ x, NumberValue base str.chars x ∧ Fits 64 x ∧
        (strToLong str val base).2.toInt = x ∧ NoOverflow 64 str base) := by
  intro h
  let str : CString := ⟨'1'.toUInt8 :: List.replicate 16 '0'.toUInt8, by decide⟩
  have hlong : strToLong str (5 : BitVec 64) 16 = (true, 0) := by decide +kernel
  obtain ⟨x, hx, -, hvalue, -⟩ := h str 5 16 (by decide) (by rw [hlong])
  rw [hlong] at hvalue
  obtain ⟨-, hnumber⟩ := (numberValue_iff 16 str.chars x).mp hx
  have hpow : (strSign (strStripLeft str.chars)).1 *
      (digitsValue (strBase 16 (strSign (strStripLeft str.chars)).2).1
        (strBase 16 (strSign (strStripLeft str.chars)).2).2 : Int) = 2 ^ 64 := by decide +kernel
  rw [hpow, ← hvalue] at hnumber
  exact absurd hnumber (by decide)

end EmbeddedMx
