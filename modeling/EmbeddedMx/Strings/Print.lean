import EmbeddedMx.Strings.Value

/-!
# Printed numbers

The usual notation of a number: blanks, a sign, a prefix or a leading 0, and the digits of the
number in a base. `str_to_long` reads every number back from it that a `long` can hold
together with its negation.
-/

namespace EmbeddedMx

open EmbeddedMx.Lib

variable {bits : Nat}

/-! ## Digits -/

/-- The character of a digit, above 9 an upper case or a lower case letter. -/
def digitChar (upper : Bool) (d : Nat) : UInt8 :=
  if d < 10 then '0'.toUInt8 + d.toUInt8
  else (if upper then 'A'.toUInt8 else 'a'.toUInt8) + (d - 10).toUInt8

theorem strDigit_digitChar (upper : Bool) {d : Nat} (h : d < 36) :
    strDigit (digitChar upper d) = some d := by
  have hall : ∀ d < 36, strDigit (digitChar false d) = some d ∧
      strDigit (digitChar true d) = some d := by decide +kernel
  cases upper with
  | false => exact (hall d h).1
  | true => exact (hall d h).2

/-- `upper` chooses the case of each letter. -/
def printDigits (upper : Nat → Bool) (digits : List Nat) : List UInt8 :=
  digits.mapIdx fun i d => digitChar (upper i) d

theorem printDigits_cons (upper : Nat → Bool) (d : Nat) (digits : List Nat) :
    printDigits upper (d :: digits) =
      digitChar (upper 0) d :: printDigits (fun i => upper (i + 1)) digits :=
  List.mapIdx_cons

/-- Printed digits are digits, and are read back. -/
theorem printDigits_spec {base : Nat} (hbase : base ≤ 36) (upper : Nat → Bool)
    {digits : List Nat} (h : ∀ d ∈ digits, d < base) :
    (∀ c ∈ printDigits upper digits, BelowBase base c) ∧
      (printDigits upper digits).filterMap strDigit = digits := by
  induction digits generalizing upper with
  | nil => exact ⟨nofun, rfl⟩
  | cons d digits ih =>
      obtain ⟨hd, hdigits⟩ := List.forall_mem_cons.mp h
      obtain ⟨hbelow, hread⟩ := ih (fun i => upper (i + 1)) hdigits
      have hchar := strDigit_digitChar (upper 0) (Nat.lt_of_lt_of_le hd hbase)
      rw [printDigits_cons, List.filterMap_cons_some hchar, hread]
      exact ⟨List.forall_mem_cons.mpr ⟨⟨d, hchar, hd⟩, hbelow⟩, rfl⟩

/-! ## Notation -/

/-- What stands before the digits to tell the base. -/
inductive Lead where
  | none
  | octal
  | hex (upper : Bool)
deriving DecidableEq

/-- The prefix. -/
def Lead.chars : Lead → List UInt8
  | .hex upper => ['0'.toUInt8, if upper then 'X'.toUInt8 else 'x'.toUInt8]
  | _ => []

theorem Lead.chars_none : Lead.none.chars = [] := rfl

theorem Lead.chars_octal : Lead.octal.chars = [] := rfl

theorem Lead.chars_hex (upper : Bool) : (Lead.hex upper).chars ≠ [] := List.cons_ne_nil _ _

theorem Lead.noNul (lead : Lead) : 0 ∉ lead.chars := by
  cases lead with
  | none => exact List.not_mem_nil
  | octal => exact List.not_mem_nil
  | hex upper => cases upper <;> decide

/-- The leading 0 of octal notation is a digit. -/
def Lead.zeros : Lead → List Nat
  | .octal => [0]
  | _ => []

/-- The choices that are left when a number is printed. -/
structure Style where
  base : Nat
  two_le : 2 ≤ base
  le_36 : base ≤ 36
  blanks : List UInt8
  blank : ∀ c ∈ blanks, isSpace c = true
  plus : Bool
  upper : Nat → Bool
  lead : Lead
  octal : lead = .octal → base = 8
  hex : ∀ u, lead = .hex u → base = 16

/-- The base that `str_to_long` is given: the base of the notation, or 0 for a notation from
which the base can be told. -/
def Style.ReadIn (style : Style) (parse : Nat) : Prop :=
  parse = style.base ∨ parse = 0 ∧ (style.lead = .none → style.base = 10)

/-- A plus sign is optional. -/
def printSign (plus : Bool) (v : Int) : List UInt8 :=
  if v < 0 then ['-'.toUInt8] else if plus then ['+'.toUInt8] else []

def Style.digits (style : Style) (v : Int) : List UInt8 :=
  printDigits style.upper (style.lead.zeros ++ numeral style.base v.natAbs)

/-- The notation of `v`. -/
def printLong (style : Style) (v : Int) : List UInt8 :=
  style.blanks ++ (printSign style.plus v ++ (style.lead.chars ++ style.digits v))

/-! ## Reading the parts back -/

theorem signValue_printSign (plus : Bool) (v : Int) :
    signValue (printSign plus v) * v.natAbs = v := by
  unfold printSign
  split
  · show -1 * (v.natAbs : Int) = v
    omega
  · have hone : signValue (if plus then ['+'.toUInt8] else []) = 1 := by
      cases plus <;> rfl
    rw [hone]
    omega

theorem printSign_cases (plus : Bool) (v : Int) : printSign plus v = [] ∨
    printSign plus v = ['+'.toUInt8] ∨ printSign plus v = ['-'.toUInt8] := by
  unfold printSign
  split
  · exact .inr (.inr rfl)
  · cases plus with
    | false => exact .inl rfl
    | true => exact .inr (.inl rfl)

theorem printSign_noNul (plus : Bool) (v : Int) : 0 ∉ printSign plus v := by
  rcases printSign_cases plus v with hsign | hsign | hsign
  all_goals
    rw [hsign]
    decide

namespace Style

variable (style : Style)

theorem digits_none (hlead : style.lead = .none) (v : Int) :
    style.digits v = printDigits style.upper (numeral style.base v.natAbs) := by
  unfold digits
  rw [hlead]
  rfl

theorem digits_octal (hlead : style.lead = .octal) (v : Int) :
    style.digits v = printDigits style.upper (0 :: numeral style.base v.natAbs) := by
  unfold digits
  rw [hlead]
  rfl

theorem digits_lt (n : Nat) :
    ∀ d ∈ style.lead.zeros ++ numeral style.base n, d < style.base := by
  intro d hd
  rcases List.mem_append.mp hd with hzero | hnumeral
  · have htwo := style.two_le
    unfold Lead.zeros at hzero
    split at hzero
    · rw [List.mem_singleton.mp hzero]
      omega
    · exact absurd hzero List.not_mem_nil
  · exact numeral_lt style.two_le n d hnumeral

theorem digits_below (v : Int) : ∀ c ∈ style.digits v, BelowBase style.base c :=
  (printDigits_spec style.le_36 style.upper (style.digits_lt v.natAbs)).1

theorem digits_value (v : Int) : digitsValue style.base (style.digits v) = v.natAbs := by
  unfold digitsValue digits
  rw [(printDigits_spec style.le_36 style.upper (style.digits_lt v.natAbs)).2]
  unfold Lead.zeros
  split
  · rw [List.singleton_append, Nat.ofDigits_reverse_zero_cons, ofDigits_numeral]
  · rw [List.nil_append, ofDigits_numeral]

/-- Without a leading 0 in the notation, the first digit is 0 for the number 0 only. -/
theorem digits_head (hlead : style.lead = .none) {v : Int} (hv : v ≠ 0) :
    (style.digits v).head? ≠ some '0'.toUInt8 := by
  have hhead := numeral_head style.base (Int.natAbs_ne_zero.mpr hv)
  have hlt := numeral_lt style.two_le v.natAbs
  rw [style.digits_none hlead]
  cases hdigits : numeral style.base v.natAbs with
  | nil => exact nofun
  | cons d digits =>
      rw [hdigits] at hhead hlt
      rw [printDigits_cons, List.head?_cons]
      intro hchar
      have hd := Nat.lt_of_lt_of_le (hlt d List.mem_cons_self) style.le_36
      have hread := strDigit_digitChar (style.upper 0) hd
      rw [Option.some.inj hchar] at hread
      exact hhead (congrArg some (Option.some.inj hread).symm)

/-- The number 0 without a prefix and without a leading 0. -/
theorem digits_zero (hlead : style.lead = .none) : style.digits 0 = ['0'.toUInt8] := by
  rw [style.digits_none hlead, Int.natAbs_zero, numeral_zero, printDigits_cons]
  rfl

/-- The base is told from the notation. Only a 0 that was printed in base 10 is read in
base 8, as its digit looks like the leading 0 of octal notation. -/
theorem effectiveBase_print {parse : Nat} (h : style.ReadIn parse) (v : Int) :
    effectiveBase parse style.lead.chars (style.digits v) = style.base ∨
      v = 0 ∧ style.lead = .none ∧
        effectiveBase parse style.lead.chars (style.digits v) = 8 := by
  have htwo := style.two_le
  cases hlead : style.lead with
  | none =>
      rw [Lead.chars_none, effectiveBase_nil]
      rcases h with rfl | ⟨rfl, hten⟩
      · rw [if_neg (by omega)]
        exact .inl rfl
      · rw [if_pos rfl, hten hlead]
        by_cases hv : v = 0
        · subst hv
          rw [style.digits_zero hlead]
          exact .inr ⟨rfl, rfl, rfl⟩
        · rw [if_neg (style.digits_head hlead hv)]
          exact .inl rfl
  | octal =>
      have height := style.octal hlead
      have hzero : (style.digits v).head? = some '0'.toUInt8 := by
        rw [style.digits_octal hlead, printDigits_cons]
        rfl
      rw [Lead.chars_octal, effectiveBase_nil, if_pos hzero]
      rcases h with rfl | ⟨rfl, -⟩
      · rw [if_neg (by omega)]
        exact .inl rfl
      · exact .inl height.symm
  | hex upper =>
      rw [effectiveBase_hex parse (Lead.chars_hex upper), style.hex upper hlead]
      exact .inl rfl

theorem parts_print {parse : Nat} (h : style.ReadIn parse) (v : Int) :
    NumberParts parse (printLong style v) style.blanks (printSign style.plus v)
      style.lead.chars (style.digits v) where
  parts := rfl
  blanks := style.blank
  sign := printSign_cases style.plus v
  hex := by
    cases hlead : style.lead with
    | none => exact .inl rfl
    | octal => exact .inl rfl
    | hex upper =>
        refine .inr ⟨?_, ?_⟩
        · rw [← style.hex upper hlead]
          exact h.elim .inr fun hzero => .inl hzero.1
        · cases upper with
          | false => exact .inl rfl
          | true => exact .inr rfl

/-- The number that the notation of `v` denotes is `v`. -/
theorem value_print {parse : Nat} (h : style.ReadIn parse) (v : Int) :
    NumberValue parse (printLong style v) v := by
  refine ⟨_, _, _, _, style.parts_print h v, ?_⟩
  rcases style.effectiveBase_print h v with hbase | ⟨rfl, hlead, hbase⟩
  · rw [hbase, style.digits_value, signValue_printSign]
    exact ⟨style.digits_below v, rfl⟩
  · rw [hbase, style.digits_zero hlead]
    refine ⟨?_, ?_⟩
    · intro c hc
      rw [List.mem_singleton.mp hc]
      exact ⟨0, rfl, by decide⟩
    · rw [show digitsValue 8 ['0'.toUInt8] = 0 by decide +kernel, Int.natCast_zero, mul_zero]

/-- There is no `NUL` in the notation. -/
theorem noNul_print (v : Int) : 0 ∉ printLong style v := by
  unfold printLong
  rw [List.mem_append, List.mem_append, List.mem_append]
  rintro (hblank | hsign | hlead | hdigit)
  · exact absurd (style.blank 0 hblank) (by decide)
  · exact printSign_noNul style.plus v hsign
  · exact style.lead.noNul hlead
  · obtain ⟨d, hd, -⟩ := style.digits_below v 0 hdigit
    cases hd

end Style

/-! ## The round trip -/

/-- The notation of `v` in memory. -/
def printed (style : Style) (v : Int) : CString where
  chars := printLong style v
  noNul := style.noNul_print v

/-- `LONG_MAX` -/
def longMax (bits : Nat) : Int := 2 ^ (bits - 1) - 1

theorem natAbs_of_longMax {v : Int} (h : -longMax bits ≤ v ∧ v ≤ longMax bits) :
    2 * v.natAbs < 2 ^ bits := by
  unfold longMax at h
  cases bits with
  | zero =>
      have hv : v = 0 := by
        change -(1 - 1) ≤ v ∧ v ≤ 1 - 1 at h
        omega
      rw [hv]
      decide
  | succ n =>
      rw [Nat.add_sub_cancel] at h
      rw [pow_succ]
      zify
      rcases abs_cases v with ⟨habs, hv⟩ | ⟨habs, hv⟩ <;> omega

/-- **What is printed is read back.** -/
theorem str_to_long_printed (style : Style) {parse : Nat} (hparse : style.ReadIn parse) {v : Int}
    (hv : -longMax bits ≤ v ∧ v ≤ longMax bits) (val : BitVec bits) :
    (strToLong (printed style v) val parse).1 = true ∧
      (strToLong (printed style v) val parse).2.toInt = v ∧
      NoOverflow bits (printed style v) parse := by
  have hnumber : NumberValue parse (printed style v).chars v := style.value_print hparse v
  obtain ⟨htrue, hiff, hvalue⟩ := strToLong_value hnumber val
  have hno := hiff.mpr (natAbs_of_longMax hv)
  exact ⟨htrue, hvalue hno, hno⟩

/-- Hexadecimal notation with `0X`. -/
def hexStyle : Style where
  base := 16
  two_le := by decide
  le_36 := by decide
  blanks := [' '.toUInt8]
  blank := List.forall_mem_singleton.mpr rfl
  plus := false
  upper := fun _ => false
  lead := .hex true
  octal := nofun
  hex := fun _ _ => rfl

theorem str_to_long_printed_hex :
    (printed hexStyle (-31)).chars =
        [' '.toUInt8, '-'.toUInt8, '0'.toUInt8, 'X'.toUInt8, '1'.toUInt8, 'f'.toUInt8] ∧
      (strToLong (printed hexStyle (-31)) (5 : BitVec 64) 0).1 = true ∧
      (strToLong (printed hexStyle (-31)) (5 : BitVec 64) 0).2.toInt = -31 ∧
      NoOverflow 64 (printed hexStyle (-31)) 0 :=
  ⟨by decide +kernel, str_to_long_printed hexStyle (.inr ⟨rfl, nofun⟩) (by decide) 5⟩

end EmbeddedMx
