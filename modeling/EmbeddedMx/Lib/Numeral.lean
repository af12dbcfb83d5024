import Mathlib.Data.Nat.Digits.Lemmas
import Mathlib.Tactic.Ring

/-!
# Numerals and Horner's rule

The digits of a number as they are written, most significant digit first, and Horner's rule,
which computes the number from its digits: over the naturals, and in a signed machine word.
In the word it is right as long as no step overflows. The accumulator never decreases, so
no step overflows if and only if the number itself is in the range of the word.
-/

namespace EmbeddedMx.Lib

/-! ## Horner's rule -/

/-- The number with the given digits, most significant digit first, behind those that `acc`
stands for. -/
def horner (base : Nat) : List Nat → Nat → Nat
  | [], acc => acc
  | d :: digits, acc => horner base digits (acc * base + d)

theorem horner_eq (base : Nat) (digits : List Nat) (acc : Nat) :
    horner base digits acc =
      acc * base ^ digits.length + Nat.ofDigits base digits.reverse := by
  induction digits generalizing acc with
  | nil =>
      rw [List.length_nil, pow_zero, Nat.mul_one, List.reverse_nil, Nat.ofDigits_nil]
      rfl
  | cons d digits ih =>
      rw [horner, ih, List.reverse_cons, Nat.ofDigits_append, Nat.ofDigits_singleton,
        List.length_reverse, List.length_cons, pow_succ]
      ring

theorem horner_zero (base : Nat) (digits : List Nat) :
    horner base digits 0 = Nat.ofDigits base digits.reverse := by
  rw [horner_eq, Nat.zero_mul, Nat.zero_add]

theorem le_horner {base : Nat} (hbase : 0 < base) (digits : List Nat) (acc : Nat) :
    acc ≤ horner base digits acc := by
  rw [horner_eq]
  calc acc ≤ acc * base ^ digits.length := Nat.le_mul_of_pos_right acc (Nat.pow_pos hbase)
    _ ≤ _ := Nat.le_add_right _ _

/-! ## Numerals -/

/-- The digits of `n`, most significant digit first, without a leading 0 unless `n` is 0. -/
def numeral (base n : Nat) : List Nat :=
  if n = 0 then [0] else (Nat.digits base n).reverse

theorem numeral_zero (base : Nat) : numeral base 0 = [0] := if_pos rfl

theorem ofDigits_numeral (base n : Nat) : Nat.ofDigits base (numeral base n).reverse = n := by
  unfold numeral
  split
  · rename_i hzero
    rw [hzero, List.reverse_singleton, Nat.ofDigits_singleton]
  · rw [List.reverse_reverse, Nat.ofDigits_digits]

theorem numeral_lt {base : Nat} (hbase : 2 ≤ base) (n : Nat) :
    ∀ d ∈ numeral base n, d < base := by
  intro d hd
  unfold numeral at hd
  split at hd
  · rw [List.mem_singleton.mp hd]
    exact Nat.zero_lt_of_lt hbase
  · exact Nat.digits_lt_base hbase (List.mem_reverse.mp hd)

theorem numeral_head (base : Nat) {n : Nat} (hn : n ≠ 0) : (numeral base n).head? ≠ some 0 := by
  unfold numeral
  rw [if_neg hn, List.head?_reverse]
  intro hlast
  have hne : Nat.digits base n ≠ [] := Nat.digits_ne_nil_iff_ne_zero.mpr hn
  rw [List.getLast?_eq_some_getLast hne] at hlast
  exact Nat.getLast_digit_ne_zero base hn (Option.some.inj hlast)

/-! ## Signed words -/

/-- `x` is in the range of the signed words of `bits` bits. -/
def Fits (bits : Nat) (x : Int) : Prop := -2 ^ bits ≤ 2 * x ∧ 2 * x < 2 ^ bits

instance (bits : Nat) (x : Int) : Decidable (Fits bits x) := inferInstanceAs (Decidable (_ ∧ _))

variable {bits : Nat}

theorem fits_natCast {n : Nat} : Fits bits n ↔ 2 * n < 2 ^ bits := by
  unfold Fits
  have hpos : 0 < 2 ^ bits := Nat.two_pow_pos bits
  zify at hpos ⊢
  omega

/-- A number and its negation. -/
theorem fits_natAbs {x : Int} (h : 2 * x.natAbs < 2 ^ bits) : Fits bits x := by
  unfold Fits
  zify at h
  rcases abs_cases x with ⟨habs, hsign⟩ | ⟨habs, hsign⟩ <;> omega

theorem fits_toInt (x : BitVec bits) : Fits bits x.toInt :=
  ⟨BitVec.le_two_mul_toInt, BitVec.two_mul_toInt_lt⟩

theorem bmod_of_fits {x : Int} (h : Fits bits x) : x.bmod (2 ^ bits) = x := by
  obtain ⟨hle, hlt⟩ := h
  refine Int.bmod_eq_of_le_mul_two ?_ ?_
  · push_cast
    omega
  · push_cast
    omega

/-- A product that is in the range is right. -/
theorem toInt_mul_of_fits {acc : BitVec bits} {n : Nat} (h : Fits bits (acc.toInt * n)) :
    (acc * BitVec.ofNat bits n).toInt = acc.toInt * n := by
  rw [BitVec.toInt_mul, BitVec.toInt_ofNat', Int.mul_bmod_bmod, bmod_of_fits h]

/-- A sum that is in the range is right. -/
theorem toInt_add_of_fits {acc : BitVec bits} {n : Nat} (h : Fits bits (acc.toInt + n)) :
    (acc + BitVec.ofNat bits n).toInt = acc.toInt + n := by
  rw [BitVec.toInt_add, BitVec.toInt_ofNat', Int.add_bmod_bmod, bmod_of_fits h]

/-! ## Horner's rule in a word -/

/-- Horner's rule, in a word. -/
def wordHorner (base : Nat) : List Nat → BitVec bits → BitVec bits
  | [], acc => acc
  | d :: digits, acc =>
      wordHorner base digits (acc * BitVec.ofNat bits base + BitVec.ofNat bits d)

/-- No product and no sum leaves the range of the word. -/
def HornerFits (base : Nat) : List Nat → BitVec bits → Prop
  | [], _ => True
  | d :: digits, acc =>
      Fits bits (acc.toInt * base) ∧ Fits bits ((acc * BitVec.ofNat bits base).toInt + d) ∧
        HornerFits base digits (acc * BitVec.ofNat bits base + BitVec.ofNat bits d)

/-- A step without overflow. -/
theorem toInt_horner_step {base d n : Nat} {acc : BitVec bits} (hacc : acc.toInt = n)
    (hmul : Fits bits (acc.toInt * base))
    (hadd : Fits bits ((acc * BitVec.ofNat bits base).toInt + d)) :
    (acc * BitVec.ofNat bits base + BitVec.ofNat bits d).toInt = (n * base + d : Nat) := by
  rw [toInt_add_of_fits hadd, toInt_mul_of_fits hmul, hacc]
  push_cast
  rfl

theorem toInt_wordHorner {base : Nat} {digits : List Nat} {acc : BitVec bits} {n : Nat}
    (hacc : acc.toInt = n) (h : HornerFits base digits acc) :
    (wordHorner base digits acc).toInt = horner base digits n := by
  induction digits generalizing acc n with
  | nil => exact hacc
  | cons d digits ih =>
      obtain ⟨hmul, hadd, hrest⟩ := h
      exact ih (toInt_horner_step hacc hmul hadd) hrest

/-- There is no overflow if and only if the number is in the range. -/
theorem hornerFits_iff {base : Nat} (hbase : 0 < base) {digits : List Nat} {acc : BitVec bits}
    {n : Nat} (hacc : acc.toInt = n) :
    HornerFits base digits acc ↔ Fits bits (horner base digits n) := by
  constructor
  · intro h
    rw [← toInt_wordHorner hacc h]
    exact fits_toInt _
  · induction digits generalizing acc n with
    | nil => exact fun _ => trivial
    | cons d digits ih =>
        intro h
        -- the number is at least the sum, and the sum at least the product
        have hle : n * base + d ≤ horner base digits (n * base + d) := le_horner hbase _ _
        have hlt : 2 * horner base digits (n * base + d) < 2 ^ bits := fits_natCast.mp h
        have hmul : Fits bits (acc.toInt * base) := by
          rw [hacc, ← Int.natCast_mul]
          exact fits_natCast.mpr (by omega)
        have hadd : Fits bits ((acc * BitVec.ofNat bits base).toInt + d) := by
          rw [toInt_mul_of_fits hmul, hacc, ← Int.natCast_mul, ← Int.natCast_add]
          exact fits_natCast.mpr (by omega)
        exact ⟨hmul, hadd, ih (toInt_horner_step hacc hmul hadd) h⟩

end EmbeddedMx.Lib
