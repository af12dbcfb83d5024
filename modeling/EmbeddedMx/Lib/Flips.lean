import EmbeddedMx.Lib.Crc
import Mathlib.Algebra.Ring.Parity
import Mathlib.Data.Nat.Prime.Basic
import Mathlib.Dynamics.PeriodicPts.Defs

/-!
# Few flipped bits

What a cyclic redundancy check makes of errors with few bits, wherever these are. If the
feedback has an odd number of bits then the register keeps count of the parity of all that
comes in, and errors with an odd number of bits leave something (`crcBits_odd`). Two bits
leave nothing exactly if the register, filled with the feedback and turned from the one to
the other, is as before: if their distance is a multiple of its period (`crcBits_pair_iff`).

The period is found by turning (`minimalPeriod_of_prime`). `spin` turns in a way that the
kernel can follow far enough.
-/

namespace EmbeddedMx.Lib

variable {w : Nat}

/-! ## Parity -/

/-- An odd number of the bits is set. -/
def parity (bits : List Bool) : Bool := bits.foldr xor false

theorem parity_cons (b : Bool) (bits : List Bool) : parity (b :: bits) = (b ^^ parity bits) := rfl

theorem parity_append (bits bits' : List Bool) :
    parity (bits ++ bits') = (parity bits ^^ parity bits') := by
  induction bits with
  | nil => exact (Bool.false_xor _).symm
  | cons b bits ih => rw [List.cons_append, parity_cons, parity_cons, ih, Bool.xor_assoc]

theorem parity_zipWith {bits bits' : List Bool} (h : bits.length = bits'.length) :
    parity (List.zipWith xor bits bits') = (parity bits ^^ parity bits') := by
  induction bits generalizing bits' with
  | nil =>
      cases bits' with
      | nil => rfl
      | cons c bits' => cases h
  | cons b bits ih =>
      cases bits' with
      | nil => cases h
      | cons c bits' =>
          rw [List.zipWith_cons_cons, parity_cons, parity_cons, parity_cons, ih (Nat.succ.inj h)]
          cases b <;> cases c <;> cases parity bits <;> cases parity bits' <;> rfl

theorem parity_iff (bits : List Bool) : parity bits = true ↔ Odd (bits.count true) := by
  induction bits with
  | nil => decide
  | cons b bits ih =>
      rw [parity_cons]
      cases b with
      | false =>
          rw [Bool.false_xor, List.count_cons_of_ne (by decide)]
          exact ih
      | true =>
          rw [List.count_cons_self, Nat.odd_add_one, ← ih]
          simp

/-- An odd number of the bits of a word is set. -/
def wordParity (s : BitVec w) : Bool := parity (msbFirst w s)

theorem wordParity_zero : wordParity (0 : BitVec w) = false := by
  have hzeros : msbFirst w (0 : BitVec w) = List.replicate w false :=
    List.eq_replicate_iff.mpr ⟨length_msbFirst w _, by simp [msbFirst]⟩
  unfold wordParity
  rw [hzeros]
  clear hzeros
  induction w with
  | zero => rfl
  | succ w ih => rw [List.replicate_succ, parity_cons, ih, Bool.false_xor]

theorem wordParity_xor (s t : BitVec w) :
    wordParity (s ^^^ t) = (wordParity s ^^ wordParity t) := by
  unfold wordParity
  rw [msbFirst_xor, parity_zipWith (by simp)]

/-- A shift loses the first bit. -/
theorem wordParity_shift (s : BitVec w) : wordParity (s <<< 1) = (s.msb ^^ wordParity s) := by
  cases w with
  | zero => rw [BitVec.of_length_zero (x := s)]; rfl
  | succ w =>
      have hlast : msbFirst (w + 1) (s <<< 1) = msbFirst w (s <<< 1) ++ [false] := by
        unfold msbFirst
        rw [List.range_succ, List.map_append, List.map_singleton, BitVec.getMsbD_shiftLeft,
          BitVec.getMsbD_of_ge s (w + 1) (Nat.le_refl _)]
      unfold wordParity
      rw [hlast, parity_append, msbFirst_succ, parity_cons, ← Bool.xor_assoc]
      simp [parity]

/-- What has come in leaves its parity. -/
theorem wordParity_crcBit {p : BitVec w} (hp : wordParity p = true) (s : BitVec w) (b : Bool) :
    wordParity (crcBit p s b) = (wordParity s ^^ b) := by
  have hfeedback : ∀ c, wordParity (crcFeedback p c) = c := by
    intro c
    cases c with
    | false => exact wordParity_zero
    | true => exact hp
  rw [crcBit_eq, wordParity_xor, wordParity_shift, hfeedback]
  cases s.msb <;> cases wordParity s <;> cases b <;> rfl

theorem wordParity_crcBits {p : BitVec w} (hp : wordParity p = true) (s : BitVec w)
    (bits : List Bool) : wordParity (crcBits p s bits) = (wordParity s ^^ parity bits) := by
  induction bits generalizing s with
  | nil => exact (Bool.xor_false _).symm
  | cons b bits ih =>
      show wordParity (crcBits p (crcBit p s b) bits) = _
      rw [ih, wordParity_crcBit hp, parity_cons, Bool.xor_assoc]

/-- **An odd number of bits is detected.** -/
theorem crcBits_odd {p : BitVec w} (hp : wordParity p = true) {bits : List Bool}
    (h : Odd (bits.count true)) : crcBits p 0 bits ≠ 0 := by
  intro hzero
  have hparity := wordParity_crcBits hp 0 bits
  rw [hzero, wordParity_zero, (parity_iff bits).mpr h] at hparity
  cases hparity

/-! ## Two bits -/

/-- Two bits, with `b` empty bits between them. -/
def pairBits (a b c : Nat) : List Bool :=
  List.replicate a false ++ true :: (List.replicate b false ++ true :: List.replicate c false)

theorem length_pairBits (a b c : Nat) : (pairBits a b c).length = a + b + c + 2 := by
  simp only [pairBits, List.length_append, List.length_replicate, List.length_cons]
  omega

/-- The first bit that is set. -/
theorem exists_first_bit {bits : List Bool} (h : 0 < bits.count true) :
    ∃ a rest, bits = List.replicate a false ++ true :: rest ∧
      bits.count true = rest.count true + 1 := by
  induction bits with
  | nil => exact absurd h (Nat.lt_irrefl 0)
  | cons b bits ih =>
      cases b with
      | true => exact ⟨0, bits, rfl, List.count_cons_self⟩
      | false =>
          have hcount : (false :: bits).count true = bits.count true :=
            List.count_cons_of_ne (by decide)
          rw [hcount] at h ⊢
          obtain ⟨a, rest, rfl, hrest⟩ := ih h
          exact ⟨a + 1, rest, rfl, hrest⟩

theorem exists_pairBits {bits : List Bool} (h : bits.count true = 2) :
    ∃ a b c, bits = pairBits a b c := by
  obtain ⟨a, rest, rfl, hrest⟩ := exists_first_bit (h ▸ Nat.two_pos)
  obtain ⟨b, rest', rfl, hrest'⟩ := exists_first_bit (show 0 < rest.count true by omega)
  have hzero : rest'.count true = 0 := by omega
  refine ⟨a, b, rest'.length, ?_⟩
  have hempty : rest' = List.replicate rest'.length false := by
    refine List.eq_replicate_iff.mpr ⟨rfl, fun x hx => ?_⟩
    cases x with
    | false => rfl
    | true => exact absurd hx (List.count_eq_zero.mp hzero)
  rw [pairBits, ← hempty]

theorem crcBit_true (p s : BitVec w) : crcBit p s true = crcTurn p s ^^^ p := by
  unfold crcTurn
  rw [crcBit_eq, crcBit_eq, Bool.xor_false, crcFeedback_xor, ← BitVec.xor_assoc]
  rfl

theorem crcTurns_zero (p : BitVec w) (n : Nat) : (crcTurn p)^[n] 0 = 0 := by
  have hself := crcTurns_xor p n 0 0
  rwa [BitVec.xor_self, BitVec.xor_self] at hself

/-- What two bits leave. -/
theorem crcBits_pairBits (p : BitVec w) (a b c : Nat) :
    crcBits p 0 (pairBits a b c) = (crcTurn p)^[c] ((crcTurn p)^[b + 1] p ^^^ p) := by
  have hfirst : crcBit p 0 true = p := by
    rw [crcBit_true, show crcTurn p 0 = 0 from crcTurns_zero p 1]
    exact BitVec.zero_xor
  unfold pairBits
  rw [crcBits_append, crcBits_replicate, crcTurns_zero]
  show crcBits p (crcBit p 0 true) _ = _
  rw [hfirst, crcBits_append, crcBits_replicate]
  show crcBits p (crcBit p _ true) _ = _
  rw [crcBit_true, crcBits_replicate, Function.iterate_succ_apply']

/-- **Two bits are missed exactly at multiples of the period.** -/
theorem crcBits_pair_iff {p : BitVec w} (hp : p.getLsbD 0 = true) (a b c : Nat) :
    crcBits p 0 (pairBits a b c) = 0 ↔ Function.minimalPeriod (crcTurn p) p ∣ b + 1 := by
  rw [crcBits_pairBits, ← Function.isPeriodicPt_iff_minimalPeriod_dvd]
  constructor
  · -- turning loses nothing, so the bits behind the second one do not help
    intro hzero
    by_contra hne
    exact crcTurns_ne_zero hp (mt BitVec.xor_eq_zero_iff.mp hne) c hzero
  · intro hperiod
    rw [hperiod.eq, BitVec.xor_self]
    exact crcTurns_zero p c

/-- Errors that are detected: an odd number of bits, or two at a distance that is no multiple
of `n`. -/
def Flips (n : Nat) (bits : List Bool) : Prop :=
  Odd (bits.count true) ∨ ∃ a b c, bits = pairBits a b c ∧ ¬ n ∣ b + 1

/-- Up to three bits in a short sequence. -/
theorem flips_of_few {n : Nat} {bits : List Bool} (hpos : 0 < bits.count true)
    (hfew : bits.count true ≤ 3) (hlen : bits.length ≤ n) : Flips n bits := by
  by_cases htwo : bits.count true = 2
  · -- the distance is less than the length
    obtain ⟨a, b, c, rfl⟩ := exists_pairBits htwo
    rw [length_pairBits] at hlen
    exact .inr ⟨a, b, c, rfl, Nat.not_dvd_of_pos_of_lt (Nat.succ_pos b) (by omega)⟩
  · left
    rw [Nat.odd_iff]
    omega

theorem crcBits_flips {p : BitVec w} (hp : p.getLsbD 0 = true) (hodd : wordParity p = true)
    {bits : List Bool} (h : Flips (Function.minimalPeriod (crcTurn p) p) bits) :
    crcBits p 0 bits ≠ 0 := by
  rcases h with h | ⟨a, b, c, rfl, h⟩
  · exact crcBits_odd hodd h
  · exact mt (crcBits_pair_iff hp a b c).mp h

/-! ## Bits determine bytes -/

theorem msbFirst_injective : Function.Injective (msbFirst w : BitVec w → List Bool) := by
  intro u v h
  refine BitVec.eq_of_getMsbD_eq fun i hi => ?_
  have hget := congrArg (fun bits => bits[i]?) h
  simpa [msbFirst, hi] using hget

theorem byteBits_injective : Function.Injective byteBits := by
  intro bytes bytes' h
  have hlength := congrArg List.length h
  rw [length_byteBits, length_byteBits] at hlength
  induction bytes generalizing bytes' with
  | nil =>
      cases bytes' with
      | nil => rfl
      | cons c bytes' =>
          rw [List.length_cons] at hlength
          cases hlength
  | cons b bytes ih =>
      cases bytes' with
      | nil =>
          rw [List.length_cons] at hlength
          cases hlength
      | cons c bytes' =>
          have hsplit : msbFirst 8 b.toBitVec ++ byteBits bytes =
              msbFirst 8 c.toBitVec ++ byteBits bytes' := h
          obtain ⟨hfirst, hrest⟩ := List.append_inj hsplit (by simp)
          simp only [List.length_cons] at hlength
          rw [ih hrest (by omega), UInt8.toBitVec_inj.mp (msbFirst_injective hfirst)]

/-! ## Finding a period -/

/-- A period is the smallest one if none of its quotients by a prime is one. -/
theorem minimalPeriod_of_prime {α : Type*} {f : α → α} {x : α} {n : Nat}
    (h : Function.IsPeriodicPt f n x)
    (hprime : ∀ q, q.Prime → q ∣ n → ¬ Function.IsPeriodicPt f (n / q) x) :
    Function.minimalPeriod f x = n := by
  obtain ⟨k, hk⟩ := h.minimalPeriod_dvd
  by_contra hne
  -- a prime of the cofactor gives a quotient that is still a period
  have hk1 : k ≠ 1 := fun hk1 => hne (by rw [hk, hk1, Nat.mul_one])
  obtain ⟨q, hq, j, rfl⟩ := Nat.exists_prime_and_dvd hk1
  have hqn : n = q * (Function.minimalPeriod f x * j) := by
    rw [hk, Nat.mul_left_comm]
  refine hprime q hq ⟨_, hqn⟩ ?_
  rw [Function.isPeriodicPt_iff_minimalPeriod_dvd, hqn, Nat.mul_div_cancel_left _ hq.pos]
  exact ⟨j, rfl⟩

/-- `f` applied `n` times, each value before the next application. -/
def spin (f : Nat → Nat) : Nat → Nat → Nat
  | 0, a => a
  | n + 1, a =>
      match f a with
      | 0 => spin f n 0
      | k + 1 => spin f n (k + 1)

theorem spin_eq (f : Nat → Nat) (n a : Nat) : spin f n a = f^[n] a := by
  induction n generalizing a with
  | zero => rfl
  | succ n ih =>
      rw [Function.iterate_succ_apply, ← ih, spin]
      split
      · rename_i hzero
        rw [hzero]
      · rename_i k hk
        rw [hk]

/-- A turn of the register, on numbers. -/
def turnNat (w p a : Nat) : Nat := bif Nat.blt a (2 ^ (w - 1)) then 2 * a else 2 * a ^^^ (2 ^ w + p)

theorem crcTurn_toNat (p s : BitVec w) : (crcTurn p s).toNat = turnNat w p.toNat s.toNat := by
  cases w with
  | zero => rw [BitVec.of_length_zero (x := p), BitVec.of_length_zero (x := s)]; rfl
  | succ w =>
      have hs := s.isLt
      have hp := p.isLt
      have hpow := Nat.pow_succ (n := 2) (m := w)
      unfold crcTurn crcBit turnNat
      rw [Bool.xor_false, BitVec.msb_eq_decide, Nat.add_sub_cancel]
      by_cases hlow : s.toNat < 2 ^ w
      · rw [if_neg (by simpa using hlow), Nat.blt_eq.mpr hlow, BitVec.toNat_shiftLeft,
          Nat.shiftLeft_eq, Nat.mod_eq_of_lt (by omega), Nat.pow_one, Nat.mul_comm]
        rfl
      · have hblt : Nat.blt s.toNat (2 ^ w) = false := by
          rw [Bool.eq_false_iff, Ne, Nat.blt_eq]
          exact hlow
        rw [if_pos (by simpa using hlow), hblt, BitVec.toNat_xor, BitVec.toNat_shiftLeft,
          Nat.shiftLeft_eq, Nat.pow_one]
        show s.toNat * 2 % 2 ^ (w + 1) ^^^ p.toNat = 2 * s.toNat ^^^ (2 ^ (w + 1) + p.toNat)
        -- the leading bits meet
        have hdiv : (2 * s.toNat ^^^ (2 ^ (w + 1) + p.toNat)) / 2 ^ (w + 1) = 0 := by
          have hone : 2 * s.toNat / 2 ^ (w + 1) = 1 := Nat.div_eq_of_lt_le (by omega) (by omega)
          have hone' : (2 ^ (w + 1) + p.toNat) / 2 ^ (w + 1) = 1 :=
            Nat.div_eq_of_lt_le (by omega) (by omega)
          rw [Nat.xor_div_two_pow, hone, hone', Nat.xor_self]
        have hmod : (2 * s.toNat ^^^ (2 ^ (w + 1) + p.toNat)) % 2 ^ (w + 1) =
            s.toNat * 2 % 2 ^ (w + 1) ^^^ p.toNat := by
          rw [Nat.xor_mod_two_pow, Nat.add_mod_left, Nat.mod_eq_of_lt hp, Nat.mul_comm]
        have hsum := Nat.div_add_mod (2 * s.toNat ^^^ (2 ^ (w + 1) + p.toNat)) (2 ^ (w + 1))
        rw [hdiv, Nat.mul_zero, Nat.zero_add, hmod] at hsum
        exact hsum

/-- Turning `m * n` times. -/
theorem crcTurns_toNat (p s : BitVec w) (m n : Nat) :
    ((crcTurn p)^[m * n] s).toNat = spin (spin (turnNat w p.toNat) m) n s.toNat := by
  have hsemi : Function.Semiconj BitVec.toNat (crcTurn p) (turnNat w p.toNat) := crcTurn_toNat p
  rw [(hsemi.iterate_right (m * n)).eq, Function.iterate_mul, spin_eq]
  congr 1
  funext a
  rw [spin_eq]

end EmbeddedMx.Lib
