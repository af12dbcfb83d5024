import EmbeddedMx.Dart.Checksum
import EmbeddedMx.Dart.Damage
import EmbeddedMx.Lib.Flips
import Mathlib.Tactic.NormNum.Prime

/-!
# How many flipped bits a frame shows

Both checksums are cyclic redundancy checks (`CrcCheck`): the xor of all bytes is the one with
the generator `x ^ 8 + 1`. Both generators have an even number of terms, so an odd number of
flipped bits in the data and the checksum never goes unnoticed. Two flipped bits do if their
distance is a multiple of the period of the generator: 8 for the xor, which takes no notice of the
places of bytes, and 32767 for the CRC-16. So up to three flipped bits are noticed wherever they
are in a frame of up to 4093 bytes.
-/

namespace EmbeddedMx

open EmbeddedMx.Lib

/-! ## Both checksums are cyclic -/

/-- The checksum of the build is the check with the feedback `p` and the initial value `s`. -/
structure CrcCheck (B : Build) {w : Nat} (p s : BitVec w) : Prop where
  low : p.getLsbD 0 = true
  calculated : ∀ data, dartCalculateCrc B data = (crcBits p s (byteBits data)).toNat
  sent : ∀ v : BitVec w, byteBits (dartSetCrcValue B v.toNat) = msbFirst w v

theorem crcCheck_two (w l : Width) : CrcCheck ⟨w, l, .two⟩ crcPoly 0xFFFF#16 where
  low := by decide
  calculated := dartCalculateCrc_bits w l
  sent := by
    intro v
    show byteBits [UInt8.ofNat (v.toNat / 256), UInt8.ofNat v.toNat] = _
    rw [byteBits_pair]
    congr 1
    apply BitVec.eq_of_toNat_eq
    have hv := v.isLt
    rw [toNat_pair, UInt8.toNat_ofNat', UInt8.toNat_ofNat']
    omega

/-- The xor of all bytes turns around after eight bits. -/
theorem xor_byte (crc b : UInt8) :
    (crc ^^^ b).toBitVec = crcBits 1#8 crc.toBitVec (msbFirst 8 b.toBitVec) := by
  have hround : ∀ y : BitVec 8, (crcTurn 1#8)^[8] y = y := by decide +kernel
  rw [crcBits_word, hround]
  rfl

theorem crcCheck_one (w l : Width) : CrcCheck ⟨w, l, .one⟩ 1#8 0xFF#8 where
  low := by decide
  calculated := by
    have hfold : ∀ (data : List UInt8) (crc : UInt8),
        (data.foldl (fun crc b => crc ^^^ b) crc).toBitVec =
          crcBits 1#8 crc.toBitVec (byteBits data) := by
      intro data
      induction data with
      | nil => exact fun _ => rfl
      | cons b data ih =>
          intro crc
          have hbits : byteBits (b :: data) = msbFirst 8 b.toBitVec ++ byteBits data :=
            List.flatMap_cons ..
          rw [List.foldl_cons, ih, xor_byte, hbits, crcBits_append]
    intro data
    show (data.foldl (fun crc b => crc ^^^ b) (0xFF : UInt8)).toNat = _
    rw [← UInt8.toNat_toBitVec, hfold]
    rfl
  sent := by
    intro v
    show byteBits [UInt8.ofNat v.toNat] = _
    have hbyte : (UInt8.ofNat v.toNat).toBitVec = v := by simp
    show msbFirst 8 (UInt8.ofNat v.toNat).toBitVec ++ [] = _
    rw [hbyte, List.append_nil]

section Frames

variable {B : Build} {w : Nat} {p s : BitVec w}

theorem CrcCheck.width (h : CrcCheck B p s) : w = 8 * B.crcSize.bytes := by
  have hlength := congrArg List.length (h.sent 0)
  rw [length_byteBits, length_msbFirst, dartSetCrcValue, length_toBe] at hlength
  exact hlength.symm

/-- What leaves nothing is data with the checksum that is sent. -/
theorem CrcCheck.frame_iff (h : CrcCheck B p s) {data field : List UInt8}
    (hfield : field.length = B.crcSize.bytes) :
    crcBits p s (byteBits (data ++ field)) = 0 ↔
      field = dartSetCrcValue B (dartCalculateCrc B data) := by
  have hlen : (byteBits field).length = w := by rw [length_byteBits, hfield, h.width]
  obtain ⟨v, hv⟩ := exists_msbFirst hlen
  rw [byteBits_append, hv, crcBits_check h.low, h.calculated]
  constructor
  · rintro rfl
    exact byteBits_injective (hv.trans (h.sent _).symm)
  · intro heq
    rw [heq, h.sent] at hv
    exact msbFirst_injective hv

/-- What arrives fits exactly if the errors leave nothing. -/
theorem CrcCheck.damaged (h : CrcCheck B p s) {data errs : List UInt8}
    (herrs : errs.length = data.length + B.crcSize.bytes) :
    crcBits p s (byteBits
        (xorBytes (data ++ dartSetCrcValue B (dartCalculateCrc B data)) errs)) =
      crcBits p 0 (byteBits errs) := by
  have hlen : (data ++ dartSetCrcValue B (dartCalculateCrc B data)).length = errs.length := by
    rw [List.length_append, herrs, dartSetCrcValue, length_toBe]
  have hbits : (byteBits (data ++ dartSetCrcValue B (dartCalculateCrc B data))).length =
      (byteBits errs).length := by
    rw [length_byteBits, length_byteBits, hlen]
  have hframe : crcBits p s
      (byteBits (data ++ dartSetCrcValue B (dartCalculateCrc B data))) = 0 :=
    (h.frame_iff (by rw [dartSetCrcValue, length_toBe])).mpr rfl
  have hxor := crcBits_xor p s 0 hbits
  rw [show s ^^^ 0 = s from BitVec.xor_zero, hframe] at hxor
  rw [xorBytes, byteBits_xor hlen]
  exact hxor.trans BitVec.zero_xor

/-- It is a frame exactly then. -/
theorem CrcCheck.damaged_frame (h : CrcCheck B p s) {data errs : List UInt8}
    (herrs : errs.length = data.length + B.crcSize.bytes) :
    (∃ data', dartSync :: (dartSetDataLen B data.length ++
        xorBytes (data ++ dartSetCrcValue B (dartCalculateCrc B data)) errs) =
      dartFrame B data') ↔ crcBits p 0 (byteBits errs) = 0 := by
  rw [← h.damaged herrs]
  -- only the bytes that arrive behind the length matter, and how many they are
  generalize hbytes : xorBytes (data ++ dartSetCrcValue B (dartCalculateCrc B data)) errs = bytes
  have hlen : bytes.length = data.length + B.crcSize.bytes := by
    rw [← hbytes, xorBytes, List.length_zipWith, List.length_append, herrs, dartSetCrcValue,
      length_toBe, Nat.min_self]
  constructor
  · rintro ⟨data', heq⟩
    have hsame : data'.length = data.length := by
      have hlength := congrArg List.length heq
      rw [length_dartFrame] at hlength
      simp only [List.length_cons, List.length_append, dartSetDataLen, length_toBe,
        Build.frameBytes, Build.lenBytes] at hlength
      omega
    rw [dartFrame, List.append_assoc, hsame] at heq
    rw [List.append_cancel_left (List.cons.inj heq).2]
    exact (h.frame_iff (by rw [dartSetCrcValue, length_toBe])).mpr rfl
  · intro hzero
    have hdata : (bytes.take data.length).length = data.length := by
      rw [List.length_take]
      omega
    rw [← List.take_append_drop data.length bytes, h.frame_iff (by
      rw [List.length_drop]
      omega)] at hzero
    refine ⟨bytes.take data.length, ?_⟩
    rw [dartFrame, List.append_assoc, ← hzero, List.take_append_drop, hdata]

end Frames

/-! ## The periods -/

/-- The period of the generator. -/
def crcPeriod : Width → Nat
  | .one => 8
  | .two => 32767

theorem xor_period : Function.minimalPeriod (crcTurn 1#8) 1#8 = 8 := by
  refine minimalPeriod_of_prime (by decide) fun q hq hdvd => ?_
  obtain rfl : q = 2 := (Nat.prime_dvd_prime_iff_eq hq Nat.prime_two).mp
    (hq.dvd_of_dvd_pow (show q ∣ 2 ^ 3 from hdvd))
  decide

/-- Turning the CRC-16. -/
theorem crcPoly_turns (m n : Nat) (s : BitVec 16) :
    Function.IsPeriodicPt (crcTurn crcPoly) (m * n) s ↔
      spin (spin (turnNat 16 0x1021) m) n s.toNat = s.toNat := by
  have hturns := crcTurns_toNat crcPoly s m n
  rw [← show crcPoly.toNat = 0x1021 from rfl, ← hturns, BitVec.toNat_inj]
  rfl

theorem crcPoly_period : Function.minimalPeriod (crcTurn crcPoly) crcPoly = 32767 := by
  refine minimalPeriod_of_prime ((crcPoly_turns 217 151 _).mpr (by decide +kernel))
    fun q hq hdvd => ?_
  -- 32767 = 7 * 31 * 151
  rcases (Nat.Prime.dvd_mul hq).mp (show q ∣ 217 * 151 from hdvd) with hdvd | hdvd
  · rcases (Nat.Prime.dvd_mul hq).mp (show q ∣ 7 * 31 from hdvd) with hdvd | hdvd
    · obtain rfl := (Nat.prime_dvd_prime_iff_eq hq (by norm_num)).mp hdvd
      exact mt (crcPoly_turns 31 151 _).mp (by decide +kernel)
    · obtain rfl := (Nat.prime_dvd_prime_iff_eq hq (by norm_num)).mp hdvd
      exact mt (crcPoly_turns 7 151 _).mp (by decide +kernel)
  · obtain rfl := (Nat.prime_dvd_prime_iff_eq hq (by norm_num)).mp hdvd
    exact mt (crcPoly_turns 7 31 _).mp (by decide +kernel)

/-! ## What is noticed -/

/-- Both checksums are checks whose feedback has an odd number of bits, and the period says how
often it turns. -/
theorem crcCheck_of_build (B : Build) : ∃ (w : Nat) (p s : BitVec w), CrcCheck B p s ∧
    wordParity p = true ∧ Function.minimalPeriod (crcTurn p) p = crcPeriod B.crcSize := by
  obtain ⟨w, l, c⟩ := B
  cases c with
  | one => exact ⟨8, _, _, crcCheck_one w l, by decide, xor_period⟩
  | two => exact ⟨16, _, _, crcCheck_two w l, by decide, crcPoly_period⟩

theorem flips_left {B : Build} {data errs : List UInt8}
    (herrs : errs.length = data.length + B.crcSize.bytes)
    (hflips : Flips (crcPeriod B.crcSize) (byteBits errs)) (data' : List UInt8) :
    dartSync :: (dartSetDataLen B data.length ++
      xorBytes (data ++ dartSetCrcValue B (dartCalculateCrc B data)) errs) ≠ dartFrame B data' := by
  obtain ⟨w, p, s, hcheck, hodd, hperiod⟩ := crcCheck_of_build B
  intro heq
  refine crcBits_flips hcheck.low hodd ?_ ((hcheck.damaged_frame herrs).mp ⟨data', heq⟩)
  rw [hperiod]
  exact hflips

theorem pair_missed {B : Build} {data errs : List UInt8}
    (herrs : errs.length = data.length + B.crcSize.bytes) {a b c : Nat}
    (hpair : byteBits errs = pairBits a b c) (hdvd : crcPeriod B.crcSize ∣ b + 1) :
    ∃ data', dartSync :: (dartSetDataLen B data.length ++
      xorBytes (data ++ dartSetCrcValue B (dartCalculateCrc B data)) errs) = dartFrame B data' := by
  obtain ⟨w, p, s, hcheck, -, hperiod⟩ := crcCheck_of_build B
  refine (hcheck.damaged_frame herrs).mpr ?_
  rw [hpair, crcBits_pair_iff hcheck.low, hperiod]
  exact hdvd

/-- **Few flipped bits are noticed.** Bits are flipped in the data and the checksum of a frame, an
odd number of them or two whose distance is no multiple of the period: the endpoint that the
frame is fed to reports nothing. Two at a multiple of the period turn the frame into another
one. -/
theorem dart_flips_detected (B : Build) (d : Dart) (data errs : List UInt8)
    (input : List (Env × UInt8)) (hsize : d.rxBufferSize < 2 ^ 16) (hempty : d.rxBufferBytes = 0)
    (hlen : data.length < 256 ^ B.lenSize.bytes) (hfits : B.frameBytes data.length ≤ d.rxBufferSize)
    (herrs : errs.length = data.length + B.crcSize.bytes)
    (hbytes : input.map Prod.snd = dartSync :: (dartSetDataLen B data.length ++
      xorBytes (data ++ dartSetCrcValue B (dartCalculateCrc B data)) errs))
    (htime : InTime B d input) :
    (Flips (crcPeriod B.crcSize) (byteBits errs) → ReportsNothing d (dartFeed B d input)) ∧
    (∀ a b c, byteBits errs = pairBits a b c → crcPeriod B.crcSize ∣ b + 1 →
      ∃ data', input.map Prod.snd = dartFrame B data') := by
  constructor
  · intro hflips
    refine feed_no_frame (rxPart_nil hempty) (n := data.length) (by rw [List.nil_append, hbytes]) ?_
      hlen hfits (flips_left herrs hflips) hsize htime
    rw [xorBytes, List.length_zipWith, List.length_append, herrs, dartSetCrcValue, length_toBe,
      Nat.min_self]
  · intro a b c hpair hdvd
    rw [hbytes]
    exact pair_missed herrs hpair hdvd

/-- The frame of `data` with the errors `errs` in the data and the checksum, as it arrives. -/
def flippedInput (B : Build) (data errs : List UInt8) : List (Env × UInt8) :=
  (dartSync :: (dartSetDataLen B data.length ++
    xorBytes (data ++ dartSetCrcValue B (dartCalculateCrc B data)) errs)).map
      fun ch => (.plain 7 true, ch)

/-- Three bits are flipped in a frame with a CRC-16, and two bits eight apart in one with the xor
of all bytes. -/
theorem dart_flips_detected_three :
    ReportsNothing (dartFresh 512 64) (dartFeed ⟨.one, .one, .two⟩ (dartFresh 512 64)
      (flippedInput ⟨.one, .one, .two⟩ [0x12, 0x34] [0x01, 0x80, 0x00, 0x01])) ∧
    ∃ data', (flippedInput ⟨.one, .one, .one⟩ [0x12, 0x34] [0x01, 0x01, 0x00]).map Prod.snd =
      dartFrame ⟨.one, .one, .one⟩ data' := by
  have hthree := dart_flips_detected ⟨.one, .one, .two⟩ (dartFresh 512 64) [0x12, 0x34]
    [0x01, 0x80, 0x00, 0x01] (flippedInput ⟨.one, .one, .two⟩ [0x12, 0x34] [0x01, 0x80, 0x00, 0x01])
    (by decide) rfl (by decide) (by decide) rfl (by decide) (by decide +kernel)
  have hpair := dart_flips_detected ⟨.one, .one, .one⟩ (dartFresh 512 64) [0x12, 0x34]
    [0x01, 0x01, 0x00] (flippedInput ⟨.one, .one, .one⟩ [0x12, 0x34] [0x01, 0x01, 0x00])
    (by decide) rfl (by decide) (by decide) rfl (by decide) (by decide +kernel)
  exact ⟨hthree.1 (flips_of_few (by decide) (by decide) (by decide)),
    hpair.2 7 7 8 (by decide) (by decide)⟩

end EmbeddedMx
