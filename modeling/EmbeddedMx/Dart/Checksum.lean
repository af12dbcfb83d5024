import EmbeddedMx.Lib.Crc
import EmbeddedMx.Dart.Model

/-!
# The two byte checksum

With `DART_CRC_SIZE == 2` a turn of `dart_calculate_crc` takes in a whole byte. It is
eight turns of a shift register with the feedback `0x1021` (`crcStep_bits`): both are
linear, and they agree on the words with one empty byte. So the checksum is the
CRC-16 of the data, and what is known of such checks holds for it.
-/

namespace EmbeddedMx

open EmbeddedMx.Lib

/-- The generator polynomial `x ^ 16 + x ^ 12 + x ^ 5 + 1`. -/
def crcPoly : BitVec 16 := 0x1021#16

/-- The CRC-16 of the data, bit by bit: initial value `0xFFFF`, most significant bit
first, no final xor. -/
def crcBitwise (data : List UInt8) : BitVec 16 := crcBits crcPoly 0xFFFF#16 (byteBits data)

/-! ## One turn -/

/-- A turn, behind the xor of the byte that comes in. -/
def crcFold (y : BitVec 16) : BitVec 16 :=
  let x := y >>> 8
  let x := x ^^^ x >>> 4
  y <<< 8 ^^^ x <<< 12 ^^^ x <<< 5 ^^^ x

theorem crcFold_xor (y z : BitVec 16) : crcFold (y ^^^ z) = crcFold y ^^^ crcFold z := by
  unfold crcFold
  simp only [BitVec.ushiftRight_xor_distrib]
  rw [xor_exchange (y >>> 8)]
  simp only [BitVec.shiftLeft_xor_distrib]
  rw [xor_exchange (y <<< 8), xor_exchange (y <<< 8 ^^^ _), xor_exchange (y <<< 8 ^^^ _ ^^^ _)]

/-- The byte comes in at the upper end. -/
theorem crcStep_fold (crc : UInt16) (b : UInt8) :
    (crcStep crc b).toBitVec = crcFold (crc.toBitVec ^^^ b.toBitVec.setWidth 16 <<< 8) := by
  have hback : ∀ b : BitVec 8, (b.setWidth 16 <<< 8) >>> 8 = b.setWidth 16 := by
    decide +kernel
  have hx : (crc.toBitVec ^^^ b.toBitVec.setWidth 16 <<< 8) >>> 8 =
      crc.toBitVec >>> 8 ^^^ b.toBitVec.setWidth 16 := by
    rw [BitVec.ushiftRight_xor_distrib, hback]
  have hcrc : (crc.toBitVec ^^^ b.toBitVec.setWidth 16 <<< 8) <<< 8 = crc.toBitVec <<< 8 := by
    rw [BitVec.shiftLeft_xor_distrib, ← BitVec.shiftLeft_add]
    simp
  unfold crcFold
  rw [hx, hcrc]
  rfl

/-- A word is the difference of its halves. -/
theorem split_halves (y : BitVec 16) :
    y = (y.setWidth 8).setWidth 16 ^^^ ((y >>> 8).setWidth 8).setWidth 16 <<< 8 := by
  ext i hi
  rw [← BitVec.getLsbD_eq_getElem hi]
  by_cases hlow : i < 8
  · simp [hlow]
  · have hhigh : i - 8 < 8 := by omega
    simp [hlow, hhigh, show 8 + (i - 8) = i by omega]

/-- Eight turns of the register at once. -/
theorem crcFold_eq (y : BitVec 16) : crcFold y = (crcTurn crcPoly)^[8] y := by
  have hlow : ∀ b : BitVec 8, crcFold (b.setWidth 16) = (crcTurn crcPoly)^[8] (b.setWidth 16) := by
    decide +kernel
  have hhigh : ∀ b : BitVec 8,
      crcFold (b.setWidth 16 <<< 8) = (crcTurn crcPoly)^[8] (b.setWidth 16 <<< 8) := by
    decide +kernel
  rw [split_halves y, crcFold_xor, crcTurns_xor, hlow, hhigh]

/-- **A turn takes in the bits of the byte.** -/
theorem crcStep_bits (crc : UInt16) (b : UInt8) :
    (crcStep crc b).toBitVec = crcBits crcPoly crc.toBitVec (msbFirst 8 b.toBitVec) := by
  have hword : crc.toBitVec = (crc.toBitVec ^^^ b.toBitVec.setWidth 16 <<< 8) ^^^
      b.toBitVec.setWidth 16 <<< 8 := by
    rw [BitVec.xor_assoc, BitVec.xor_self, BitVec.xor_zero]
  have hbits := msbFirst_setWidth (w := 16) (k := 8) b.toBitVec (by decide)
  rw [crcStep_fold, crcFold_eq, ← hbits]
  conv_rhs => rw [hword]
  rw [crcBits_msbFirst, ← BitVec.shiftLeft_add]
  simp

/-- The loop takes in the bits of the data. -/
theorem foldl_crcStep (crc : UInt16) (data : List UInt8) :
    (data.foldl crcStep crc).toBitVec = crcBits crcPoly crc.toBitVec (byteBits data) := by
  induction data generalizing crc with
  | nil => rfl
  | cons b data ih =>
    have hbits : byteBits (b :: data) = msbFirst 8 b.toBitVec ++ byteBits data :=
      List.flatMap_cons ..
    rw [List.foldl_cons, ih, crcStep_bits, hbits, crcBits_append]

theorem dartCalculateCrc_bits (w l : Width) (data : List UInt8) :
    dartCalculateCrc ⟨w, l, .two⟩ data = (crcBits crcPoly 0xFFFF#16 (byteBits data)).toNat := by
  show (data.foldl crcStep 0xFFFF).toNat = _
  rw [← UInt16.toNat_toBitVec, foldl_crcStep]
  rfl

/-- **The fast checksum is the standard one.** -/
theorem dart_crc_standard (w l : Width) (data : List UInt8) :
    dartCalculateCrc ⟨w, l, .two⟩ data = (crcBitwise data).toNat := by
  rw [dartCalculateCrc_bits]
  rfl

example : dartCalculateCrc ⟨.one, .two, .two⟩ [0x11] = 0xE3E0 := by decide

/-! ## Bursts -/

/-- A checksum field, as bits. -/
theorem byteBits_pair (hi lo : UInt8) :
    byteBits [hi, lo] = msbFirst 16 (hi.toBitVec ++ lo.toBitVec) :=
  (msbFirst_append hi.toBitVec lo.toBitVec).symm

theorem toNat_pair (hi lo : UInt8) :
    (hi.toBitVec ++ lo.toBitVec).toNat = 256 * hi.toNat + lo.toNat := by
  have hlo : lo.toNat < 2 ^ 8 := lo.toNat_lt
  rw [BitVec.toNat_append, Nat.shiftLeft_eq, UInt8.toNat_toBitVec, UInt8.toNat_toBitVec,
    Nat.mul_comm, ← Nat.two_pow_add_eq_or_of_lt hlo]

/-- Data and the checksum behind it fit together exactly if they leave nothing in the
register. -/
theorem crc_matches_iff (w l : Width) (data : List UInt8) (hi lo : UInt8) :
    dartCalculateCrc ⟨w, l, .two⟩ data = 256 * hi.toNat + lo.toNat ↔
      crcBits crcPoly 0xFFFF#16 (byteBits (data ++ [hi, lo])) = 0 := by
  have hcheck := crcBits_check (p := crcPoly) (by decide) 0xFFFF#16
    (hi.toBitVec ++ lo.toBitVec) (byteBits data)
  rw [byteBits_append, byteBits_pair, hcheck, dartCalculateCrc_bits, ← toNat_pair, BitVec.toNat_inj]

/-- The checksum that is sent fits the data. -/
theorem crc_sent (w l : Width) (data : List UInt8) :
    crcBits crcPoly 0xFFFF#16 (byteBits (data ++
      dartSetCrcValue ⟨w, l, .two⟩ (dartCalculateCrc ⟨w, l, .two⟩ data))) = 0 := by
  have hlt := dartCalculateCrc_lt ⟨w, l, .two⟩ data
  refine (crc_matches_iff w l data _ _).mp ?_
  rw [UInt8.toNat_ofNat', UInt8.toNat_ofNat']
  simp only [Width.bytes] at hlt
  omega

/-- The difference of two sequences of bytes. -/
def xorBytes (bytes errs : List UInt8) : List UInt8 := List.zipWith (· ^^^ ·) bytes errs

/-- **A burst is detected.** Whatever the data, if the bits that are flipped in the data and
the checksum behind it lie within 16 consecutive bits, the checksum of the damaged data
differs from the damaged checksum, and the frame is rejected. -/
theorem dart_burst_detected (w l : Width) (data errs : List UInt8)
    (herrs : errs.length = data.length + 2) (hburst : Burst 16 (byteBits errs)) (buffer : Mem)
    (hbuffer : buffer.read (Build.mk w l .two).dataIdx (data.length + 2) =
      xorBytes (data ++ dartSetCrcValue ⟨w, l, .two⟩ (dartCalculateCrc ⟨w, l, .two⟩ data)) errs) :
    let B : Build := ⟨w, l, .two⟩
    dartCalculateCrc B (buffer.read B.dataIdx data.length) ≠
        dartGetCrcValue B buffer data.length ∧
      ∀ (env : Env) (d : Dart), d.rxBuffer = buffer →
        dartHandleFrame B env d data.length =
          (dartPushByte d dartBad).notify .transferCorrupted := by
  intro B
  have hne : dartCalculateCrc B (buffer.read B.dataIdx data.length) ≠
      dartGetCrcValue B buffer data.length := by
    intro heq
    -- the damaged bytes would leave nothing, as the sent ones do
    have hdamaged : crcBits crcPoly 0xFFFF#16
        (byteBits (buffer.read B.dataIdx (data.length + 2))) = 0 := by
      rw [Mem.read_add]
      exact (crc_matches_iff w l _ _ _).mp heq
    have hlen : (data ++ dartSetCrcValue B (dartCalculateCrc B data)).length = errs.length := by
      rw [List.length_append, herrs]
      rfl
    rw [hbuffer, xorBytes, byteBits_xor hlen] at hdamaged
    have hbits : (byteBits (data ++ dartSetCrcValue B (dartCalculateCrc B data))).length =
        (byteBits errs).length := by
      rw [length_byteBits, length_byteBits, hlen]
    have hxor := crcBits_xor crcPoly 0xFFFF#16 0 hbits
    rw [show 0xFFFF#16 ^^^ 0 = 0xFFFF#16 from rfl, hdamaged, crc_sent w l data] at hxor
    refine crcBits_burst (p := crcPoly) (by decide) hburst ?_ (hxor.trans BitVec.zero_xor).symm
    rw [length_byteBits, herrs]
    omega
  refine ⟨hne, fun env d hd => ?_⟩
  unfold dartHandleFrame
  dsimp only
  rw [hd, if_pos hne]

/-- A burst across the boundary between the data `11` and its checksum `E3 E0`: the last bit
of the data and the first of the checksum are flipped. -/
theorem dart_burst_detected_boundary :
    Burst 16 (byteBits [0x01, 0x80, 0x00]) ∧
      ∀ (env : Env) (d : Dart), d.rxBuffer = Mem.write (fun _ => 0) 2 [0x10, 0x63, 0xE0] →
        dartHandleFrame ⟨.one, .one, .two⟩ env d 1 =
          (dartPushByte d dartBad).notify .transferCorrupted := by
  have hburst : Burst 16 (byteBits [0x01, 0x80, 0x00]) := by
    refine ⟨by decide, 7, fun j hj => ?_⟩
    have hlt : j < 24 := (List.getElem?_eq_some_iff.mp hj).1
    have hbits : ∀ j < 24, (byteBits [0x01, 0x80, 0x00])[j]? = some true → 7 ≤ j ∧ j < 7 + 16 := by
      decide
    exact hbits j hlt hj
  exact ⟨hburst, (dart_burst_detected .one .one [0x11] [0x01, 0x80, 0x00] rfl hburst
    (Mem.write (fun _ => 0) 2 [0x10, 0x63, 0xE0]) (by decide)).2⟩

end EmbeddedMx
