import EmbeddedMx.Dart.Reception
import EmbeddedMx.Lib.Digest

/-!
# Damaged frames

Both checksums tell data from data in which a single byte has been changed. The checksum
covers the data only: a changed length moves the place where it is looked for.
-/

namespace EmbeddedMx

open EmbeddedMx.Lib

/-! ## The checksum -/

/-- What a turn of the loop for `DART_CRC_SIZE == 2` makes of `crc >> 8 ^ buffer[i]`. -/
def crcMix (y : UInt8) : UInt16 :=
  let x := y.toUInt16
  let x := x ^^^ (x >>> 4)
  (x <<< 12) ^^^ (x <<< 5) ^^^ x

/-- The low byte of `crcMix` determines its argument. -/
def crcUnmix (z : UInt8) : UInt8 :=
  let x := z ^^^ (z <<< 5)
  x ^^^ (x >>> 4)

theorem crcUnmix_crcMix (y : UInt8) : crcUnmix (crcMix y).toUInt8 = y := by
  have hall : ∀ n : Fin 256, crcUnmix (crcMix (UInt8.ofFin n)).toUInt8 = UInt8.ofFin n := by
    decide +kernel
  exact hall y.toFin

theorem crcStep_eq (crc : UInt16) (b : UInt8) :
    crcStep crc b = (crc <<< 8) ^^^ crcMix ((crc >>> 8).toUInt8 ^^^ b) := by
  have hhigh : ((crc >>> 8).toUInt8 ^^^ b).toUInt16 = (crc >>> 8) ^^^ b.toUInt16 := by
    rw [UInt8.toUInt16_xor]
    congr 1
    apply UInt16.toNat_inj.mp
    have hlt := crc.toNat_lt
    simp [Nat.shiftRight_eq_div_pow]
    omega
  unfold crcStep crcMix
  dsimp only
  rw [hhigh]
  simp only [UInt16.xor_assoc]

/-- The two bytes of a checksum after a turn. -/
theorem crcStep_cancel {crc crc' : UInt16} {b b' : UInt8} (h : crcStep crc b = crcStep crc' b') :
    (crc >>> 8).toUInt8 ^^^ b = (crc' >>> 8).toUInt8 ^^^ b' ∧ crc <<< 8 = crc' <<< 8 := by
  rw [crcStep_eq, crcStep_eq] at h
  have hlow : ∀ c : UInt16, (c <<< 8).toUInt8 = 0 := by
    intro c
    apply UInt8.toNat_inj.mp
    simp [Nat.shiftLeft_eq]
  have hmix := congrArg UInt16.toUInt8 h
  rw [UInt16.toUInt8_xor, UInt16.toUInt8_xor, hlow, hlow, UInt8.zero_xor, UInt8.zero_xor] at hmix
  have hsame := congrArg crcUnmix hmix
  rw [crcUnmix_crcMix, crcUnmix_crcMix] at hsame
  rw [hsame] at h
  exact ⟨hsame, (UInt16.xor_left_inj _).mp h⟩

theorem crcStep_injective_crc (b : UInt8) : Function.Injective fun crc => crcStep crc b := by
  intro crc crc' h
  obtain ⟨hhigh, hlow⟩ := crcStep_cancel h
  have hhigh := congrArg UInt8.toNat ((UInt8.xor_left_inj b).mp hhigh)
  have hlow := congrArg UInt16.toNat hlow
  apply UInt16.toNat_inj.mp
  have hlt := crc.toNat_lt
  have hlt' := crc'.toNat_lt
  simp [Nat.shiftLeft_eq, Nat.shiftRight_eq_div_pow] at hhigh hlow
  omega

theorem crcStep_injective_byte (crc : UInt16) : Function.Injective (crcStep crc) := by
  intro b b' h
  exact (UInt8.xor_right_inj _).mp (crcStep_cancel h).1

/-- The checksum of data in which one byte has been changed. -/
theorem dartCalculateCrc_modify_ne (B : Build) {g : UInt8 → UInt8} (hg : ∀ b, g b ≠ b)
    {data : List UInt8} {i : Nat} (hi : i < data.length) :
    dartCalculateCrc B (data.modify i g) ≠ dartCalculateCrc B data := by
  unfold dartCalculateCrc
  cases B.crcSize with
  | one =>
      intro heq
      refine foldl_modify_ne ?_ ?_ hg hi 0xFF (UInt8.toNat_inj.mp heq)
      · intro b crc crc' h
        exact (UInt8.xor_left_inj b).mp h
      · intro crc b b' h
        exact (UInt8.xor_right_inj crc).mp h
  | two =>
      intro heq
      exact foldl_modify_ne crcStep_injective_crc crcStep_injective_byte hg hi 0xFFFF
        (UInt16.toNat_inj.mp heq)

/-! ## Feeding bytes -/

section Feed

variable {B : Build} {d : Dart} {pre : List UInt8} {input : List (Env × UInt8)}

/-- Whatever is fed, the messages that are reported stand in it as whole frames. -/
theorem feed_reports (h : RxPart B d pre) (hsize : d.rxBufferSize < 2 ^ 16)
    (htime : InTime B d input) :
    ∃ evs, (dartFeed B d input).log = d.log ++ evs ∧ ∀ param len,
      .callback .messageReceived param len ∈ evs →
      ∃ type data, param = .rx type data ∧ len = data.length ∧
        dartFrame B data <:+: pre ++ input.map Prod.snd := by
  induction input generalizing d pre with
  | nil =>
      refine ⟨[], (List.append_nil _).symm, fun param len hmem => ?_⟩
      exact absurd hmem List.not_mem_nil
  | cons i input ih =>
      obtain ⟨env, ch⟩ := i
      obtain ⟨hlate, hrest⟩ := htime
      obtain ⟨hpart, hsame⟩ := (received_takes h hlate hsize ch).part
      have hsize' : (dartHandleReceivedChar B env d ch).rxBufferSize < 2 ^ 16 := by
        rw [hsame]
        exact hsize
      obtain ⟨evs, hlog⟩ := received_log h hsize env ch
      -- the rest is fed behind all that has arrived, or behind nothing
      have hnext : ∃ evs', (dartFeed B d ((env, ch) :: input)).log =
          (dartHandleReceivedChar B env d ch).log ++ evs' ∧ ∀ param len,
          .callback .messageReceived param len ∈ evs' →
          ∃ type data, param = .rx type data ∧ len = data.length ∧
            dartFrame B data <:+: pre ++ ch :: input.map Prod.snd := by
        rcases hpart with hpart | hpart
        · obtain ⟨evs', hlog', hevs'⟩ := ih hpart hsize' hrest
          refine ⟨evs', hlog', fun param len hmem => ?_⟩
          obtain ⟨type, data, hparam, hlen, hinfix⟩ := hevs' param len hmem
          rw [List.append_assoc] at hinfix
          exact ⟨type, data, hparam, hlen, hinfix⟩
        · obtain ⟨evs', hlog', hevs'⟩ := ih hpart hsize' hrest
          refine ⟨evs', hlog', fun param len hmem => ?_⟩
          obtain ⟨type, data, hparam, hlen, hinfix⟩ := hevs' param len hmem
          refine ⟨type, data, hparam, hlen, hinfix.trans ?_⟩
          rw [List.nil_append, List.append_cons]
          exact (List.suffix_append _ _).isInfix
      obtain ⟨evs', hlog', hevs'⟩ := hnext
      refine ⟨evs ++ evs', by rw [hlog', hlog, List.append_assoc], fun param len hmem => ?_⟩
      rcases List.mem_append.mp hmem with hmem | hmem
      · obtain ⟨data, ⟨hframe, -⟩, -, hparam, hlen, -⟩ := received_reports h hsize hlog hmem
        refine ⟨_, data, hparam, hlen, ?_⟩
        rw [dartRxTimeout_eq hlate, h.holds.bytes, h.holds.content] at hframe
        have hfirst : pre ++ ((env, ch) :: input).map Prod.snd = (pre ++ [ch]) ++
            input.map Prod.snd := by
          simp
        rw [← hframe, hfirst]
        exact (List.prefix_append _ _).isInfix
      · exact hevs' param len hmem

/-- The next byte of a sequence of the length that it announces is kept if it is not the
last one. If the sequence is no frame then nothing is reported. -/
theorem received_no_frame {n : Nat} {rest after : List UInt8} {env : Env} {ch : UInt8}
    (h : RxPart B d pre) (hbytes : pre ++ ch :: after = dartSync :: (dartSetDataLen B n ++ rest))
    (hrest : rest.length = n + B.crcSize.bytes) (hlen : n < 256 ^ B.lenSize.bytes)
    (hfits : B.frameBytes n ≤ d.rxBufferSize)
    (hnot : ∀ data, dartSync :: (dartSetDataLen B n ++ rest) ≠ dartFrame B data)
    (hsize : d.rxBufferSize < 2 ^ 16) (hlate : ¬ RxLate env d) :
    ReportsNothing d (dartHandleReceivedChar B env d ch) ∧
      (after = [] ∨ RxPart B (dartHandleReceivedChar B env d ch) (pre ++ [ch]) ∧
        (dartHandleReceivedChar B env d ch).rxBufferSize = d.rxBufferSize) := by
  have htakes := received_takes h hlate hsize ch
  have hstore := h.holds.store env ch (h.room hsize)
  have hsplit : (pre ++ [ch]) ++ after = dartSync :: (dartSetDataLen B n ++ rest) := by
    rw [List.append_assoc]
    exact hbytes
  have hcount : pre.length + 1 + after.length = B.frameBytes n := by
    have hlength := congrArg List.length hsplit
    simp only [List.length_append, List.length_cons, List.length_nil, dartSetDataLen,
      length_toBe, hrest] at hlength
    simp only [Build.frameBytes, Build.lenBytes]
    omega
  have hdataLen : B.lenBytes ≤ pre.length + 1 →
      dartGetDataLen B (dartRxStore env d ch).rxBuffer = n := by
    intro hknown
    refine header_dataLen hsplit hlen ?_ hstore.content
    rw [List.length_append]
    exact hknown
  -- the last byte ends the sequence
  have hlast : pre.length + 1 = B.frameBytes n → after = [] := by
    intro heq
    exact List.eq_nil_of_length_eq_zero (by omega)
  have hlong : ∀ len, B.lenBytes ≤ B.frameBytes len := by
    intro len
    simp only [Build.frameBytes]
    omega
  have hstored : ReportsNothing d (dartRxStore env d ch) := .of_log rfl
  generalize dartHandleReceivedChar B env d ch = d' at htakes ⊢
  cases htakes with
  | kept hpart hcollects =>
      refine ⟨hstored.trans ?_, .inr ⟨hpart, hcollects.rxBufferSize⟩⟩
      rcases hcollects.log with ⟨hlog, -⟩ | ⟨hlog, -, -⟩
      · exact .of_log hlog
      · exact ⟨_, hlog, by simp⟩
  | single hnil hch =>
      subst hnil
      injection hbytes with hfirst
      exact absurd hfirst hch
  | unsupported hknown hlarge =>
      rw [hdataLen hknown] at hlarge
      exact absurd hfits (Nat.not_le_of_lt hlarge)
  | damaged hcomplete =>
      have hknown := hlong (dartGetDataLen B (dartRxStore env d ch).rxBuffer)
      rw [← hcomplete] at hknown
      rw [hdataLen hknown] at hcomplete
      refine ⟨hstored.trans ?_, .inl (hlast hcomplete)⟩
      exact ⟨[_, _], (List.append_assoc _ _ _).trans rfl, by simp⟩
  | @frame data hframe _ hsame _ =>
      have hcomplete : pre.length + 1 = B.frameBytes data.length := by
        rw [← length_dartFrame, ← hframe, List.length_append]
        rfl
      have hknown := hlong data.length
      rw [← hcomplete] at hknown
      rw [hdataLen hknown] at hsame
      rw [← hsame] at hcomplete
      rw [hlast hcomplete, List.append_nil] at hsplit
      exact absurd (hsplit.symm.trans hframe) (hnot data)

/-- Bytes of the length that they announce are collected to the last one, and if they are
no frame then nothing is reported. -/
theorem feed_no_frame {n : Nat} {rest : List UInt8} (h : RxPart B d pre)
    (hbytes : pre ++ input.map Prod.snd = dartSync :: (dartSetDataLen B n ++ rest))
    (hrest : rest.length = n + B.crcSize.bytes) (hlen : n < 256 ^ B.lenSize.bytes)
    (hfits : B.frameBytes n ≤ d.rxBufferSize)
    (hnot : ∀ data, dartSync :: (dartSetDataLen B n ++ rest) ≠ dartFrame B data)
    (hsize : d.rxBufferSize < 2 ^ 16) (htime : InTime B d input) :
    ReportsNothing d (dartFeed B d input) := by
  induction input generalizing d pre with
  | nil => exact .of_log rfl
  | cons i input ih =>
      obtain ⟨env, ch⟩ := i
      obtain ⟨hlate, htime⟩ := htime
      obtain ⟨hnothing, hcase⟩ :=
        received_no_frame h hbytes hrest hlen hfits hnot hsize hlate
      rcases hcase with hnil | ⟨hpart, hsame⟩
      · rw [List.map_eq_nil_iff.mp hnil]
        exact hnothing
      · refine hnothing.trans (ih hpart ?_ (hsame ▸ hfits) (hsame ▸ hsize) htime)
        rw [List.append_assoc]
        exact hbytes

end Feed

/-! ## A flipped bit -/

/-- The bytes with bit `k` of byte `i` flipped. -/
def flipBit (bytes : List UInt8) (i : Nat) (k : Fin 8) : List UInt8 :=
  bytes.modify i fun b => b ^^^ UInt8.ofNat (2 ^ k.val)

theorem xor_bit_ne (k : Fin 8) (b : UInt8) : b ^^^ UInt8.ofNat (2 ^ k.val) ≠ b := by
  have hbit : ∀ k : Fin 8, UInt8.ofNat (2 ^ k.val) ≠ 0 := by decide
  intro heq
  apply hbit k
  apply (UInt8.xor_right_inj b).mp
  rw [heq, UInt8.xor_zero]

theorem toBe_injective {w : Width} {n n' : Nat} (hn : n < 256 ^ w.bytes) (hn' : n' < 256 ^ w.bytes)
    (h : toBe w n = toBe w n') : n = n' := by
  have hread := Mem.read_write_same (fun _ => 0) 0 (toBe w n)
  rw [length_toBe] at hread
  have hload := loadBe_of_read hread
  have hload' := loadBe_of_read (hread.trans h)
  rw [hload, Nat.mod_eq_of_lt hn, Nat.mod_eq_of_lt hn'] at hload'
  exact hload'

/-- A frame with a flipped bit behind its length field is not a frame. -/
theorem flipBit_ne_frame {B : Build} {data : List UInt8} {j : Nat}
    (hj : j < data.length + B.crcSize.bytes) (k : Fin 8) (data' : List UInt8) :
    dartSync :: (dartSetDataLen B data.length ++
      flipBit (data ++ dartSetCrcValue B (dartCalculateCrc B data)) j k) ≠ dartFrame B data' := by
  intro heq
  have hsame : data'.length = data.length := by
    have hlength := congrArg List.length heq
    rw [length_dartFrame] at hlength
    simp only [List.length_cons, List.length_append, flipBit, List.length_modify, dartSetDataLen,
      dartSetCrcValue, length_toBe, Build.frameBytes, Build.lenBytes] at hlength
    omega
  rw [dartFrame, List.append_assoc, hsame] at heq
  have hrest := List.append_cancel_left (List.cons.inj heq).2
  unfold flipBit at hrest
  rw [modify_append] at hrest
  split at hrest
  · -- in the data: the checksum of the changed data is another one
    rename_i hdata
    obtain ⟨hchanged, hcrc⟩ := List.append_inj hrest (by rw [List.length_modify, hsame])
    rw [← hchanged] at hcrc
    have hcalculated := toBe_injective (dartCalculateCrc_lt B _) (dartCalculateCrc_lt B _) hcrc
    exact dartCalculateCrc_modify_ne B (xor_bit_ne k) hdata hcalculated.symm
  · -- in the checksum: that of the data is what it was
    rename_i hcrc
    obtain ⟨hkept, hchanged⟩ := List.append_inj hrest hsame.symm
    rw [← hkept] at hchanged
    refine modify_ne (xor_bit_ne k) ?_ hchanged
    rw [dartSetCrcValue, length_toBe]
    omega

/-- **Damaged frames** are fed, without timeout, to an endpoint with an empty receive
buffer. The messages that are reported then stand in the damaged frame as whole frames.
If the frame fits the receive buffer and the flipped bit is in the data or the checksum,
which covers them, nothing is reported. -/
theorem dart_damaged_frame (B : Build) (d : Dart) (data : List UInt8) (i : Nat) (k : Fin 8)
    (input : List (Env × UInt8)) (hsize : d.rxBufferSize < 2 ^ 16) (hempty : d.rxBufferBytes = 0)
    (hlen : data.length < 256 ^ B.lenSize.bytes) (hi : i < (dartFrame B data).length)
    (hbytes : input.map Prod.snd = flipBit (dartFrame B data) i k) (htime : InTime B d input) :
    ∃ evs : List Event, (dartFeed B d input).log = d.log ++ evs ∧
      (∀ (param : Param) (len : Nat), .callback .messageReceived param len ∈ evs →
        ∃ (type : Nat) (data' : List UInt8), param = .rx type data' ∧ len = data'.length ∧
          dartFrame B data' <:+: flipBit (dartFrame B data) i k) ∧
      (B.dataIdx ≤ i → B.frameBytes data.length ≤ d.rxBufferSize →
        ∀ (param : Param) (len : Nat), .callback .messageReceived param len ∉ evs) := by
  obtain ⟨evs, hlog, hevs⟩ := feed_reports (rxPart_nil hempty) hsize htime
  rw [List.nil_append, hbytes] at hevs
  refine ⟨evs, hlog, hevs, fun hidx hfits param len hmem => ?_⟩
  have hheader : flipBit (dartFrame B data) i k = dartSync :: (dartSetDataLen B data.length ++
      flipBit (data ++ dartSetCrcValue B (dartCalculateCrc B data)) (i - B.dataIdx) k) := by
    have hfield : (dartSync :: dartSetDataLen B data.length).length = B.dataIdx :=
      length_frameHead B data.length
    have hframe : dartFrame B data = (dartSync :: dartSetDataLen B data.length) ++
        (data ++ dartSetCrcValue B (dartCalculateCrc B data)) := by
      rw [dartFrame, List.append_assoc, List.cons_append]
    unfold flipBit
    rw [hframe, modify_append, hfield, if_neg (Nat.not_lt_of_le hidx), List.cons_append]
  have hj : i - B.dataIdx < data.length + B.crcSize.bytes := by
    rw [length_dartFrame] at hi
    simp only [Build.frameBytes, Build.lenBytes, Build.dataIdx, Build.lenIdx] at hi hidx ⊢
    omega
  have hnothing := feed_no_frame (rxPart_nil hempty) (n := data.length)
    (by rw [List.nil_append, hbytes, hheader]) (by simp [flipBit, dartSetCrcValue]) hlen hfits
    (flipBit_ne_frame hj k) hsize htime
  obtain ⟨evs', hlog', hevs'⟩ := hnothing
  rw [List.append_cancel_left (hlog.symm.trans hlog')] at hmem
  exact hevs' param len hmem

/-- The frame of `data` with a flipped bit, as it arrives. -/
def damagedInput (B : Build) (data : List UInt8) (i : Nat) (k : Fin 8) : List (Env × UInt8) :=
  (flipBit (dartFrame B data) i k).map fun ch => (.plain 7 true, ch)

/-- The lowest bit of the first data byte is flipped. -/
theorem dart_damaged_frame_data :
    let B : Build := ⟨.one, .one, .two⟩
    ∃ evs : List Event, (dartFeed B (dartFresh 512 64) (damagedInput B [0x12, 0x34] 2 0)).log =
        (dartFresh 512 64).log ++ evs ∧
      ∀ (param : Param) (len : Nat), .callback .messageReceived param len ∉ evs := by
  intro B
  obtain ⟨evs, hlog, -, hnothing⟩ := dart_damaged_frame B (dartFresh 512 64) [0x12, 0x34] 2 0
    (damagedInput B [0x12, 0x34] 2 0) (by decide) rfl (by decide) (by decide) (by decide)
    (by decide +kernel)
  exact ⟨evs, hlog, hnothing (by decide) (by decide)⟩

/-- In the first frame the length 3 becomes 1: the second data byte is the checksum of the
first one. The second frame is too long for a buffer of 8 bytes, and damaged in its last
byte: it is dropped with its length, and what follows contains a frame. -/
theorem dart_damaged_frame_fails :
    let B : Build := ⟨.one, .one, .one⟩
    (InTime B (dartFresh 512 64) (damagedInput B [0x12, 0xED, 0x34] 1 1) ∧
      .callback .messageReceived (.rx 0x12 [0x12]) 1 ∈
        (dartFeed B (dartFresh 512 64) (damagedInput B [0x12, 0xED, 0x34] 1 1)).log) ∧
    InTime B (dartFresh 512 8) (damagedInput B [0x55, 0x01, 0x12, 0xED, 0, 0, 0] 9 0) ∧
      .callback .messageReceived (.rx 0x12 [0x12]) 1 ∈
        (dartFeed B (dartFresh 512 8) (damagedInput B [0x55, 0x01, 0x12, 0xED, 0, 0, 0] 9 0)).log := by
  intro B
  exact ⟨⟨by decide +kernel, by decide +kernel⟩, by decide +kernel, by decide +kernel⟩

end EmbeddedMx
