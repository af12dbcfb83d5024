import EmbeddedMx.Lib.Bytes
import EmbeddedMx.Message.Model

/-!
# Frames of the dart link

A frame is the sync byte, the data length (one or two bytes, big-endian), the
data and a checksum (one or two bytes, big-endian). Widths are build
parameters.
-/

namespace EmbeddedMx

open EmbeddedMx.Lib

/-- The build parameters `MSGTYPE_SIZE`, `DART_LEN_SIZE` and `DART_CRC_SIZE`. -/
structure Build where
  msgtypeSize : Width
  lenSize : Width
  crcSize : Width
deriving DecidableEq, Repr

def dartSync : UInt8 := 0x55
def dartAck : UInt8 := 0xAA
def dartBad : UInt8 := 0xBB
def dartCan : UInt8 := 0xCC

namespace Build

variable (B : Build)

/-- `DART_LEN_IDX` -/
def lenIdx : Nat := 1

/-- `DART_DATA_IDX` -/
def dataIdx : Nat := lenIdx + B.lenSize.bytes

/-- `DART_LEN_BYTES` -/
def lenBytes : Nat := 1 + B.lenSize.bytes

/-- `DART_FRAME_BYTES` -/
def frameBytes (len : Nat) : Nat := B.lenBytes + len + B.crcSize.bytes

/-- Conversion to `dart_len_t`. -/
def toLen (n : Nat) : Nat := n % 256 ^ B.lenSize.bytes

end Build

/-- The bytes of a big-endian word of the given width. -/
def toBe (w : Width) (n : Nat) : List UInt8 :=
  match w with
  | .one => [UInt8.ofNat n]
  | .two => [UInt8.ofNat (n / 256), UInt8.ofNat n]

/-- The big-endian word of the given width at `a`. -/
def loadBe (w : Width) (m : Mem) (a : Nat) : Nat :=
  match w with
  | .one => (m a).toNat
  | .two => 256 * (m a).toNat + (m (a + 1)).toNat

/-- `dart_set_data_len`: the length field. -/
def dartSetDataLen (B : Build) (dataLen : Nat) : List UInt8 := toBe B.lenSize dataLen

/-- `dart_set_crc_value`: the checksum field. -/
def dartSetCrcValue (B : Build) (crc : Nat) : List UInt8 := toBe B.crcSize crc

/-- `dart_get_data_len` -/
def dartGetDataLen (B : Build) (buffer : Mem) : Nat :=
  loadBe B.lenSize buffer Build.lenIdx

/-- `dart_get_crc_value` -/
def dartGetCrcValue (B : Build) (buffer : Mem) (dataLen : Nat) : Nat :=
  loadBe B.crcSize buffer (B.dataIdx + dataLen)

/-- One turn of the loop for `DART_CRC_SIZE == 2`. -/
def crcStep (crc : UInt16) (b : UInt8) : UInt16 :=
  let x := (crc >>> 8) ^^^ b.toUInt16
  let x := x ^^^ (x >>> 4)
  (crc <<< 8) ^^^ (x <<< 12) ^^^ (x <<< 5) ^^^ x

/-- `dart_calculate_crc` -/
def dartCalculateCrc (B : Build) (data : List UInt8) : Nat :=
  match B.crcSize with
  | .one => (data.foldl (fun crc b => crc ^^^ b) (0xFF : UInt8)).toNat
  | .two => (data.foldl crcStep (0xFFFF : UInt16)).toNat

/-- The bytes `dart_push_frame` composes. -/
def dartFrame (B : Build) (data : List UInt8) : List UInt8 :=
  dartSync :: (dartSetDataLen B data.length ++ data ++
    dartSetCrcValue B (dartCalculateCrc B data))

@[simp] theorem length_toBe (w : Width) (n : Nat) : (toBe w n).length = w.bytes := by
  cases w <;> rfl

@[simp] theorem length_dartFrame (B : Build) (data : List UInt8) :
    (dartFrame B data).length = B.frameBytes data.length := by
  simp only [dartFrame, List.length_cons, List.length_append, dartSetDataLen, dartSetCrcValue,
    length_toBe, Build.frameBytes, Build.lenBytes]
  omega

/-- The data of a frame comes behind the sync byte and the length field. -/
theorem length_frameHead (B : Build) (n : Nat) :
    (dartSync :: dartSetDataLen B n).length = B.dataIdx := by
  simp [dartSetDataLen, Build.dataIdx, Build.lenIdx, Nat.add_comm]

/-- The data of the frame that consists of these bytes. -/
def frameData (B : Build) (bytes : List UInt8) : List UInt8 :=
  (bytes.drop B.dataIdx).take (bytes.length - (B.lenBytes + B.crcSize.bytes))

theorem frameData_dartFrame (B : Build) (data : List UInt8) :
    frameData B (dartFrame B data) = data := by
  have hlen : (dartFrame B data).length - (B.lenBytes + B.crcSize.bytes) = data.length := by
    rw [length_dartFrame, Build.frameBytes]
    omega
  have hparts : dartFrame B data = (dartSync :: dartSetDataLen B data.length) ++
      (data ++ dartSetCrcValue B (dartCalculateCrc B data)) := by
    rw [← List.append_assoc]
    rfl
  unfold frameData
  rw [hlen, hparts, List.drop_left' (length_frameHead B data.length), List.take_left' rfl]

/-- A checksum fits its field. -/
theorem dartCalculateCrc_lt (B : Build) (data : List UInt8) :
    dartCalculateCrc B data < 256 ^ B.crcSize.bytes := by
  unfold dartCalculateCrc
  cases B.crcSize with
  | one => exact UInt8.toNat_lt _
  | two => exact UInt16.toNat_lt _

/-- Reading a field where it was written gives the value, reduced to the width. -/
theorem loadBe_of_read {w : Width} {m : Mem} {a n : Nat}
    (h : m.read a w.bytes = toBe w n) : loadBe w m a = n % 256 ^ w.bytes := by
  cases w with
  | one =>
      simp only [Width.bytes, Mem.read, toBe, List.cons.injEq, and_true] at h
      simp [loadBe, h, Width.bytes]
  | two =>
      simp only [Width.bytes, Mem.read, toBe, List.cons.injEq, and_true] at h
      simp only [loadBe, h.1, h.2, Width.bytes, UInt8.toNat_ofNat']
      omega

end EmbeddedMx
