import EmbeddedMx.Dart.Whole

/-!
# Payloads of deferred messages

A deferred message callback may push a message in two parts, its type and its payload.
The length of both together is computed as a `size_t` and then converted to
`dart_len_t`: a payload at the top of the range is cut off, and the call returns
`DART_SUCCESS` all the same.
-/

namespace EmbeddedMx

open EmbeddedMx.Lib

/-- Push message constructed from msgtype and payload. The message is put together in a
buffer on the stack, which holds anything before. -/
def dartPushMsgPayload (B : Build) (self : Dart) (stack : Mem) (msgtype : Nat)
    (payload : List UInt8) : Dart × DartStatus :=
  let msgBuffer := setNodeLength stack 0 (sizeofMsg B.msgtypeSize + payload.length)
  let msgBuffer := msgBuffer.store offsetofMsg B.msgtypeSize.bytes msgtype
  let msgBuffer := msgBuffer.write (offsetofMsg + sizeofMsg B.msgtypeSize) payload
  -- `dart_push_msg`, whose parameter is a `dart_len_t`
  let msgLen := B.toLen (nodeLength msgBuffer 0)
  (dartPushFrame B self (msgBuffer.read offsetofMsg msgLen), .success)

/-- A type and the payload behind it. -/
def msgBytes (B : Build) (msgtype : Nat) (payload : List UInt8) : List UInt8 :=
  toLe B.msgtypeSize.bytes msgtype ++ payload

theorem length_msgBytes (B : Build) (msgtype : Nat) (payload : List UInt8) :
    (msgBytes B msgtype payload).length = sizeofMsg B.msgtypeSize + payload.length := by
  rw [msgBytes, List.length_append, length_toLe, sizeofMsg]

theorem msgTypeOf_msgBytes {B : Build} {msgtype : Nat} (h : msgtype < 256 ^ B.msgtypeSize.bytes)
    (payload : List UInt8) : msgTypeOf B (msgBytes B msgtype payload) = msgtype := by
  have htake : (msgBytes B msgtype payload).take B.msgtypeSize.bytes =
      toLe B.msgtypeSize.bytes msgtype := by
    rw [msgBytes, List.take_append_of_le_length (by rw [length_toLe]),
      List.take_of_length_le (by rw [length_toLe])]
  rw [msgTypeOf, htake, ofLe_toLe_of_lt h]

/-- What the call emits: the message, as far as its length can be announced. -/
theorem dartPushMsgPayload_eq {B : Build} (d : Dart) (stack : Mem) (msgtype : Nat)
    {payload : List UInt8} (hlen : payload.length < 256 ^ B.lenSize.bytes) :
    dartPushMsgPayload B d stack msgtype payload =
      (dartPushFrame B d ((msgBytes B msgtype payload).take
        (B.toLen (msgBytes B msgtype payload).length)), .success) := by
  have hshort : payload.length < 2 ^ 16 := by
    refine Nat.lt_of_lt_of_le hlen ?_
    cases B.lenSize <;> decide
  have hlength : nodeLength (setNodeLength stack 0 (sizeofMsg B.msgtypeSize + payload.length)) 0 =
      (msgBytes B msgtype payload).length := by
    have hsize : sizeofMsg B.msgtypeSize + payload.length < 256 ^ sizeofPtr := by
      unfold sizeofMsg sizeofPtr
      cases B.msgtypeSize <;> simp only [Width.bytes] <;> omega
    rw [nodeLength_setNodeLength stack 0 hsize, length_msgBytes]
  unfold dartPushMsgPayload
  generalize setNodeLength stack 0 (sizeofMsg B.msgtypeSize + payload.length) = m at hlength ⊢
  dsimp only
  -- the message lies behind the length field
  have hkept : nodeLength ((m.store offsetofMsg B.msgtypeSize.bytes msgtype).write
      (offsetofMsg + sizeofMsg B.msgtypeSize) payload) 0 = nodeLength m 0 := by
    rw [nodeLength, Mem.load_write_apart, Mem.load_store_apart, nodeLength]
    · exact .inl (by decide)
    · exact .inl (by unfold offsetofMsg offsetofLength sizeofPtr; omega)
  have hcontent : ((m.store offsetofMsg B.msgtypeSize.bytes msgtype).write
      (offsetofMsg + sizeofMsg B.msgtypeSize) payload).read offsetofMsg
        (msgBytes B msgtype payload).length = msgBytes B msgtype payload := by
    have happend := Mem.write_append m offsetofMsg (toLe B.msgtypeSize.bytes msgtype) payload
    rw [length_toLe] at happend
    rw [Mem.store, sizeofMsg, happend]
    exact Mem.read_write_same m offsetofMsg _
  have hcut : B.toLen (msgBytes B msgtype payload).length ≤ (msgBytes B msgtype payload).length :=
    Nat.mod_le _ _
  rw [hkept, hlength]
  conv_rhs => rw [← hcontent, Mem.take_read, hcontent, Nat.min_eq_left hcut]

/-! ## What a receiver makes of it -/

/-- The bytes on the line carry a message of this type and payload: they announce its
length, they contain it, and an endpoint with a large enough receive buffer that gets them
in time reports it. -/
structure Carries (B : Build) (frame : List UInt8) (msgtype : Nat) (payload : List UInt8) :
    Prop where
  announced : ∀ m : Mem, m.read 0 frame.length = frame →
    dartGetDataLen B m = sizeofMsg B.msgtypeSize + payload.length
  content : ∀ m : Mem, m.read 0 frame.length = frame →
    m.read B.dataIdx (sizeofMsg B.msgtypeSize + payload.length) = msgBytes B msgtype payload
  delivered : ∀ (d : Dart) (input : List (Env × UInt8)), d.rxBufferSize < 2 ^ 16 →
    B.frameBytes (sizeofMsg B.msgtypeSize + payload.length) ≤ d.rxBufferSize →
    d.rxBufferBytes = 0 → input.map Prod.snd = frame → InTime B d input →
    ∃ evs, (dartFeed B d input).log = d.log ++ evs ∧ evs.filter Event.ofReceiver =
      [.uart [dartAck], .callback .messageReceived (.rx msgtype (msgBytes B msgtype payload))
        (sizeofMsg B.msgtypeSize + payload.length)]

/-- A frame of a message that is not shorter than its type is reported once. -/
theorem feed_delivers {B : Build} {d : Dart} {data : List UInt8} {input : List (Env × UInt8)}
    (hrx : d.rxBufferBytes = 0) (hsize : d.rxBufferSize < 2 ^ 16)
    (hfit : (LineItem.frame data).Fits B d.rxBufferSize)
    (htype : sizeofMsg B.msgtypeSize ≤ data.length)
    (hbytes : input.map Prod.snd = dartFrame B data) (htime : InTime B d input) :
    ∃ evs, (dartFeed B d input).log = d.log ++ evs ∧ evs.filter Event.ofReceiver =
      [.uart [dartAck], .callback .messageReceived (.rx (msgTypeOf B data) data) data.length] := by
  have hne : input ≠ [] := by
    rintro rfl
    cases hbytes
  obtain ⟨env, d', hcollect, hdata, heq⟩ :=
    feed_frame (rxHolds_nil hrx) hbytes hne hfit hsize htime
  have hcollected : ∃ pins, d'.log = d.log ++ pins ∧ pins.filter Event.ofReceiver = [] := by
    rcases hcollect.log with ⟨hlog, -⟩ | ⟨hlog, -⟩
    · exact ⟨[], by rw [hlog, List.append_nil], rfl⟩
    · exact ⟨[.pin true], hlog, rfl⟩
  obtain ⟨pins, hlog, hpins⟩ := hcollected
  have hread : (dartPushByte d' dartAck).rxBuffer.read B.dataIdx data.length = data := hdata
  rw [heq, handleReceivedMsg_eq_deliver hread htype]
  unfold dartDeliver
  obtain ⟨evs, hrest, hevs⟩ := (sends_checkResponse B env
    { (dartPushByte d' dartAck).callback .messageReceived
        (.rx (msgTypeOf B data) data) data.length with
      rxBuffer := env.received d'.rxBuffer } (msgTypeOf B data) data.length).log
  refine ⟨pins ++ .uart [dartAck] ::
    .callback .messageReceived (.rx (msgTypeOf B data) data) data.length :: evs, ?_, ?_⟩
  · refine hrest.trans ?_
    show (d'.log ++ [_]) ++ [_] ++ evs = _
    rw [hlog]
    simp only [List.append_assoc, List.cons_append, List.nil_append]
  · rw [List.filter_append, hpins, List.filter_cons_of_pos rfl, List.filter_cons_of_pos rfl,
      filter_ofReceiver_eq_nil hevs]
    rfl

/-- A frame carries its data. -/
theorem dartFrame_carries {B : Build} {msgtype : Nat} {payload : List UInt8}
    (htype : msgtype < 256 ^ B.msgtypeSize.bytes)
    (hlen : sizeofMsg B.msgtypeSize + payload.length < 256 ^ B.lenSize.bytes) :
    Carries B (dartFrame B (msgBytes B msgtype payload)) msgtype payload := by
  have hdata := length_msgBytes B msgtype payload
  have hshort : sizeofMsg B.msgtypeSize ≤ (msgBytes B msgtype payload).length := by
    rw [hdata]
    exact Nat.le_add_right _ _
  refine ⟨?_, ?_, ?_⟩
  all_goals rw [← hdata] at hlen ⊢
  · intro m hm
    refine frame_dataLen (List.append_nil _) hlen ?_ hm
    rw [length_dartFrame, Build.frameBytes]
    omega
  · intro m hm
    rw [length_dartFrame] at hm
    exact (frame_parts hm).1
  · intro d input hsize hfit hrx hbytes htime
    have hdelivers := feed_delivers hrx hsize ⟨hlen, hfit⟩ hshort hbytes htime
    rwa [msgTypeOf_msgBytes htype] at hdelivers

/-- A length field says no more than its width allows. -/
theorem dartGetDataLen_lt (B : Build) (m : Mem) : dartGetDataLen B m < 256 ^ B.lenSize.bytes := by
  have hbyte : ∀ a, (m a).toNat < 256 := fun a => (m a).toNat_lt
  unfold dartGetDataLen loadBe
  cases B.lenSize with
  | one => exact hbyte _
  | two =>
      have hhigh := hbyte Build.lenIdx
      have hlow := hbyte (Build.lenIdx + 1)
      simp only [Width.bytes]
      omega

theorem Carries.length_lt {B : Build} {frame : List UInt8} {msgtype : Nat} {payload : List UInt8}
    (h : Carries B frame msgtype payload) :
    sizeofMsg B.msgtypeSize + payload.length < 256 ^ B.lenSize.bytes := by
  let m := Mem.write (fun _ => 0) 0 frame
  rw [← h.announced m (Mem.read_write_same _ 0 frame)]
  exact dartGetDataLen_lt B m

/-- The call reports an error and sends nothing, or it emits bytes that carry the message
given to it. -/
def PushesWhole (B : Build) (d : Dart) (msgtype : Nat) (payload : List UInt8)
    (r : Dart × DartStatus) : Prop :=
  (r.2 ≠ .success ∧ r.1 = d) ∨
    ∃ frame, r.1 = dartPush d frame ∧ Carries B frame msgtype payload

/-- **Payloads are pushed whole** exactly if the length of the message, its type included,
can be announced. -/
theorem dart_payload_whole (B : Build) (d : Dart) (stack : Mem) (msgtype : Nat)
    (payload : List UInt8) (htype : msgtype < 256 ^ B.msgtypeSize.bytes)
    (hlen : payload.length < 256 ^ B.lenSize.bytes) :
    PushesWhole B d msgtype payload (dartPushMsgPayload B d stack msgtype payload) ↔
      sizeofMsg B.msgtypeSize + payload.length < 256 ^ B.lenSize.bytes := by
  rw [dartPushMsgPayload_eq d stack msgtype hlen]
  constructor
  · rintro (⟨hstatus, -⟩ | ⟨frame, -, hcarries⟩)
    · exact absurd rfl hstatus
    · exact hcarries.length_lt
  · intro hfits
    refine .inr ⟨dartFrame B (msgBytes B msgtype payload), ?_, dartFrame_carries htype hfits⟩
    rw [length_msgBytes, Build.toLen, Nat.mod_eq_of_lt hfits, ← length_msgBytes B msgtype,
      List.take_length]
    rfl

/-- The payload of two bytes that the tests push. -/
theorem dart_payload_whole_pair :
    let B : Build := ⟨.one, .one, .one⟩
    let d := dartFresh 512 64
    PushesWhole B d 0x12 [0x01, 0x02]
      (dartPushMsgPayload B d (fun _ => 0xEE) 0x12 [0x01, 0x02]) :=
  (dart_payload_whole ⟨.one, .one, .one⟩ (dartFresh 512 64) (fun _ => 0xEE) 0x12 [0x01, 0x02]
    (by decide) (by decide)).mpr (by decide)

/-- A payload of 255 bytes, the longest a `dart_len_t` of one byte can express: the frame
announces that it is empty. -/
theorem dart_payload_cut :
    let B : Build := ⟨.one, .one, .one⟩
    let d := dartFresh 512 64
    let payload : List UInt8 := List.replicate 255 0x01
    payload.length < 256 ^ B.lenSize.bytes ∧
      dartPushMsgPayload B d (fun _ => 0xEE) 0x12 payload = (dartPushFrame B d [], .success) ∧
      ¬ PushesWhole B d 0x12 payload (dartPushMsgPayload B d (fun _ => 0xEE) 0x12 payload) := by
  intro B d payload
  have hlength : payload.length = 255 := List.length_replicate
  have hlen : payload.length < 256 ^ B.lenSize.bytes := by
    rw [hlength]
    decide
  have hnone : B.toLen (sizeofMsg B.msgtypeSize + 255) = 0 := by decide
  have hcut : dartPushMsgPayload B d (fun _ => 0xEE) 0x12 payload =
      (dartPushFrame B d [], .success) := by
    rw [dartPushMsgPayload_eq d _ _ hlen, length_msgBytes, hlength, hnone, List.take_zero]
  refine ⟨hlen, hcut, ?_⟩
  rw [hcut]
  rintro (⟨hstatus, -⟩ | ⟨frame, -, hcarries⟩)
  · exact hstatus rfl
  · have hlt := hcarries.length_lt
    rw [hlength] at hlt
    exact absurd hlt (by decide)

end EmbeddedMx
