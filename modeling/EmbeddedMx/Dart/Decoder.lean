import EmbeddedMx.Dart.Output
import EmbeddedMx.Dart.Refinement

/-!
# The receiver decodes the stream of its peer

A peer puts items on the line: frames, and single bytes other than the sync
byte. The receive buffer holds what has arrived of the item under way
(`RxHolds`). What the receiver does with a byte depends on what is missing after
it: inside a frame it collects, with the last byte of a frame it acknowledges
and hands over exactly the data of the frame, a single byte is a control byte or
nothing. Payloads may contain any byte; it is the length field that says
where the frame ends.
-/

namespace EmbeddedMx

open EmbeddedMx.Lib

/-- What a peer puts on the line. -/
inductive LineItem
  | frame (data : List UInt8)
  | byte (ch : UInt8)

namespace LineItem

def bytes (B : Build) : LineItem → List UInt8
  | frame data => dartFrame B data
  | byte ch => [ch]

/-- The length of a frame is a `dart_len_t`, and the frame is not longer than
the receive buffer. -/
def Fits (B : Build) (size : Nat) : LineItem → Prop
  | frame data => data.length < 256 ^ B.lenSize.bytes ∧ B.frameBytes data.length ≤ size
  | byte ch => ch ≠ dartSync

instance (B : Build) (size : Nat) : (item : LineItem) → Decidable (item.Fits B size)
  | frame _ => inferInstanceAs (Decidable (_ ∧ _))
  | byte _ => inferInstanceAs (Decidable (_ ≠ _))

end LineItem

/-- The byte timer has expired when the byte arrives. -/
def RxLate (env : Env) (d : Dart) : Prop :=
  timerRunning d.rxByteTimer ∧ timerExpired d.rxByteTimer env.clock

instance (env : Env) (d : Dart) : Decidable (RxLate env d) :=
  inferInstanceAs (Decidable (_ ∧ _))

/-- The receive buffer holds the bytes `pre`. -/
structure RxHolds (d : Dart) (pre : List UInt8) : Prop where
  bytes : d.rxBufferBytes = pre.length
  content : d.rxBuffer.read 0 pre.length = pre

theorem rxHolds_nil {d : Dart} (h : d.rxBufferBytes = 0) : RxHolds d [] := ⟨h, rfl⟩

/-! ## Frames in the buffer -/

section Frame

variable {B : Build} {data pre post : List UInt8} {m : Mem}

/-- The parts of a frame that has arrived completely. -/
theorem frame_parts (h : m.read 0 (B.frameBytes data.length) = dartFrame B data) :
    m.read B.dataIdx data.length = data ∧
      dartGetCrcValue B m data.length = dartCalculateCrc B data := by
  have hidx : 0 + (dartSync :: dartSetDataLen B data.length).length = B.dataIdx := by
    rw [length_frameHead, Nat.zero_add]
  have hfront : m.read 0 (B.frameBytes data.length) =
      (dartSync :: dartSetDataLen B data.length) ++ data ++
        dartSetCrcValue B (dartCalculateCrc B data) := h
  have hback : m.read 0 (B.frameBytes data.length) =
      (dartSync :: dartSetDataLen B data.length ++ data) ++
        dartSetCrcValue B (dartCalculateCrc B data) ++ [] := by
    rw [List.append_nil]
    exact h
  have hdata := Mem.read_middle hfront
  have hcrc := Mem.read_middle hback
  rw [hidx] at hdata
  rw [List.length_append, ← Nat.add_assoc, hidx, dartSetCrcValue, length_toBe] at hcrc
  refine ⟨hdata, ?_⟩
  rw [dartGetCrcValue, loadBe_of_read hcrc, Nat.mod_eq_of_lt (dartCalculateCrc_lt B data)]

/-- Once the length field has arrived it says the length that follows the sync byte. -/
theorem header_dataLen {n : Nat} {rest : List UInt8}
    (heq : pre ++ post = dartSync :: (dartSetDataLen B n ++ rest))
    (hlen : n < 256 ^ B.lenSize.bytes)
    (hpre : B.lenBytes ≤ pre.length) (h : m.read 0 pre.length = pre) : dartGetDataLen B m = n := by
  have hhead : [dartSync] ++ dartSetDataLen B n <+: dartSync :: (dartSetDataLen B n ++ rest) :=
    List.prefix_append ([dartSync] ++ dartSetDataLen B n) rest
  have hshort : ([dartSync] ++ dartSetDataLen B n).length ≤ pre.length := by
    rw [List.length_append, dartSetDataLen, length_toBe]
    exact hpre
  obtain ⟨back, hback⟩ := List.prefix_of_prefix_length_le hhead (heq ▸ List.prefix_append pre post)
    hshort
  have hfield : m.read Build.lenIdx (dartSetDataLen B n).length = _ :=
    Mem.read_middle (h.trans hback.symm)
  rw [dartSetDataLen, length_toBe] at hfield
  rw [dartGetDataLen, loadBe_of_read hfield, Nat.mod_eq_of_lt hlen]

/-- Once the length field has arrived it says the length of the frame. -/
theorem frame_dataLen (heq : pre ++ post = dartFrame B data)
    (hlen : data.length < 256 ^ B.lenSize.bytes) (hpre : B.lenBytes ≤ pre.length)
    (h : m.read 0 pre.length = pre) : dartGetDataLen B m = data.length := by
  rw [dartFrame, List.append_assoc] at heq
  exact header_dataLen heq hlen hpre h

/-- The first byte of a frame. -/
theorem frame_first {ch : UInt8} (heq : ch :: post = dartFrame B data) : ch = dartSync :=
  (List.cons.inj heq).1

end Frame

/-! ## One byte -/

section Byte

variable {B : Build} {env : Env} {d : Dart} {ch : UInt8} {pre post data : List UInt8}

theorem dartRxStore_size (env : Env) (d : Dart) (ch : UInt8) :
    (dartRxStore env d ch).rxBufferSize = d.rxBufferSize := rfl

theorem RxHolds.store (h : RxHolds d pre) (env : Env) (ch : UInt8)
    (hlen : pre.length + 1 < 2 ^ 16) :
    RxHolds (dartRxStore env d ch) (pre ++ [ch]) where
  bytes := by
    show u16 (d.rxBufferBytes + 1) = _
    rw [h.bytes, u16, Nat.mod_eq_of_lt hlen, List.length_append]
    rfl
  content := by
    show (d.rxBuffer.write d.rxBufferBytes [ch]).read 0 _ = _
    have hsnoc := Mem.read_write_snoc d.rxBuffer 0 pre.length ch
    rw [Nat.zero_add, h.content] at hsnoc
    rw [h.bytes, List.length_append]
    exact hsnoc

/-- Only what the receiver keeps for itself changes, and the WRK pin may be
raised. -/
structure Collects (d d' : Dart) : Prop where
  store : SameStore d d'
  txAckTimer : d'.txAckTimer = d.txAckTimer
  txAttempts : d'.txAttempts = d.txAttempts
  rxBufferSize : d'.rxBufferSize = d.rxBufferSize
  log : d'.log = d.log ∧ d'.wrk = d.wrk ∨
    d'.log = d.log ++ [.pin true] ∧ d.wrk = false ∧ d'.wrk = true

namespace Collects

variable {d' d'' : Dart}

theorem trans (h : Collects d d') (h' : Collects d' d'') : Collects d d'' where
  store := h.store.trans h'.store
  txAckTimer := h'.txAckTimer.trans h.txAckTimer
  txAttempts := h'.txAttempts.trans h.txAttempts
  rxBufferSize := h'.rxBufferSize.trans h.rxBufferSize
  log := by
    rcases h.log with ⟨hlog, hwrk⟩ | ⟨hlog, hlow, hhigh⟩
    · rw [← hlog, ← hwrk]
      exact h'.log
    · rcases h'.log with ⟨hlog', hwrk'⟩ | ⟨_, hlow', _⟩
      · exact .inr ⟨hlog'.trans hlog, hlow, hwrk'.trans hhigh⟩
      · rw [hhigh] at hlow'
        cases hlow'

/-- Behind the timeout check, `dart_handle_received_char` begins with this. -/
theorem rxStore (env : Env) (d : Dart) (ch : UInt8) : Collects d (dartRxStore env d ch) :=
  ⟨⟨rfl, rfl, rfl, rfl⟩, rfl, rfl, rfl, .inl ⟨rfl, rfl⟩⟩

end Collects

theorem dartRxTimeout_eq (hlate : ¬ RxLate env d) : dartRxTimeout env d = d := by
  unfold dartRxTimeout
  rw [if_neg]
  rw [Bool.and_eq_true]
  exact hlate

/-- A byte inside a frame is collected. -/
theorem received_inside (h : RxHolds d pre) (hlate : ¬ RxLate env d)
    (heq : pre ++ ch :: post = dartFrame B data) (hpost : post ≠ [])
    (hfit : (LineItem.frame data).Fits B d.rxBufferSize) (hsize : d.rxBufferSize < 2 ^ 16) :
    Collects d (dartHandleReceivedChar B env d ch) ∧
      RxHolds (dartHandleReceivedChar B env d ch) (pre ++ [ch]) := by
  obtain ⟨hlen, hfits⟩ := hfit
  have htotal : pre.length + 1 + post.length = B.frameBytes data.length := by
    have hlength := congrArg List.length heq
    rw [length_dartFrame, List.length_append, List.length_cons] at hlength
    omega
  have hpos : 0 < post.length := List.length_pos_of_ne_nil hpost
  have hstore := h.store env ch (by omega)
  have hcollect := Collects.rxStore env d ch
  have hcount : (dartRxStore env d ch).rxBufferBytes = pre.length + 1 := by
    rw [hstore.bytes, List.length_append]
    rfl
  unfold dartHandleReceivedChar
  rw [dartRxTimeout_eq hlate]
  dsimp only
  split
  · -- the sync byte
    rename_i hone
    have hnil : pre = [] := List.eq_nil_of_length_eq_zero (by omega)
    subst hnil
    rw [if_pos (frame_first heq)]
    split
    · exact ⟨⟨⟨rfl, rfl, rfl, rfl⟩, rfl, rfl, rfl, .inl ⟨rfl, rfl⟩⟩, hstore.bytes, hstore.content⟩
    · rename_i hwrk
      have hlow : d.wrk = false := Bool.eq_false_of_not_eq_true hwrk
      exact ⟨⟨⟨rfl, rfl, rfl, rfl⟩, rfl, rfl, rfl, .inr ⟨rfl, hlow, rfl⟩⟩, hstore.bytes,
        hstore.content⟩
  · split
    · exact ⟨hcollect, hstore⟩
    · -- the length is known, and bytes are missing
      rename_i hknown
      have heq' : (pre ++ [ch]) ++ post = dartFrame B data := by
        rw [List.append_assoc]
        exact heq
      have hknown' : B.lenBytes ≤ (pre ++ [ch]).length := by
        rw [← hstore.bytes]
        exact Nat.le_of_not_lt hknown
      have hdataLen := frame_dataLen heq' hlen hknown' hstore.content
      rw [hdataLen, dartRxStore_size, if_neg (Nat.not_lt_of_le hfits), if_pos (by omega)]
      exact ⟨hcollect, hstore⟩

/-- With its last byte a frame is acknowledged and handed over. -/
theorem received_last (h : RxHolds d pre) (hlate : ¬ RxLate env d)
    (heq : pre ++ [ch] = dartFrame B data)
    (hfit : (LineItem.frame data).Fits B d.rxBufferSize) (hsize : d.rxBufferSize < 2 ^ 16) :
    dartHandleReceivedChar B env d ch =
        dartRxDrop (dartHandleReceivedMsg B env (dartPushByte (dartRxStore env d ch) dartAck)
          data.length) ∧
      (dartRxStore env d ch).rxBuffer.read B.dataIdx data.length = data := by
  obtain ⟨hlen, hfits⟩ := hfit
  have htotal : pre.length + 1 = B.frameBytes data.length := by
    rw [← length_dartFrame, ← heq, List.length_append]
    rfl
  have hsizes : 1 < B.lenBytes := by
    unfold Build.lenBytes
    cases B.lenSize <;> decide
  have hstore := h.store env ch (by omega)
  have hcount : (dartRxStore env d ch).rxBufferBytes = B.frameBytes data.length := by
    rw [hstore.bytes, ← htotal, List.length_append]
    rfl
  have hcontent := hstore.content
  rw [← hstore.bytes, hcount, heq] at hcontent
  obtain ⟨hdata, hcrc⟩ := frame_parts hcontent
  have hlong : B.lenBytes ≤ B.frameBytes data.length := by
    unfold Build.frameBytes
    omega
  have heq' : (pre ++ [ch]) ++ [] = dartFrame B data := by
    rw [List.append_nil]
    exact heq
  have hknown : B.lenBytes ≤ (pre ++ [ch]).length := by
    rw [← hstore.bytes, hcount]
    exact hlong
  have hdataLen := frame_dataLen heq' hlen hknown hstore.content
  refine ⟨?_, hdata⟩
  unfold dartHandleReceivedChar
  rw [dartRxTimeout_eq hlate]
  dsimp only
  rw [hcount, if_neg (by omega), if_neg (Nat.not_lt_of_le hlong), hdataLen,
    dartRxStore_size, if_neg (Nat.not_lt_of_le hfits), if_neg (Nat.lt_irrefl _)]
  unfold dartHandleFrame
  dsimp only
  rw [hdata, hcrc, if_neg (not_not.mpr rfl)]

/-- A single byte other than the sync byte. -/
theorem received_byte (h : RxHolds d []) (hlate : ¬ RxLate env d) (hch : ch ≠ dartSync) :
    dartHandleReceivedChar B env d ch =
      dartRxDrop (if d.wrk then dartHandleControl B env (dartRxStore env d ch) ch
        else dartRxStore env d ch) := by
  have hcount : (dartRxStore env d ch).rxBufferBytes = 1 :=
    (h.store env ch (by decide)).bytes
  unfold dartHandleReceivedChar
  rw [dartRxTimeout_eq hlate]
  dsimp only
  rw [if_pos hcount, if_neg hch]
  rfl

/-! ## Received messages were checked -/

/-- The receive buffer holds a complete frame with a valid checksum, of this type
and data. -/
structure FrameIn (B : Build) (d : Dart) (type : Nat) (data : List UInt8) : Prop where
  complete : B.frameBytes data.length ≤ d.rxBufferBytes
  len : dartGetDataLen B d.rxBuffer = data.length
  msgType : d.rxBuffer.load B.dataIdx B.msgtypeSize.bytes = type
  content : d.rxBuffer.read B.dataIdx data.length = data
  crc : dartGetCrcValue B d.rxBuffer data.length = dartCalculateCrc B data

/-- From `d` to `d'` messages are reported as received only for the frame in the receive buffer
of `rx`. -/
def Checks (B : Build) (rx d d' : Dart) : Prop :=
  ∃ evs, d'.log = d.log ++ evs ∧ ∀ type data len,
    .callback .messageReceived (.rx type data) len ∈ evs → FrameIn B rx type data

namespace Checks

variable {rx d d' d'' : Dart}

theorem same (hlog : d'.log = d.log) : Checks B rx d d' :=
  ⟨[], by rw [hlog, List.append_nil], fun _ _ _ hmem => absurd hmem List.not_mem_nil⟩

/-- An event that reports nothing as received. -/
theorem event (ev : Event) (hlog : d'.log = d.log ++ [ev])
    (hev : ∀ param len, ev ≠ .callback .messageReceived param len) : Checks B rx d d' := by
  refine ⟨[ev], hlog, fun type data len hmem => ?_⟩
  exact absurd (List.mem_singleton.mp hmem).symm (hev _ _)

theorem trans (h : Checks B rx d d') (h' : Checks B rx d' d'') : Checks B rx d d'' := by
  obtain ⟨evs, hlog, hevs⟩ := h
  obtain ⟨evs', hlog', hevs'⟩ := h'
  refine ⟨evs ++ evs', by rw [hlog', hlog, List.append_assoc], fun type data len hmem => ?_⟩
  rcases List.mem_append.mp hmem with hmem | hmem
  · exact hevs type data len hmem
  · exact hevs' type data len hmem

theorem of_emits (h : Emits d d') : Checks B rx d d' := by
  obtain ⟨evs, hlog, hevs⟩ := h.log
  refine ⟨evs, hlog, fun type data len hmem => ?_⟩
  cases hevs _ hmem

end Checks

/-- The events of a complete frame: a message is reported as received only with a
valid checksum. -/
theorem handleFrame_checks {dataLen : Nat} (hdataLen : dartGetDataLen B d.rxBuffer = dataLen)
    (hcomplete : B.frameBytes dataLen ≤ d.rxBufferBytes) :
    Checks B d d (dartHandleFrame B env d dataLen) := by
  unfold dartHandleFrame
  dsimp only
  split
  · have hbad : Checks B d d (dartPushByte d dartBad) := .event (.uart [dartBad]) rfl nofun
    refine hbad.trans ?_
    exact .event (.callback .transferCorrupted .null 0) rfl nofun
  · rename_i hcrc
    have hlen : (d.rxBuffer.read B.dataIdx dataLen).length = dataLen := Mem.length_read _ _ _
    have hframe : FrameIn B d (d.rxBuffer.load B.dataIdx B.msgtypeSize.bytes)
        (d.rxBuffer.read B.dataIdx dataLen) := by
      refine ⟨?_, ?_, rfl, ?_, ?_⟩
      · rw [hlen]
        exact hcomplete
      · rw [hlen]
        exact hdataLen
      · rw [hlen]
      · rw [hlen]
        exact (not_not.mp hcrc).symm
    unfold dartHandleReceivedMsg
    dsimp only
    refine Checks.trans ?_ (.of_emits (sends_checkResponse B env _ _ _).toEmits)
    refine ⟨[.uart [dartAck], .callback .messageReceived
      (.rx (d.rxBuffer.load B.dataIdx B.msgtypeSize.bytes) (d.rxBuffer.read B.dataIdx dataLen))
      dataLen], List.append_assoc _ _ _, fun type data len hmem => ?_⟩
    rcases List.mem_cons.mp hmem with heq | hmem
    · cases heq
    · cases List.mem_singleton.mp hmem
      exact hframe

/-- A message is reported as received only for a frame with a valid checksum in
the receive buffer. -/
theorem received_checks (B : Build) (env : Env) (d : Dart) (ch : UInt8) :
    Checks B (dartRxStore env (dartRxTimeout env d) ch) d (dartHandleReceivedChar B env d ch) := by
  have hstart : Checks B (dartRxStore env (dartRxTimeout env d) ch) d
      (dartRxStore env (dartRxTimeout env d) ch) := by
    refine Checks.trans ?_ (.same (d := dartRxTimeout env d) rfl)
    unfold dartRxTimeout
    split
    · exact .event (.callback .transferIncomplete .null 0) rfl nofun
    · exact .same rfl
  unfold dartHandleReceivedChar
  generalize dartRxStore env (dartRxTimeout env d) ch = rx at hstart ⊢
  refine hstart.trans ?_
  have hdrop : ∀ d', Checks B rx rx d' → Checks B rx rx (dartRxDrop d') := fun d' h =>
    h.trans (.same rfl)
  dsimp only
  split
  · -- the sync byte and the control bytes
    split
    · split
      · exact .same rfl
      · exact .event (.pin true) rfl nofun
    · refine hdrop _ ?_
      split
      · rcases sends_control B env rx ch with ⟨heq, -⟩ | ⟨hsends, -⟩
        · rw [heq]
          exact .same rfl
        · refine Checks.trans ?_ (.of_emits hsends.toEmits)
          exact .event (.control ch) rfl nofun
      · exact .same rfl
  · split
    · exact .same rfl
    · split
      · refine hdrop _ ?_
        exact .event (.callback .transferCorrupted .null 0) rfl nofun
      · split
        · exact .same rfl
        · rename_i hcomplete
          exact hdrop _ (handleFrame_checks rfl (Nat.le_of_not_lt hcomplete))

end Byte

/-! ## A frame in progress -/

/-- One byte after the other, each with the clock and pin it arrives at. -/
def dartFeed (B : Build) (d : Dart) (input : List (Env × UInt8)) : Dart :=
  input.foldl (fun d i => dartHandleReceivedChar B i.1 d i.2) d

/-- No byte comes after the byte timer has expired. -/
def InTime (B : Build) : Dart → List (Env × UInt8) → Prop
  | _, [] => True
  | d, i :: input => ¬ RxLate i.1 d ∧ InTime B (dartHandleReceivedChar B i.1 d i.2) input

instance InTime.decidable (B : Build) :
    (d : Dart) → (input : List (Env × UInt8)) → Decidable (InTime B d input)
  | _, [] => .isTrue trivial
  | d, i :: input =>
      have := InTime.decidable B (dartHandleReceivedChar B i.1 d i.2) input
      inferInstanceAs (Decidable (_ ∧ _))

section Feed

variable {B : Build} {d : Dart} {pre data : List UInt8} {input : List (Env × UInt8)}

/-- All bytes of a frame but the last are collected: with the last one it is
acknowledged and handed over. -/
theorem feed_frame (hrx : RxHolds d pre) (hbytes : pre ++ input.map Prod.snd = dartFrame B data)
    (hne : input ≠ []) (hfit : (LineItem.frame data).Fits B d.rxBufferSize)
    (hsize : d.rxBufferSize < 2 ^ 16)
    (htime : InTime B d input) :
    ∃ env d', Collects d d' ∧ d'.rxBuffer.read B.dataIdx data.length = data ∧
      dartFeed B d input =
        dartRxDrop (dartHandleReceivedMsg B env (dartPushByte d' dartAck) data.length) := by
  induction input generalizing d pre with
  | nil => exact absurd rfl hne
  | cons i rest ih =>
      obtain ⟨env, ch⟩ := i
      obtain ⟨hlate, hrest⟩ := htime
      cases rest with
      | nil =>
          obtain ⟨heq, hdata⟩ := received_last hrx hlate hbytes hfit hsize
          exact ⟨env, dartRxStore env d ch, .rxStore env d ch, hdata, heq⟩
      | cons j rest =>
          obtain ⟨hcollect, hrx'⟩ := received_inside hrx hlate hbytes (by simp) hfit hsize
          have hsize' := hcollect.rxBufferSize
          obtain ⟨env', d', hcollect', hdata, heq⟩ := ih hrx'
            (by rw [List.append_assoc]; exact hbytes) (List.cons_ne_nil _ _)
            (hsize' ▸ hfit) (hsize' ▸ hsize) hrest
          refine ⟨env', d', hcollect.trans hcollect', hdata, ?_⟩
          rw [dartFeed, List.foldl_cons]
          exact heq

end Feed

end EmbeddedMx
