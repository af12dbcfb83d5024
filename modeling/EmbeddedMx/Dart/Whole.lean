import EmbeddedMx.Dart.Reception

/-!
# Whole messages

A message is at least as long as its type. The receiver does not look for that: it reads
the type where it would stand, and of a frame with fewer data bytes it takes the checksum,
or what an earlier frame has left behind it, for the type of the message.
-/

namespace EmbeddedMx

open EmbeddedMx.Lib

/-- The type of a message that consists of these bytes. -/
def msgTypeOf (B : Build) (data : List UInt8) : Nat := ofLe (data.take B.msgtypeSize.bytes)

/-- A message is handed over: what follows depends on its bytes, and on nothing else that
the receive buffer holds. -/
def dartDeliver (B : Build) (env : Env) (self : Dart) (data : List UInt8) : Dart :=
  let self := self.callback .messageReceived (.rx (msgTypeOf B data) data) data.length
  dartCheckResponse B env { self with rxBuffer := env.received self.rxBuffer } (msgTypeOf B data)
    data.length

/-- The type of a message in the buffer that is not shorter than it. -/
theorem load_eq_msgTypeOf {B : Build} {m : Mem} {data : List UInt8}
    (hdata : m.read B.dataIdx data.length = data) (hlen : sizeofMsg B.msgtypeSize ≤ data.length) :
    m.load B.dataIdx B.msgtypeSize.bytes = msgTypeOf B data := by
  have hle : B.msgtypeSize.bytes ≤ data.length := hlen
  have htake := Mem.take_read m B.dataIdx data.length B.msgtypeSize.bytes
  rw [hdata, Nat.min_eq_left hle] at htake
  unfold msgTypeOf Mem.load
  rw [htake]

/-- Such a message is handed over. -/
theorem handleReceivedMsg_eq_deliver {B : Build} {env : Env} {d : Dart} {data : List UInt8}
    (hdata : d.rxBuffer.read B.dataIdx data.length = data)
    (hlen : sizeofMsg B.msgtypeSize ≤ data.length) :
    dartHandleReceivedMsg B env d data.length = dartDeliver B env d data := by
  unfold dartHandleReceivedMsg dartDeliver
  dsimp only
  rw [load_eq_msgTypeOf hdata hlen, hdata]

/-- The messages that the call reports are whole: they are at least as long as a type, and
they are reported, and compared with the pending request, by their own bytes. -/
def ReportsWhole (B : Build) (env : Env) (d : Dart) (ch : UInt8) : Prop :=
  ∀ evs, (dartHandleReceivedChar B env d ch).log = d.log ++ evs → ∀ param len,
    .callback .messageReceived param len ∈ evs →
    ∃ data, sizeofMsg B.msgtypeSize ≤ data.length ∧ param = .rx (msgTypeOf B data) data ∧
      len = data.length ∧
      dartHandleReceivedChar B env d ch = dartRxDrop (dartDeliver B env
        (dartPushByte (dartRxStore env (dartRxTimeout env d) ch) dartAck) data)

/-- The byte does not complete the frame of a message that is shorter than its type. -/
def NotShort (B : Build) (env : Env) (d : Dart) (ch : UInt8) : Prop :=
  ∀ data, CompletesFrame B env d ch data → sizeofMsg B.msgtypeSize ≤ data.length

instance (B : Build) (env : Env) (d : Dart) (ch : UInt8) : Decidable (NotShort B env d ch) :=
  decidable_of_iff _ (forall_completes rfl).symm

section Functions

variable {B : Build} {env : Env} {d : Dart} {ch : UInt8} {pre : List UInt8}

theorem reportsWhole_iff (h : RxPart B d pre) (hsize : d.rxBufferSize < 2 ^ 16) :
    ReportsWhole B env d ch ↔ NotShort B env d ch := by
  constructor
  · intro hwhole data hcompletes
    by_contra hshort
    have hlen : data.length < 256 ^ B.lenSize.bytes := by
      have hsmall : sizeofMsg B.msgtypeSize ≤ 256 ^ B.lenSize.bytes := by
        cases B.msgtypeSize <;> cases B.lenSize <;> simp [sizeofMsg, Width.bytes]
      omega
    obtain ⟨evs, type, hlog, hmem⟩ := completes_reports h hsize hcompletes hlen
    obtain ⟨data', hle, -, hsame, -⟩ := hwhole evs hlog _ _ hmem
    omega
  · intro hnot evs hlog param len hmem
    obtain ⟨data, hcompletes, hdata, hparam, hlen, hresult⟩ := received_reports h hsize hlog hmem
    have hle := hnot data hcompletes
    have hdeliver : dartHandleReceivedMsg B env
        (dartPushByte (dartRxStore env (dartRxTimeout env d) ch) dartAck) data.length = _ :=
      handleReceivedMsg_eq_deliver hdata hle
    rw [hdeliver] at hresult
    rw [load_eq_msgTypeOf hdata hle] at hparam
    exact ⟨data, hle, hparam, hlen, hresult⟩

end Functions

/-! ## Runs -/

/-- The call does not complete the frame of a message that is shorter than its type. -/
def DartCall.NotShort (B : Build) (env : Env) (d : Dart) : DartCall → Prop
  | .receive ch => EmbeddedMx.NotShort B env d ch
  | _ => True

instance (B : Build) (env : Env) (d : Dart) : (call : DartCall) → Decidable (call.NotShort B env d)
  | .receive ch => inferInstanceAs (Decidable (EmbeddedMx.NotShort B env d ch))
  | .send _ _ _ => .isTrue trivial
  | .time => .isTrue trivial

/-- The runs in which no frame of such a message arrives. -/
def wholeSystem (B : Build) (n : Nat) : TSys Dart (Env × DartCall) :=
  (dartSystem B n).restrict fun d i => i.2.NotShort B i.1 d

/-- **Only whole messages are delivered** as long as only frames of whole messages arrive:
then every message that has been reported is at least as long as a type, and its type
consists of its bytes. In every state and for every byte, the messages reported by the
call are whole, and compared with the pending request by their own bytes, if and only if
the byte does not complete the frame of a message that is shorter than its type. -/
theorem dart_whole_messages (B : Build) (n : Nat) :
    ((wholeSystem B n).Invariant fun d => ∀ (param : Param) (len : Nat),
      .callback .messageReceived param len ∈ d.log →
      ∃ data : List UInt8, sizeofMsg B.msgtypeSize ≤ data.length ∧
        param = .rx (msgTypeOf B data) data ∧ len = data.length) ∧
    (dartSystem B n).Invariant fun d => ∀ (env : Env) (ch : UInt8),
      ReportsWhole B env d ch ↔ NotShort B env d ch := by
  have hpart := dartSystem_rxPart B n
  refine ⟨fun d hd => ?_, fun d hd env ch => ?_⟩
  · induction hd with
    | init hinit =>
        obtain ⟨d₀, mpool, rxBuffer, rxBufferSize, -, -, -, rfl⟩ := hinit
        intro param len hmem
        exact absurd hmem List.not_mem_nil
    | @step d i d' hreach hstep ih =>
        obtain ⟨env, call⟩ := i
        obtain ⟨hshort, -, rfl⟩ := hstep
        intro param len hmem
        have hquiet : Emits d (dartCall B env d call) →
            .callback .messageReceived param len ∈ d.log :=
          fun h => h.mem_log rfl hmem
        cases call with
        | send prio msg msgLen =>
            exact ih param len (hquiet (sends_send B env d prio msg msgLen).toEmits)
        | time => exact ih param len (hquiet (emits_time B env d))
        | receive ch =>
            obtain ⟨hsize, pre, hpart⟩ := hpart d hreach.of_restrict
            obtain ⟨evs, hlog⟩ := received_log hpart hsize env ch
            have hmem : .callback .messageReceived param len ∈
                (dartHandleReceivedChar B env d ch).log := hmem
            rw [hlog] at hmem
            rcases List.mem_append.mp hmem with hmem | hmem
            · exact ih param len hmem
            · obtain ⟨data, hle, hparam, hlen, -⟩ :=
                (reportsWhole_iff hpart hsize).mpr hshort evs hlog param len hmem
              exact ⟨data, hle, hparam, hlen⟩
  · obtain ⟨hsize, pre, hpart⟩ := hpart d hd
    exact reportsWhole_iff hpart hsize

/-- Types of two bytes: two messages arrive, the second is as long as a type. -/
theorem dart_whole_messages_two :
    let B : Build := ⟨.two, .one, .one⟩
    let d := dartCalls B (dartFresh 512 64) ((dartFrame B [0x11, 0x22, 0x33] ++
      dartFrame B [0x44, 0x55]).map fun ch => (.plain 7 true, .receive ch))
    (wholeSystem B 512).Reachable d ∧
      .callback .messageReceived (.rx 0x5544 [0x44, 0x55]) 2 ∈ d.log ∧
      ∃ data : List UInt8, sizeofMsg .two ≤ data.length ∧
        Param.rx 0x5544 [0x44, 0x55] = .rx (msgTypeOf B data) data ∧ 2 = data.length := by
  intro B d
  have hd : (wholeSystem B 512).Reachable d :=
    restrict_calls (.init (dartFresh_initial (by decide) (by decide))) (by decide)
      (by decide +kernel)
  have hmem : .callback .messageReceived (.rx 0x5544 [0x44, 0x55]) 2 ∈ d.log := by decide +kernel
  exact ⟨hd, hmem, (dart_whole_messages B 512).1 d hd _ _ hmem⟩

/-- A frame without data: the checksum 0xFF is taken for the type of the message. -/
theorem dart_whole_messages_empty :
    ∃ d, (dartSystem ⟨.one, .one, .one⟩ 512).Reachable d ∧
      d.log.getLast? = some (.callback .messageReceived (.rx 0xFF []) 0) ∧
      ¬ sizeofMsg .one ≤ 0 := by
  refine ⟨dartCalls ⟨.one, .one, .one⟩ (dartFresh 512 64)
    ([0x55, 0x00, 0xFF].map fun ch => (.plain 7 true, .receive ch)), ?_, by decide +kernel,
    by decide⟩
  exact dartSystem_calls (dartFresh_reachable _ (by decide) (by decide)) (by decide)

end EmbeddedMx
