import EmbeddedMx.Dart.Refinement
import EmbeddedMx.Lib.TSys

/-!
# Runs of an endpoint

An endpoint is driven by calls: messages to send, received bytes, and the time
handler. Between two calls the clock and the RDY pin may change in any way: each
call comes with its own `Env`. Every run in which no allocation loses bits of a
length (`SendFits`) is a run of the engine.
-/

namespace EmbeddedMx

open EmbeddedMx.Lib

/-- A call of the endpoint. -/
inductive DartCall
  | send (prio : Nat) (msg : Mem) (msgLen : Nat)
  | receive (ch : UInt8)
  | time

/-- The endpoint after a call. -/
def dartCall (B : Build) (env : Env) (d : Dart) : DartCall → Dart
  | .send prio msg msgLen => (dartSendMsgEx B env d prio msg msgLen).1
  | .receive ch => dartHandleReceivedChar B env d ch
  | .time => (dartHandleTime B env d).1

/-- The length of a message is a `dart_len_t`. -/
def DartCall.Valid (B : Build) : DartCall → Prop
  | .send _ _ msgLen => msgLen < 256 ^ B.lenSize.bytes
  | _ => True

/-- The allocation of the call, if it makes one, loses no bits. -/
def DartCall.Fits (B : Build) (d : Dart) : DartCall → Prop
  | .send _ _ msgLen => SendFits B d msgLen
  | _ => True

instance (B : Build) (d : Dart) : (call : DartCall) → Decidable (call.Fits B d)
  | .send _ _ _ => inferInstanceAs (Decidable (SendFits _ _ _))
  | .receive _ => .isTrue trivial
  | .time => .isTrue trivial

/-- The state `dart_init` leaves, for a pool of `n` bytes anywhere in memory. Both
sizes are 16-bit. -/
def DartInitial (n : Nat) (d : Dart) : Prop :=
  ∃ d₀ mpool rxBuffer rxBufferSize, n < 2 ^ 16 ∧ rxBufferSize < 2 ^ 16 ∧
    mpool + n ≤ 256 ^ sizeofPtr ∧ d = dartInit d₀ mpool n rxBuffer rxBufferSize

/-- The runs of an endpoint with a pool of `n` bytes. -/
def dartSystem (B : Build) (n : Nat) : TSys Dart (Env × DartCall) where
  init := DartInitial n
  step d i d' := i.2.Valid B ∧ d' = dartCall B i.1 d i.2

theorem dartSystem_call {B : Build} {n : Nat} {d : Dart} (env : Env) (call : DartCall)
    (hd : (dartSystem B n).Reachable d) (hvalid : call.Valid B) :
    (dartSystem B n).Reachable (dartCall B env d call) :=
  .step (i := (env, call)) hd ⟨hvalid, rfl⟩

/-- The endpoint after a number of calls. -/
def dartCalls (B : Build) (d : Dart) (calls : List (Env × DartCall)) : Dart :=
  calls.foldl (fun d c => dartCall B c.1 d c.2) d

theorem dartSystem_calls {B : Build} {n : Nat} {calls : List (Env × DartCall)} {d : Dart}
    (hd : (dartSystem B n).Reachable d) (hvalid : ∀ c ∈ calls, c.2.Valid B) :
    (dartSystem B n).Reachable (dartCalls B d calls) := by
  induction calls generalizing d with
  | nil => exact hd
  | cons c calls ih =>
      exact ih (dartSystem_call c.1 c.2 hd (hvalid c List.mem_cons_self))
        fun c' hc' => hvalid c' (List.mem_cons_of_mem _ hc')

/-- Calls that meet a side condition, each in the state the ones before it leave. -/
theorem restrict_calls {B : Build} {n : Nat} {P : Dart → Env × DartCall → Prop} {d : Dart}
    (hd : ((dartSystem B n).restrict P).Reachable d) {calls : List (Env × DartCall)}
    (hvalid : ∀ c ∈ calls, c.2.Valid B)
    (hmeets : ∀ k (hk : k < calls.length), P (dartCalls B d (calls.take k)) calls[k]) :
    ((dartSystem B n).restrict P).Reachable (dartCalls B d calls) :=
  hd.foldl _ calls fun k hk => ⟨hmeets k hk, hvalid _ (List.getElem_mem hk), rfl⟩

instance (B : Build) (call : DartCall) : Decidable (call.Valid B) :=
  match call with
  | .send _ _ msgLen => inferInstanceAs (Decidable (msgLen < 256 ^ B.lenSize.bytes))
  | .receive _ => .isTrue trivial
  | .time => .isTrue trivial

/-- `struct dart` before `dart_init`, all zero. -/
def dartZero : Dart where
  heap := { cba := ⟨0, 0, 0, 0, 0⟩, mem := fun _ => 0 }
  queue := msgQueueInit
  transfering := none
  pendingRequest := 0
  wakeupTimer := timerStop
  wakeupAttempts := 0
  txAckTimer := timerStop
  txResponseTimer := timerStop
  txAttempts := 0
  rxBuffer := fun _ => 0
  rxBufferSize := 0
  rxBufferBytes := 0
  rxByteTimer := timerStop
  closingTimer := timerStop
  running := false
  wrk := false
  log := []

/-- An endpoint with a pool of `n` bytes and a receive buffer of `size` bytes. -/
def dartFresh (n size : Nat) : Dart := dartInit dartZero 16 n (fun _ => 0) size

theorem dartFresh_initial {n size : Nat} (hn : n < 2 ^ 16) (hsize : size < 2 ^ 16) :
    DartInitial n (dartFresh n size) :=
  ⟨dartZero, 16, fun _ => 0, size, hn, hsize, by simp only [sizeofPtr]; omega, rfl⟩

theorem dartFresh_reachable (B : Build) {n size : Nat} (hn : n < 2 ^ 16) (hsize : size < 2 ^ 16) :
    (dartSystem B n).Reachable (dartFresh n size) :=
  .init (dartFresh_initial hn hsize)

/-- Calls at time `ms` with the RDY pin at the given level, without deferred
messages and with a callback that leaves the received message alone. -/
def Env.plain (ms : Nat) (rdy : Bool) : Env where
  clock := ⟨ms, 0, 0⟩
  rdy := rdy
  deferred := none
  received := id

/-- The runs in which no allocation loses bits. -/
def fittingSystem (B : Build) (n : Nat) : TSys Dart (Env × DartCall) :=
  (dartSystem B n).restrict fun d i => i.2.Fits B d

/-- With one byte lengths and a pool of at most 4099 bytes nothing is lost. -/
theorem sendFits_of_small {B : Build} {n : Nat} {d : Dart} {e : Engine} (h : DartRep B n d e)
    (hB : B.lenSize = .one) (hn : n ≤ 4099) {msgLen : Nat}
    (hlen : msgLen < 256 ^ B.lenSize.bytes) : SendFits B d msgLen := by
  rw [hB] at hlen
  refine ⟨?_, h.store.holds.fits (h.store.size ▸ hn) _⟩
  have := hlen
  simp only [Width.bytes, sizeofMsgPtr] at *
  omega

/-! ## Calls refine the engine -/

section Calls

variable {B : Build} {n : Nat} {env : Env} {d : Dart} {e : Engine}

theorem deferredOut_uart (B : Build) (env : Env) (m : Msg) :
    ∀ ev ∈ (deferredOut B env m).1, ∃ bytes, ev = .uart bytes := by
  intro ev hev
  unfold deferredOut at hev
  split at hev
  · split at hev
    · exact absurd hev List.not_mem_nil
    · obtain ⟨data, _, rfl⟩ := List.mem_map.mp hev
      exact ⟨_, rfl⟩
  · exact absurd hev List.not_mem_nil

theorem transferOut_uart (B : Build) (env : Env) (m : Msg) :
    ∀ ev ∈ transferOut B env m, ∃ bytes, ev = .uart bytes := by
  intro ev hev
  rcases List.mem_append.mp hev with hev | hev
  · exact deferredOut_uart B env m ev hev
  · split at hev
    · exact absurd hev List.not_mem_nil
    · exact ⟨_, List.mem_singleton.mp hev⟩

/-- A step of an endpoint during a call with `env`. -/
inductive CallStep (B : Build) (env : Env) (e : Engine) (evs : List Event) (e' : Engine) : Prop
  | input : EngineIn B.msgtypeSize e evs e' → CallStep B env e evs e'
  | output : OutStep B env True (fun _ => True) e evs e' → CallStep B env e evs e'

theorem CallStep.engine {evs : List Event} {e e' : Engine} (h : CallStep B env e evs e') :
    EngineStep B.msgtypeSize True e evs e' := by
  cases h with
  | input hin => exact .input hin
  | output hout => exact .output (transferOut_uart B env) hout

theorem Tracks.call {l : List Event} (h : Tracks B n (OutStep B env True fun _ => True) l e d) :
    Tracks B n (CallStep B env) l e d :=
  h.mono fun _ _ _ hstep => .output hstep

theorem Responds.call {l : List Event} (h : Responds B n env True (fun _ => True) l e d) :
    Tracks B n (CallStep B env) l e d := by
  obtain ⟨evs, e₁, hin, hout⟩ := h
  exact .after (.input hin) rfl hout.call

theorem dartRxTimeout_tracks (h : DartRep B n d e) {late : Prop} {ok : Msg → Prop} :
    Tracks B n (OutStep B env late ok) d.log e (dartRxTimeout env d) := by
  unfold dartRxTimeout
  split
  · exact (tracks_quiet h (.notify .transferIncomplete 0)).congr ⟨rfl, rfl, rfl, rfl⟩ rfl
  · exact .stay h (.refl d) rfl

theorem dartRxStore_same (env : Env) (d : Dart) (ch : UInt8) :
    SameStore d (dartRxStore env d ch) := ⟨rfl, rfl, rfl, rfl⟩

theorem dartRxDrop_same (d : Dart) : SameStore d (dartRxDrop d) := ⟨rfl, rfl, rfl, rfl⟩

/-- `dart_handle_received_char`, behind the byte timer check. -/
theorem tracks_received (h : DartRep B n d e) (ch : UInt8) :
    Tracks B n (CallStep B env) d.log e (dartHandleReceivedChar B env d ch) := by
  have hstart : Tracks B n (CallStep B env) d.log e
      (dartRxStore env (dartRxTimeout env d) ch) := by
    have htimeout : Tracks B n (CallStep B env) d.log e (dartRxTimeout env d) :=
      (dartRxTimeout_tracks h).call
    exact htimeout.congr (dartRxStore_same env _ ch) rfl
  unfold dartHandleReceivedChar
  generalize dartRxStore env (dartRxTimeout env d) ch = d₁ at hstart
  refine hstart.trans fun e' h' => ?_
  have hstay : ∀ {l d₂}, Tracks B n (CallStep B env) l e' d₂ →
      Tracks B n (CallStep B env) l e' (dartRxDrop d₂) :=
    fun ht => ht.congr (dartRxDrop_same _) rfl
  have hquiet : ∀ {ev : Event}, ev.Quiet →
      Tracks B n (CallStep B env) d₁.log e' (d₁.emit ev) :=
    fun hev => (tracks_quiet h' hev).call
  dsimp only
  split
  · split
    · split
      · exact .stay h' ⟨rfl, rfl, rfl, rfl⟩ rfl
      · exact (hquiet (.pin true)).congr ⟨rfl, rfl, rfl, rfl⟩ rfl
    · refine hstay ?_
      split
      · have hcontrol : dartHandleControl B env d₁ ch = d₁ ∨
            Responds B n env True (fun _ => True) d₁.log e' (dartHandleControl B env d₁ ch) :=
          responds_control h' fun _ _ => trivial
        rcases hcontrol with heq | hresp
        · rw [heq]
          exact .stay h' (.refl d₁) rfl
        · exact hresp.call
      · exact .stay h' (.refl d₁) rfl
  · split
    · exact .stay h' (.refl d₁) rfl
    · split
      · exact hstay (hquiet (.notify .transferCorrupted 0))
      · split
        · exact .stay h' (.refl d₁) rfl
        · exact hstay (responds_frame h' (dartGetDataLen B d₁.rxBuffer)).call

/-- Every call of an endpoint is a run of the engine, with the bytes of the call. -/
theorem tracks_dartCall (env : Env) (h : DartRep B n d e) {call : DartCall} (hvalid : call.Valid B)
    (hfits : call.Fits B d) :
    Tracks B n (CallStep B env) d.log e (dartCall B env d call) := by
  cases call with
  | send prio msg msgLen => exact (tracks_send h hvalid hfits fun _ _ => trivial).call
  | receive ch => exact tracks_received h ch
  | time => exact (tracks_time h fun _ _ => trivial).call

/-- Every call of an endpoint is a run of the engine. -/
theorem tracks_call (env : Env) (h : DartRep B n d e) {call : DartCall} (hvalid : call.Valid B)
    (hfits : call.Fits B d) :
    Tracks B n (EngineStep B.msgtypeSize True) d.log e (dartCall B env d call) :=
  (tracks_dartCall env h hvalid hfits).mono fun _ _ _ hstep => hstep.engine

end Calls

/-- `dart_init` leaves the empty engine. -/
theorem dartInit_rep {B : Build} {n : Nat} {d : Dart} (h : DartInitial n d) :
    DartRep B n d Engine.init ∧ d.log = [] := by
  obtain ⟨d₀, mpool, rxBuffer, rxBufferSize, hn, -, haddr, rfl⟩ := h
  refine ⟨⟨⟨?_, rfl, haddr, fun _ _ => msgListInit_rep _, ?_, ?_⟩, rfl, rfl, ?_, ?_⟩, rfl⟩
  · exact cbaInit_holds _ _ hn
  · exact List.nodup_nil
  · intro m hm
    exact absurd hm List.not_mem_nil
  · intro i hi
    cases hi
  · intro m hm
    rw [Engine.messages_init] at hm
    exact absurd hm List.not_mem_nil

/-- **The endpoint refines the engine**: in every run that loses no bits of a
length, the log is the trace of a run of the engine to the represented state. -/
theorem dart_refines_engine (B : Build) (n : Nat) :
    (fittingSystem B n).Invariant fun d =>
      ∃ e, Runs (EngineStep B.msgtypeSize True) Engine.init d.log e ∧ DartRep B n d e := by
  apply TSys.Inductive.invariant
  constructor
  · intro d hinit
    obtain ⟨hrep, hlog⟩ := dartInit_rep (B := B) hinit
    exact ⟨Engine.init, hlog ▸ .refl _, hrep⟩
  · rintro d ⟨env, call⟩ d' ⟨e, hrun, hrep⟩ ⟨hfits, hvalid, rfl⟩
    obtain ⟨evs, e', hlog, hrun', hrep'⟩ := tracks_call env hrep hvalid hfits
    exact ⟨e', hlog ▸ hrun.trans hrun', hrep'⟩

/-- With one byte lengths and a pool of at most 4099 bytes every run fits. -/
theorem dartSystem_fits {B : Build} {n : Nat} (hB : B.lenSize = .one) (hn : n ≤ 4099) {d : Dart}
    (hd : (dartSystem B n).Reachable d) : (fittingSystem B n).Reachable d := by
  induction hd with
  | init hinit => exact .init hinit
  | step _ hstep ih =>
      rename_i s i s' _
      obtain ⟨e, _, hrep⟩ := dart_refines_engine B n s ih
      refine ih.step ⟨?_, hstep⟩
      obtain ⟨env, call⟩ := i
      cases call with
      | send prio msg msgLen => exact sendFits_of_small hrep hB hn hstep.1
      | receive ch => trivial
      | time => trivial

end EmbeddedMx
