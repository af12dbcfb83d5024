import EmbeddedMx.Dart.Endpoint
import EmbeddedMx.Dart.Output

/-!
# Interrupted frames

The byte timer runs from the last received byte of a frame that is not complete
(`RxTimed`), and it is looked at when the next byte comes. The time handler looks at
the other timers only: a frame that is interrupted stays in the receive buffer, the
link is not idle, and it is not closed (`dart_stalled_frames`).
-/

namespace EmbeddedMx

open EmbeddedMx.Lib

/-! ## Idle -/

/-- Check if sending or will send in the future. -/
def dartIsSending (B : Build) (self : Dart) : Bool :=
  self.transfering.isSome || self.pendingRequest ≠ 0 || (dartFindNextMessageQueue B self).isSome

/-- Check if receiving. -/
def dartIsReceiving (self : Dart) : Bool := self.rxBufferBytes ≠ 0

/-- Check if idle. -/
def dartIsIdle (B : Build) (self : Dart) : Bool := !(dartIsSending B self || dartIsReceiving self)

/-- A part of a frame is in the receive buffer, and its byte timer has expired. -/
def Dart.Stalled (env : Env) (d : Dart) : Prop :=
  0 < d.rxBufferBytes ∧ timerExpired d.rxByteTimer env.clock = true

instance (env : Env) (d : Dart) : Decidable (d.Stalled env) := inferInstanceAs (Decidable (_ ∧ _))

/-! ## The last byte -/

/-- A call in a history: the state before it, and what it is given. -/
abbrev PastCall := Dart × Env × DartCall

/-- The clock when a byte is received. -/
def byteClock : PastCall → Option Clock
  | (_, env, .receive _) => some env.clock
  | _ => none

/-- The clock when the last byte was received. -/
def lastByte (hist : List PastCall) : Option Clock := (hist.filterMap byteClock).getLast?

theorem lastByte_receive (hist : List PastCall) (d : Dart) (env : Env) (ch : UInt8) :
    lastByte (hist ++ [(d, env, .receive ch)]) = some env.clock := by
  simp [lastByte, byteClock]

theorem lastByte_other {call : PastCall} (h : byteClock call = none) (hist : List PastCall) :
    lastByte (hist ++ [call]) = lastByte hist := by
  simp [lastByte, h]

/-- The byte timer of an incomplete frame runs from its last byte. -/
def RxTimed (hist : List PastCall) (d : Dart) : Prop :=
  0 < d.rxBufferBytes → ∃ c, lastByte hist = some c ∧
    d.rxByteTimer = timerStart c timerMs dartByteTimerVal

theorem RxTimed.congr {hist hist' : List PastCall} {d d' : Dart} (h : RxTimed hist d)
    (hhist : lastByte hist' = lastByte hist) (hd : Emits d d') : RxTimed hist' d' := by
  unfold RxTimed
  rw [hhist, hd.rxBufferBytes, hd.rxByteTimer]
  exact h

/-- `dart_handle_received_char` -/
theorem rxTimed_received (B : Build) (env : Env) {hist : List PastCall} {d : Dart}
    (h : RxTimed hist d) (ch : UInt8) :
    RxTimed (hist ++ [(d, env, .receive ch)]) (dartHandleReceivedChar B env d ch) := by
  have htimed : ∀ d' : Dart,
      (0 < d'.rxBufferBytes → d'.rxByteTimer = timerStart env.clock timerMs dartByteTimerVal) →
      RxTimed (hist ++ [(d, env, .receive ch)]) d' :=
    fun d' hd' hbytes => ⟨env.clock, lastByte_receive .., hd' hbytes⟩
  have hdrop : ∀ d', RxTimed (hist ++ [(d, env, .receive ch)]) (dartRxDrop d') :=
    fun d' => htimed _ fun hbytes => absurd hbytes (Nat.lt_irrefl 0)
  -- the first byte of a frame starts the timer, every other byte restarts it
  have hstore : (dartRxStore env (dartRxTimeout env d) ch).rxBufferBytes ≠ 1 →
      0 < (dartRxStore env (dartRxTimeout env d) ch).rxBufferBytes →
      (dartRxStore env (dartRxTimeout env d) ch).rxByteTimer =
        timerStart env.clock timerMs dartByteTimerVal := by
    intro hone hbytes
    have htimeout : RxTimed hist (dartRxTimeout env d) := by
      unfold dartRxTimeout
      split
      · exact fun hbytes => absurd hbytes (Nat.lt_irrefl 0)
      · exact h
    have hmore : 0 < (dartRxTimeout env d).rxBufferBytes := by
      refine Nat.pos_of_ne_zero fun hzero => hone ?_
      show u16 ((dartRxTimeout env d).rxBufferBytes + 1) = 1
      rw [hzero]
      rfl
    obtain ⟨c, -, hc⟩ := htimeout hmore
    show timerRestart (dartRxTimeout env d).rxByteTimer env.clock = _
    rw [hc]
    rfl
  unfold dartHandleReceivedChar
  generalize dartRxStore env (dartRxTimeout env d) ch = d₁ at hstore
  dsimp only
  split
  · split
    · refine htimed _ fun _ => ?_
      split <;> rfl
    · exact hdrop _
  · rename_i hone
    split
    · exact htimed _ (hstore hone)
    · split
      · exact hdrop _
      · split
        · exact htimed _ (hstore hone)
        · exact hdrop _

/-- A call. -/
theorem rxTimed_call (B : Build) {hist : List PastCall} {d : Dart} (h : RxTimed hist d) (env : Env)
    (call : DartCall) : RxTimed (hist ++ [(d, env, call)]) (dartCall B env d call) := by
  cases call with
  | send prio msg msgLen =>
      exact h.congr (lastByte_other rfl hist) (sends_send B env d prio msg msgLen).toEmits
  | receive ch => exact rxTimed_received B env h ch
  | time => exact h.congr (lastByte_other rfl hist) (emits_time B env d)

/-- The byte timer is right in every run, and was right at every call. -/
theorem dart_rxTimed (B : Build) (n : Nat) : (dartSystem B n).recorded.Invariant fun x =>
    RxTimed x.2 x.1 ∧ Each (fun hist call => RxTimed hist call.1) x.2 := by
  apply TSys.Inductive.invariant
  constructor
  · rintro ⟨d, hist⟩ ⟨⟨d₀, mpool, rxBuffer, rxBufferSize, -, -, -, rfl⟩, rfl⟩
    exact ⟨fun hbytes => absurd hbytes (Nat.lt_irrefl 0), each_nil _⟩
  · rintro ⟨d, hist⟩ ⟨env, call⟩ ⟨d', hist'⟩ ⟨htimed, hpast⟩ ⟨⟨-, rfl⟩, rfl⟩
    refine ⟨rxTimed_call B htimed env call, each_append hpast (each_cons ?_ (each_nil _))⟩
    rw [List.append_nil]
    exact htimed

/-! ## The time handler -/

/-- The last byte of an incomplete frame was received less than `DART_BYTE_TIMER_VAL`
ago. -/
def Prompt (hist : List PastCall) (env : Env) (d : Dart) : Prop :=
  0 < d.rxBufferBytes → ∀ c, lastByte hist = some c →
    (env.clock.milis + 2 ^ 32 - c.milis) % 2 ^ 32 < dartByteTimerVal

/-- The time handler leaves an expired frame behind, unless the last byte is recent. -/
theorem stalled_iff {B : Build} {hist : List PastCall} {d : Dart} (h : RxTimed hist d)
    (env : Env) : ¬ (dartCall B env d .time).Stalled env ↔ Prompt hist env d := by
  have htime : Emits d (dartCall B env d .time) := emits_time B env d
  unfold Dart.Stalled
  rw [htime.rxBufferBytes, htime.rxByteTimer, not_and]
  refine imp_congr_right fun hbytes => ?_
  obtain ⟨c, hc, htimer⟩ := h hbytes
  have hvalue : timerValue (timerStart c timerMs dartByteTimerVal) env.clock =
      (env.clock.milis + 2 ^ 32 - c.milis) % 2 ^ 32 := by
    simp [timerValue, timerStart, timerTstamp, timerMs, timerSec, timerChrono]
  have hinterval : (timerStart c timerMs dartByteTimerVal).interval = dartByteTimerVal := rfl
  rw [htimer, timerExpired, hinterval, if_neg (by decide), hvalue, hc]
  constructor
  · intro hlate c' hc'
    cases hc'
    by_contra hnot
    exact hlate (if_neg hnot)
  · intro hprompt hlate
    rw [if_pos (hprompt c rfl)] at hlate
    cases hlate

/-- **Stalled frames.** In a run no return of the time handler leaves a frame with an
expired byte timer in the receive buffer, exactly if the time handler is never called
`DART_BYTE_TIMER_VAL` or more after the last byte of an incomplete frame. -/
theorem dart_stalled_frames {B : Build} {n : Nat} {x : Dart × List PastCall}
    (hx : (dartSystem B n).recorded.Reachable x) :
    Each (fun _ (call : PastCall) =>
        call.2.2 = .time → ¬ (dartCall B call.2.1 call.1 .time).Stalled call.2.1) x.2 ↔
      Each (fun hist (call : PastCall) =>
        call.2.2 = .time → Prompt hist call.2.1 call.1) x.2 := by
  obtain ⟨-, hpast⟩ := dart_rxTimed B n x hx
  constructor
  · intro hrun hist call rest hsplit htime
    exact (stalled_iff (hpast hist call rest hsplit) _).mp (hrun hist call rest hsplit htime)
  · intro hrun hist call rest hsplit htime
    exact (stalled_iff (hpast hist call rest hsplit) _).mpr (hrun hist call rest hsplit htime)

/-- A sync byte at time 7, the time handler at time 36. -/
theorem dart_stalled_frames_prompt :
    let B : Build := ⟨.one, .one, .one⟩
    let d := dartCall B (.plain 7 false) (dartFresh 512 64) (.receive dartSync)
    ¬ (dartCall B (.plain 36 false) d .time).Stalled (.plain 36 false) := by
  intro B d
  let hist : List PastCall :=
    [(dartFresh 512 64, .plain 7 false, .receive dartSync), (d, .plain 36 false, .time)]
  have hfresh : (dartSystem B 512).recorded.Reachable (dartFresh 512 64, []) :=
    .init ⟨dartFresh_initial (by decide : 512 < 2 ^ 16) (by decide : 64 < 2 ^ 16), rfl⟩
  have hsync : (dartSystem B 512).recorded.Reachable (d, hist.take 1) :=
    .step (i := (Env.plain 7 false, DartCall.receive dartSync)) hfresh ⟨⟨trivial, rfl⟩, rfl⟩
  have hrun : (dartSystem B 512).recorded.Reachable (dartCall B (.plain 36 false) d .time, hist) :=
    .step (i := (Env.plain 36 false, DartCall.time)) hsync ⟨⟨trivial, rfl⟩, rfl⟩
  refine (dart_stalled_frames hrun).mpr ?_ (hist.take 1) (d, .plain 36 false, .time) [] rfl rfl
  refine each_cons (fun h => by cases h) (each_cons ?_ (each_nil _))
  intro _ _ c hc
  cases hc
  decide

/-- An interrupted frame: a sync byte at time 7 and then nothing. The time handler at time
1007 leaves it in the receive buffer. -/
theorem dart_frame_stalls :
    ¬ ∀ (B : Build) (n : Nat) (d : Dart) (env : Env), (dartSystem B n).Reachable d →
      ¬ (dartCall B env d .time).Stalled env := by
  intro hclaim
  let B : Build := ⟨.one, .one, .one⟩
  have hsync : (dartSystem B 512).Reachable
      (dartCall B (.plain 7 false) (dartFresh 512 64) (.receive dartSync)) :=
    dartSystem_call _ _ (dartFresh_reachable B (by decide) (by decide)) trivial
  exact hclaim B 512 _ (.plain 1007 false) hsync (by decide +kernel)

/-- While no byte comes, an interrupted frame keeps the link busy: whatever is called, the
endpoint is never idle. -/
theorem stalled_not_idle {B : Build} {d : Dart} {calls : List (Env × DartCall)}
    (hbytes : 0 < d.rxBufferBytes) (hcalls : ∀ c ∈ calls, ∀ ch, c.2 ≠ .receive ch) :
    dartIsIdle B (dartCalls B d calls) = false := by
  have hkept : (dartCalls B d calls).rxBufferBytes = d.rxBufferBytes := by
    induction calls generalizing d with
    | nil => rfl
    | cons c calls ih =>
        have hstep : Emits d (dartCall B c.1 d c.2) := by
          obtain ⟨env, call⟩ := c
          cases call with
          | send prio msg msgLen => exact (sends_send B env d prio msg msgLen).toEmits
          | receive ch => exact absurd rfl (hcalls _ List.mem_cons_self ch)
          | time => exact emits_time B env d
        refine (ih (hstep.rxBufferBytes ▸ hbytes) fun c' hc' => ?_).trans hstep.rxBufferBytes
        exact hcalls c' (List.mem_cons_of_mem _ hc')
  have hreceiving : dartIsReceiving (dartCalls B d calls) = true :=
    decide_eq_true (hkept ▸ Nat.ne_of_gt hbytes)
  unfold dartIsIdle
  rw [hreceiving, Bool.or_true]
  rfl

end EmbeddedMx
