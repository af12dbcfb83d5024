import EmbeddedMx.Dart.Model

/-!
# What an endpoint sends by itself

The receiver shows what it has understood by single bytes, by the callbacks for
received, corrupted and incomplete messages, and by taking control bytes
(`Event.ofReceiver`). Nothing the endpoint does by itself, or in consequence of
what it received, looks like that or touches the receive buffer (`Emits`). Apart
from the time handler nothing lowers the WRK pin (`Sends`).

All of this holds in every state, whatever the memory contains.
-/

namespace EmbeddedMx

open EmbeddedMx.Lib

/-- Events by which the receiver shows what it has understood. -/
def Event.ofReceiver : Event → Bool
  | .uart bytes => bytes.length = 1
  | .callback .messageReceived _ _ => true
  | .callback .transferCorrupted _ _ => true
  | .callback .transferIncomplete _ _ => true
  | .control _ => true
  | _ => false

theorem ofReceiver_frame (B : Build) (data : List UInt8) :
    (Event.uart (dartFrame B data)).ofReceiver = false := by
  have hlen : B.lenSize.bytes ≠ 0 := by
    cases B.lenSize <;> decide
  simp only [Event.ofReceiver, length_dartFrame, Build.frameBytes, Build.lenBytes,
    decide_eq_false_iff_not]
  omega

/-- From `d` to `d'` nothing was emitted that comes from the receiver; while a
transfer is on the WRK pin is high. -/
structure Emits (d d' : Dart) : Prop where
  log : ∃ evs, d'.log = d.log ++ evs ∧ ∀ ev ∈ evs, ev.ofReceiver = false
  rxBuffer : d'.rxBuffer = d.rxBuffer
  rxBufferSize : d'.rxBufferSize = d.rxBufferSize
  rxBufferBytes : d'.rxBufferBytes = d.rxBufferBytes
  rxByteTimer : d'.rxByteTimer = d.rxByteTimer
  busy : (d.transfering.isSome → d.wrk) → d'.transfering.isSome → d'.wrk

theorem Emits.trans {d d' d'' : Dart} (h : Emits d d') (h' : Emits d' d'') : Emits d d'' where
  log := by
    obtain ⟨evs, hlog, hevs⟩ := h.log
    obtain ⟨evs', hlog', hevs'⟩ := h'.log
    refine ⟨evs ++ evs', by rw [hlog', hlog, List.append_assoc], ?_⟩
    intro ev hev
    rcases List.mem_append.mp hev with hev | hev
    · exact hevs ev hev
    · exact hevs' ev hev
  rxBuffer := h'.rxBuffer.trans h.rxBuffer
  rxBufferSize := h'.rxBufferSize.trans h.rxBufferSize
  rxBufferBytes := h'.rxBufferBytes.trans h.rxBufferBytes
  rxByteTimer := h'.rxByteTimer.trans h.rxByteTimer
  busy := fun hbusy => h'.busy (h.busy hbusy)

/-- Events of the receiver were there before. -/
theorem Emits.mem_log {d d' : Dart} (h : Emits d d') {ev : Event} (hev : ev.ofReceiver = true)
    (hmem : ev ∈ d'.log) : ev ∈ d.log := by
  obtain ⟨evs, hlog, hevs⟩ := h.log
  rw [hlog] at hmem
  rcases List.mem_append.mp hmem with hmem | hmem
  · exact hmem
  · rw [hevs ev hmem] at hev
    cases hev

/-- What is left of an event list once the events of the receiver are taken out
is nothing. -/
theorem filter_ofReceiver_eq_nil {evs : List Event} (h : ∀ ev ∈ evs, ev.ofReceiver = false) :
    evs.filter Event.ofReceiver = [] := by
  rw [List.filter_eq_nil_iff]
  intro ev hev
  rw [h ev hev]
  exact Bool.false_ne_true

/-- As `Emits`, and the WRK pin was not lowered. -/
structure Sends (d d' : Dart) : Prop extends Emits d d' where
  wrk : d.wrk → d'.wrk

namespace Sends

variable {d d' d'' : Dart}

theorem trans (h : Sends d d') (h' : Sends d' d'') : Sends d d'' :=
  ⟨h.toEmits.trans h'.toEmits, fun hwrk => h'.wrk (h.wrk hwrk)⟩

/-- Only fields change that have nothing to do with the line. -/
theorem same (hlog : d'.log = d.log) (hrx : (d'.rxBuffer, d'.rxBufferSize, d'.rxBufferBytes,
      d'.rxByteTimer) = (d.rxBuffer, d.rxBufferSize, d.rxBufferBytes, d.rxByteTimer))
    (hwrk : d'.wrk = d.wrk) (hbusy : d'.transfering.isSome → d.transfering.isSome) :
    Sends d d' where
  log := ⟨[], by rw [hlog, List.append_nil], by simp⟩
  rxBuffer := congrArg (fun r => r.1) hrx
  rxBufferSize := congrArg (fun r => r.2.1) hrx
  rxBufferBytes := congrArg (fun r => r.2.2.1) hrx
  rxByteTimer := congrArg (fun r => r.2.2.2) hrx
  busy := fun h hsome => hwrk ▸ h (hbusy hsome)
  wrk := fun h => hwrk ▸ h

theorem refl (d : Dart) : Sends d d := .same rfl rfl rfl id

theorem emit (d : Dart) {ev : Event} (hev : ev.ofReceiver = false) : Sends d (d.emit ev) where
  log := ⟨[ev], rfl, by simpa using hev⟩
  rxBuffer := rfl
  rxBufferSize := rfl
  rxBufferBytes := rfl
  rxByteTimer := rfl
  busy := id
  wrk := id

theorem setWrk (d : Dart) : Sends d (d.setWrk true) where
  log := ⟨[.pin true], rfl, by simp [Event.ofReceiver]⟩
  rxBuffer := rfl
  rxBufferSize := rfl
  rxBufferBytes := rfl
  rxByteTimer := rfl
  busy := fun _ _ => rfl
  wrk := fun _ => rfl

end Sends

section Functions

variable (B : Build) (env : Env) (d : Dart)

theorem sends_pushFrames (msgs : List (List UInt8)) :
    Sends d (msgs.foldl (fun d data => dartPushFrame B d data) d) := by
  induction msgs generalizing d with
  | nil => exact .refl d
  | cons data msgs ih => exact (Sends.emit d (ofReceiver_frame B data)).trans (ih _)

theorem sends_transferMsg (p : Nat) : Sends d (dartTransferMsg B env d p) := by
  have hdeferred : Sends d (dartDeferredMsgCallback B env d p).1 := by
    unfold dartDeferredMsgCallback
    split
    · exact .refl d
    · exact sends_pushFrames B d _
  have hpush : ∀ d₁ : Dart, Sends d d₁ → Sends d
      (dartPushMsg B d₁ (p + offsetofMsg) (nodeLength d₁.heap.mem p)) :=
    fun d₁ h => h.trans (.emit d₁ (ofReceiver_frame B _))
  have htimer : ∀ d₁ : Dart, Sends d d₁ → Sends d
      { d₁ with txAckTimer := timerStart env.clock timerMs dartAckTimerVal } :=
    fun _ h => h.trans (.same rfl rfl rfl id)
  unfold dartTransferMsg
  dsimp only
  refine htimer _ ?_
  split
  · split
    · exact hdeferred
    · exact hpush _ hdeferred
  · exact hpush _ (.refl d)

/-- The first block of `dart_trigger_transfer` goes on only with the WRK pin
high. -/
theorem sends_wakeup : Sends d (dartWakeup env d).1 ∧
    ((dartWakeup env d).2 = true → (dartWakeup env d).1.wrk = true) := by
  unfold dartWakeup
  dsimp only
  split
  · rename_i hwrk
    exact ⟨.refl d, fun _ => hwrk⟩
  · split
    · have hcount : Sends d { d with wakeupAttempts := (d.wakeupAttempts + 1) % 256 } :=
        .same rfl rfl rfl id
      have hset := hcount.trans (.setWrk _)
      split
      · exact ⟨hset, fun _ => rfl⟩
      · exact ⟨hset.trans (.same rfl rfl rfl id), fun _ => rfl⟩
    · have hcount : Sends d { d with wakeupAttempts := 0 } := .same rfl rfl rfl id
      have hev : (Event.callback .transferImpossible .null 0).ofReceiver = false := rfl
      exact ⟨hcount.trans (.emit _ hev), fun h => by cases h⟩

theorem sends_select (hwrk : d.wrk = true) : Sends d (dartSelect B env d).1 := by
  unfold dartSelect
  split
  · exact .refl d
  · dsimp only
    refine Sends.trans ?_ (sends_transferMsg B env _ _)
    refine Sends.trans ?_ (.emit _ rfl)
    -- the pin is high already when the transfer starts
    exact ⟨⟨⟨[], (List.append_nil _).symm, by simp⟩, rfl, rfl, rfl, rfl, fun _ _ => hwrk⟩, id⟩

/-- `dart_trigger_transfer` -/
theorem sends_trigger : Sends d (dartTriggerTransfer B env d).1 := by
  obtain ⟨hwake, hwrk⟩ := sends_wakeup env d
  unfold dartTriggerTransfer
  dsimp only
  split
  · exact .refl d
  · split
    · rename_i hgo
      split
      · exact hwake.trans (sends_select B env _ (hwrk hgo))
      · exact hwake.trans (.emit _ rfl)
    · exact hwake

/-- `dart_trigger_next_transfer` -/
theorem sends_triggerNext : Sends d (dartTriggerNextTransfer B env d) := by
  unfold dartTriggerNextTransfer
  dsimp only
  split
  · exact (sends_trigger B env d).trans (.emit _ rfl)
  · exact sends_trigger B env d

theorem sends_finalize : Sends d (dartFinalizeTransfer d) := by
  unfold dartFinalizeTransfer
  split
  · exact .refl d
  · dsimp only
    split <;> exact .same rfl rfl rfl (fun h => by cases h)

/-- `dart_retry_transfer` -/
theorem sends_retry : Sends d (dartRetryTransfer B env d) := by
  unfold dartRetryTransfer
  split
  · exact .refl d
  · dsimp only
    split
    · exact .refl d
    · have hcount : Sends d
          { d with txAckTimer := timerStop, txAttempts := (d.txAttempts + 1) % 256 } :=
        .same rfl rfl rfl id
      refine hcount.trans ?_
      split
      · exact (Sends.emit _ rfl).trans (sends_transferMsg B env _ _)
      · exact (Sends.emit _ rfl).trans ((sends_finalize _).trans (sends_triggerNext B env _))

/-- `dart_acknowledge_msg` -/
theorem sends_acknowledge : Sends d (dartAcknowledgeMsg B env d) := by
  unfold dartAcknowledgeMsg
  split
  · exact .refl d
  · dsimp only
    split
    · exact .refl d
    · have hstop : Sends d { d with txAckTimer := timerStop } := .same rfl rfl rfl id
      refine hstop.trans ?_
      refine Sends.trans ?_ ((sends_finalize _).trans (sends_triggerNext B env _))
      split
      · exact Sends.trans (.emit _ rfl) (.same rfl rfl rfl fun h => by cases h)
      · exact .emit _ rfl

theorem sends_finalizeRequest : Sends d (dartFinalizeRequestMsg B env d) := by
  have hfree : Sends d
      { d with
        txResponseTimer := timerStop
        heap := cbaFree d.heap d.pendingRequest
        pendingRequest := 0 } := .same rfl rfl rfl id
  exact hfree.trans (sends_triggerNext B env _)

theorem sends_abandon : Sends d (dartAbandonRequestMsg B env d) := by
  unfold dartAbandonRequestMsg
  split
  · exact (Sends.emit d rfl).trans (sends_finalizeRequest B env _)
  · exact .refl d

theorem sends_checkResponse (type msgLen : Nat) :
    Sends d (dartCheckResponse B env d type msgLen) := by
  unfold dartCheckResponse
  dsimp only
  split
  · exact .refl d
  · split
    · exact .refl d
    · split
      · exact .refl d
      · exact (Sends.emit d rfl).trans (sends_finalizeRequest B env _)

/-- The control bytes, once they are taken. -/
theorem sends_control (ch : UInt8) :
    dartHandleControl B env d ch = d ∧ ch ≠ dartAck ∧ ch ≠ dartBad ∧ ch ≠ dartCan ∨
    Sends (d.emit (.control ch)) (dartHandleControl B env d ch) ∧
      (ch = dartAck ∨ ch = dartBad ∨ ch = dartCan) := by
  unfold dartHandleControl
  split
  · rename_i hack
    exact .inr ⟨sends_acknowledge B env _, .inl hack⟩
  · rename_i hack
    split
    · rename_i hbad
      exact .inr ⟨sends_retry B env _, .inr (.inl hbad)⟩
    · rename_i hbad
      split
      · rename_i hcan
        exact .inr ⟨sends_trigger B env _, .inr (.inr hcan)⟩
      · rename_i hcan
        exact .inl ⟨rfl, hack, hbad, hcan⟩

theorem sends_enqueue (prio : Nat) (heap : Heap) (p : Nat) (msg : Mem) (msgLen : Nat) :
    Sends d (dartEnqueue B d prio heap p msg msgLen) := by
  unfold dartEnqueue
  dsimp only
  generalize msgQueuePush d.queue _ prio p = r
  have hpush : Sends d { d with heap := { heap with mem := r.2.1 }, queue := r.1 } :=
    .same rfl rfl rfl id
  exact hpush.trans (.emit _ rfl)

/-- `dart_send_msg_ex` -/
theorem sends_send (prio : Nat) (msg : Mem) (msgLen : Nat) :
    Sends d (dartSendMsgEx B env d prio msg msgLen).1 := by
  unfold dartSendMsgEx
  split
  · exact .refl d
  · dsimp only
    generalize (if prio = dartMsgPrioAny then
      dartGuessPriority B (msg.load 0 B.msgtypeSize.bytes) else prio) = prio
    split
    · exact .refl d
    · split
      · exact .same rfl rfl rfl id
      · exact (sends_enqueue B d _ _ _ _ _).trans (sends_trigger B env _)

/-! ## Time -/

theorem emits_lower (hidle : d.transfering = none) : Emits d (d.setWrk false) :=
  ⟨⟨[.pin false], rfl, by simp [Event.ofReceiver]⟩, rfl, rfl, rfl, rfl, fun _ hbusy => by
    rw [show (d.setWrk false).transfering = none from hidle] at hbusy
    cases hbusy⟩

theorem emits_closing (hidle : d.transfering = none) : Emits d (dartHandleClosing env d).1 := by
  have htimer : ∀ timer, Sends d { d with closingTimer := timer } :=
    fun _ => .same rfl rfl rfl id
  unfold dartHandleClosing
  split
  · split
    · split
      · obtain ⟨hlog, -, -, -, -, hbusy⟩ := emits_lower d hidle
        exact ⟨hlog, rfl, rfl, rfl, rfl, hbusy⟩
      · exact (Sends.refl d).toEmits
    · exact (htimer _).toEmits
  · split
    · split
      · dsimp only
        split
        · exact (htimer _).toEmits
        · exact ((htimer timerStop).trans (.emit _ rfl)).toEmits
      · exact (Sends.refl d).toEmits
    · split
      · exact (Sends.setWrk d).toEmits
      · exact (Sends.refl d).toEmits

/-- `dart_handle_time` -/
theorem emits_time : Emits d (dartHandleTime B env d).1 := by
  have habandon : Emits d (if d.pendingRequest ≠ 0 ∧ timerExpired d.txResponseTimer env.clock then
      dartAbandonRequestMsg B env d else d) := by
    split
    · exact (sends_abandon B env d).toEmits
    · exact (Sends.refl d).toEmits
  unfold dartHandleTime
  refine habandon.trans ?_
  generalize (if d.pendingRequest ≠ 0 ∧ timerExpired d.txResponseTimer env.clock then
    dartAbandonRequestMsg B env d else d) = d₁
  dsimp only
  split
  · split
    · have hstop : Sends d₁ { d₁ with txAckTimer := timerStop } := .same rfl rfl rfl id
      split
      · exact (hstop.trans (sends_retry B env _)).toEmits
      · refine ⟨⟨[.abort], rfl, by simp [Event.ofReceiver]⟩, rfl, rfl, rfl, rfl, ?_⟩
        intro _ h
        cases h
    · exact (Sends.refl d₁).toEmits
  · rename_i hbusy
    have hidle : d₁.transfering = none := by simpa using hbusy
    split
    · have hstop : Sends d₁ { d₁ with wakeupTimer := timerStop } := .same rfl rfl rfl id
      split
      · exact hstop.toEmits.trans (emits_lower _ hidle)
      · exact (sends_trigger B env d₁).toEmits
    · split
      · exact emits_closing env d₁ hidle
      · exact (Sends.refl d₁).toEmits

end Functions

end EmbeddedMx
