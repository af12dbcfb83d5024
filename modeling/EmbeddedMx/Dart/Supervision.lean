import EmbeddedMx.Dart.Course

/-!
# Nothing hangs without a timer

What the timers and the WRK pin guarantee between calls: a transfer and a pending
request have their timers running, the link is up while a message is in transfer,
and it is lowered for two reasons only. Waiting for the peer is the exception: the
wakeup timer is started together with the WRK pin and stopped by every transfer, so
a peer that goes away later is waited for without a timer.
-/

namespace EmbeddedMx

open EmbeddedMx.Lib

/-! ## Transfers and requests -/

/-- The runs in which `dart_transfer_msg` is never given `NULL`. -/
def definedSystem (B : Build) (n : Nat) : TSys Dart (Env × DartCall) :=
  (dartSystem B n).restrict fun d i =>
    ∀ ev ∈ (dartCall B i.1 d i.2).log, ∀ m, ev.sent = some m → m.ptr ≠ 0

/-- The calls of a represented endpoint transfer existing messages. -/
theorem call_defined {B : Build} {n : Nat} {env : Env} {d : Dart} {e' : Engine} {call : DartCall}
    (hrep : DartRep B n (dartCall B env d call) e')
    (hd : ∀ ev ∈ d.log, ∀ m, ev.sent = some m → m.ptr ≠ 0) :
    ∀ ev ∈ (dartCall B env d call).log, ∀ m, ev.sent = some m → m.ptr ≠ 0 := by
  have hminor : ∀ {ev : Event}, ev.minor = true → ∀ m, ev.sent = some m → m.ptr ≠ 0 := by
    intro ev hev m hsent
    cases ev with
    | start _ => cases hev
    | retry m' =>
        cases hsent
        exact of_decide_eq_true hev
    | _ => cases hsent
  intro ev hev m hsent
  rcases proceeds_call B env d call with ⟨d₁, henters, hproceeds⟩ | hlowers
  · obtain ⟨pre, hpre, haccepts⟩ := henters.log
    obtain ⟨evs, hlog, hevs⟩ := hproceeds.log
    rw [hlog, hpre] at hev
    rcases List.mem_append.mp hev with hev | hev
    · rcases List.mem_append.mp hev with hev | hev
      · exact hd ev hev m hsent
      · obtain ⟨prio, m', rfl⟩ := haccepts ev hev
        cases hsent
    · rcases hevs ev hev with hev | ⟨i, rfl, hi⟩
      · exact hminor hev m hsent
      · cases hsent
        obtain ⟨m', ms, hcons⟩ := hrep.current (hrep.transfering.symm.trans hi)
        show msgListPeek _ ≠ 0
        rw [hrep.peek hcons]
        exact hrep.ptr_ne_zero (Engine.head_mem hcons)
  · obtain ⟨evs, hlog, hevs⟩ := hlowers.log
    rw [hlog] at hev
    rcases List.mem_append.mp hev with hev | hev
    · rcases List.mem_append.mp hev with hev | hev
      · exact hd ev hev m hsent
      · exact hminor (hevs ev hev) m hsent
    · cases List.mem_singleton.mp hev
      cases hsent

/-- The log never mentions a transfer of `NULL`. -/
theorem definedSystem_log (B : Build) (n : Nat) : (definedSystem B n).Invariant fun d =>
    ∀ ev ∈ d.log, ∀ m, ev.sent = some m → m.ptr ≠ 0 := by
  apply TSys.Inductive.invariant
  constructor
  · rintro d ⟨d₀, mpool, rxBuffer, rxBufferSize, -, -, -, rfl⟩ ev hev
    cases hev
  · rintro d i d' - ⟨hdefined, -, rfl⟩
    exact hdefined

/-- Runs that lose no bits of a length are defined. -/
theorem fittingSystem_defined {B : Build} {n : Nat} {d : Dart}
    (hd : (fittingSystem B n).Reachable d) :
    (definedSystem B n).Reachable d := by
  induction hd with
  | init hinit => exact .init hinit
  | step hreach hstep ih =>
      rename_i d i d'
      refine ih.step ⟨?_, hstep.2⟩
      obtain ⟨e', -, hrep⟩ := dart_refines_engine B n d' (hreach.step hstep)
      rw [hstep.2.2] at hrep
      exact call_defined hrep (definedSystem_log B n d ih)

/-- **Every transfer and every request is watched**: a message is in transfer
exactly while the ACK timer runs, a request is pending exactly while the response
timer runs, and the message in transfer is the first one of its list and the one
last sent. -/
theorem dart_transfers_watched {B : Build} {n : Nat} {d : Dart}
    (hd : (definedSystem B n).Reachable d) :
    (d.transfering.isSome ↔ timerRunning d.txAckTimer = true) ∧
    (d.pendingRequest ≠ 0 ↔ timerRunning d.txResponseTimer = true) ∧
    ∀ i, d.transfering = some i → 0 < msgListLength (d.queue i) ∧
      ∃ m, lastSent d.log = some m ∧ m.ptr = msgListPeek (d.queue i) := by
  have hwatch : Watch d := dart_watch B n d hd.of_restrict
  have hcurrent : ∀ i, d.transfering = some i → 0 < msgListLength (d.queue i) ∧
      ∃ m, lastSent d.log = some m ∧
        m.ptr = msgListPeek (d.queue i) ∧ timerRunning d.txAckTimer = true := by
    intro i hi
    obtain ⟨hlen, m, hm, hzero | hptr⟩ := hwatch.current i hi
    · have hlog := definedSystem_log B n d hd
      rcases lastSent_mem hm with hmem | hmem
      · exact absurd hzero (hlog _ hmem m rfl)
      · exact absurd hzero (hlog _ hmem m rfl)
    · exact ⟨hlen, m, hm, hptr⟩
  refine ⟨⟨?_, ?_⟩, hwatch.response, ?_⟩
  · intro hbusy
    obtain ⟨i, hi⟩ := Option.isSome_iff_exists.mp hbusy
    obtain ⟨-, m, -, -, hrunning⟩ := hcurrent i hi
    exact hrunning
  · intro hrunning
    by_contra hbusy
    have hstopped := hwatch.idle (by simpa using hbusy)
    rw [hrunning] at hstopped
    cases hstopped
  · intro i hi
    obtain ⟨hlen, m, hm, hptr, -⟩ := hcurrent i hi
    exact ⟨hlen, m, hm, hptr⟩

/-- A message sent while the peer is ready is in transfer. -/
theorem dart_transfers_watched_sent :
    let B : Build := ⟨.one, .one, .one⟩
    let d := dartCall B (.plain 7 true) (dartFresh 512 64) (.send 1 (fun _ => 0x11) 1)
    d.transfering.isSome ∧ timerRunning d.txAckTimer = true := by
  intro B d
  have hsent : (dartSystem B 512).Reachable d :=
    dartSystem_call (.plain 7 true) (.send 1 (fun _ => 0x11) 1)
      (dartFresh_reachable B (by decide : 512 < 2 ^ 16) (by decide : 64 < 2 ^ 16))
      (by decide : 1 < 256)
  have hwatched := dart_transfers_watched
    (fittingSystem_defined (dartSystem_fits rfl (by decide) hsent))
  have hbusy : d.transfering.isSome := by decide +kernel
  exact ⟨hbusy, hwatched.1.mp hbusy⟩

/-! ## The WRK pin -/

/-- While a message is in transfer a byte between frames is taken for a control
byte. -/
theorem control_taken {B : Build} {d : Dart} (env : Env) (hwrk : d.wrk = true)
    (hrx : (dartRxTimeout env d).rxBufferBytes = 0) {ch : UInt8} (hsync : ch ≠ dartSync) :
    dartHandleReceivedChar B env d ch =
      dartRxDrop (dartHandleControl B env (dartRxStore env (dartRxTimeout env d) ch) ch) := by
  have hone : (dartRxStore env (dartRxTimeout env d) ch).rxBufferBytes = 1 := by
    show u16 ((dartRxTimeout env d).rxBufferBytes + 1) = 1
    rw [hrx]
    rfl
  have hhigh : (dartRxStore env (dartRxTimeout env d) ch).wrk = true := by
    show (dartRxTimeout env d).wrk = true
    unfold dartRxTimeout
    split <;> exact hwrk
  unfold dartHandleReceivedChar
  dsimp only
  rw [if_pos hone, if_neg hsync, if_pos hhigh]

/-- **The link is never dropped under a transfer.** While a message is in transfer
the WRK pin is high, so a `DART_ACK` or `DART_BAD` between frames is always
handled. A call lowers the pin only without a transfer, and only if the link is
closing, or if a message could be sent and the peer has not woken up. -/
theorem dart_link_kept {B : Build} {n : Nat} {d : Dart} (hd : (dartSystem B n).Reachable d) :
    (d.transfering.isSome → d.wrk = true) ∧
    (∀ env, d.transfering.isSome → (dartRxTimeout env d).rxBufferBytes = 0 →
      (let d₁ := dartRxStore env (dartRxTimeout env d) dartAck
       dartHandleReceivedChar B env d dartAck =
         dartRxDrop (dartAcknowledgeMsg B env (d₁.emit (.control dartAck)))) ∧
      (let d₁ := dartRxStore env (dartRxTimeout env d) dartBad
       dartHandleReceivedChar B env d dartBad =
         dartRxDrop (dartRetryTransfer B env (d₁.emit (.control dartBad))))) ∧
    ∀ env call, (∃ evs, (dartCall B env d call).log = d.log ++ evs ∧ .pin false ∈ evs) →
      let d' := dartCall B env d call
      d.transfering = none ∧ d'.transfering = none ∧
      ((¬ d'.Queued ∧ d'.pendingRequest = 0 ∧ d'.rxBufferBytes = 0 ∧
          timerExpired d.closingTimer env.clock = true) ∨
        ((dartFindNextMessageQueue B d').isSome ∧
          timerExpired d.wakeupTimer env.clock = true)) := by
  have hwatch : Watch d := dart_watch B n d hd
  refine ⟨hwatch.wrk, ?_, ?_⟩
  · intro env hbusy hrx
    exact ⟨control_taken env (hwatch.wrk hbusy) hrx (by decide),
      control_taken env (hwatch.wrk hbusy) hrx (by decide)⟩
  · rintro env call ⟨evs, hlog, hpin⟩
    rcases proceeds_call B env d call with ⟨d₁, henters, hproceeds⟩ | hlowers
    · obtain ⟨pre, hpre, haccepts⟩ := henters.log
      obtain ⟨evs', hlog', hevs'⟩ := hproceeds.log
      rw [hlog', hpre, List.append_assoc] at hlog
      rw [← List.append_cancel_left hlog] at hpin
      rcases List.mem_append.mp hpin with hpin | hpin
      · obtain ⟨prio, m, heq⟩ := haccepts _ hpin
        cases heq
      · rcases hevs' _ hpin with hminor | ⟨i, heq, -⟩
        · cases hminor
        · cases heq
    · exact ⟨hlowers.before, hlowers.after, hlowers.cause⟩

/-- The peer never gets ready for a message: after the wakeup timer the pin is
lowered. -/
theorem dart_link_kept_spike :
    let B : Build := ⟨.one, .one, .one⟩
    let d := dartCall B (.plain 7 false) (dartFresh 512 64) (.send 1 (fun _ => 0x11) 1)
    d.wrk = true ∧ (dartCall B (.plain 507 false) d .time).wrk = false ∧
      timerExpired d.wakeupTimer ⟨507, 0, 0⟩ = true := by
  intro B d
  have hsent : (dartSystem B 512).Reachable d :=
    dartSystem_call (.plain 7 false) (.send 1 (fun _ => 0x11) 1)
      (dartFresh_reachable B (by decide : 512 < 2 ^ 16) (by decide : 64 < 2 ^ 16))
      (by decide : 1 < 256)
  have hlowered : (dartCall B (.plain 507 false) d .time).log = d.log ++ [.pin false] := by
    decide +kernel
  obtain ⟨-, -, hkept⟩ := dart_link_kept hsent
  obtain ⟨-, -, ⟨hqueued, -⟩ | ⟨-, hexpired⟩⟩ :=
    hkept (.plain 507 false) .time ⟨[.pin false], hlowered, List.mem_singleton_self _⟩
  · exact absurd ⟨⟨1, by decide⟩, by decide +kernel⟩ hqueued
  · exact ⟨by decide +kernel, by decide +kernel, hexpired⟩

/-! ## Waiting for the peer -/

/-- What the call returns, if it returns a status. -/
def DartCall.status (B : Build) (env : Env) (d : Dart) : DartCall → Option DartStatus
  | .send prio msg msgLen => some (dartSendMsgEx B env d prio msg msgLen).2
  | .receive _ => none
  | .time => some (dartHandleTime B env d).2

/-- The wakeup of the peer goes on: the WRK pin will be raised again, or the wakeup
timer runs. -/
def Dart.Waking (d : Dart) : Prop := d.wrk = false ∨ timerRunning d.wakeupTimer = true

instance (d : Dart) : Decidable d.Waking := inferInstanceAs (Decidable (_ ∨ _))

theorem Woken.waking_iff {env : Env} {d d' : Dart} (h : Woken env d d') : d'.Waking ↔ d.Waking := by
  cases hwrk : d.wrk with
  | true => rw [h.of_high hwrk]
  | false => exact ⟨fun _ => .inl hwrk, fun _ => .inr (h.running hwrk)⟩

/-- Triggering without starting a transfer does not change whether the wakeup goes
on. -/
theorem trigger_waking_iff (B : Build) (env : Env) {d : Dart}
    (hidle : (dartTriggerTransfer B env d).1.transfering = none) :
    (dartTriggerTransfer B env d).1.Waking ↔ d.Waking := by
  have houtcome := triggerOutcome B env d
  generalize dartTriggerTransfer B env d = r at houtcome hidle ⊢
  cases houtcome with
  | busy _ => exact .rfl
  | impossible _ _ _ => exact .rfl
  | waiting _ h _ => exact h.waking_iff
  | nothing _ h _ _ => exact h.waking_iff
  | started _ _ _ _ _ => cases hidle

theorem triggerNext_waking_iff (B : Build) (env : Env) {d : Dart}
    (hidle : (dartTriggerNextTransfer B env d).transfering = none) :
    (dartTriggerNextTransfer B env d).Waking ↔ d.Waking := by
  unfold dartTriggerNextTransfer at hidle ⊢
  dsimp only at hidle ⊢
  split at hidle
  · rename_i hcomplete
    rw [if_pos hcomplete]
    exact trigger_waking_iff B env hidle
  · rename_i hcomplete
    rw [if_neg hcomplete]
    exact trigger_waking_iff B env hidle

theorem abandon_waking_iff (B : Build) (env : Env) {d : Dart}
    (hidle : (dartAbandonRequestMsg B env d).transfering = none) :
    (dartAbandonRequestMsg B env d).Waking ↔ d.Waking := by
  unfold dartAbandonRequestMsg at hidle ⊢
  split at hidle
  · rename_i hpending
    rw [if_pos hpending]
    exact triggerNext_waking_iff B env hidle
  · rename_i hnone
    rw [if_neg hnone]

theorem trigger_waiting (B : Build) (env : Env) {d : Dart}
    (h : (dartTriggerTransfer B env d).2 = .waiting) :
    d.transfering = none ∧ (dartTriggerTransfer B env d).1.transfering = none := by
  have houtcome := triggerOutcome B env d
  generalize dartTriggerTransfer B env d = r at houtcome h ⊢
  cases houtcome with
  | @waiting d' hidle hwoken _ =>
      refine ⟨hidle, ?_⟩
      show d'.transfering = none
      rw [hwoken.eq]
      exact hidle
  | nothing _ _ _ _ =>
      dsimp only at h
      split at h <;> cases h
  | busy _ => cases h
  | impossible _ _ _ => cases h
  | started _ _ _ _ _ => cases h

theorem closing_status (env : Env) (d : Dart) : (dartHandleClosing env d).2 ≠ .waiting := by
  unfold dartHandleClosing
  dsimp only
  repeat' split
  all_goals exact fun h => by cases h

/-- `dart_handle_time` when no request is overdue. -/
theorem rest_waking_iff (B : Build) (env : Env) {d : Dart} (hdue : ¬ d.Overdue env)
    (h : (dartHandleTime B env d).2 = .waiting) :
    d.transfering = none ∧ ((dartHandleTime B env d).1.Waking ↔ d.Waking) := by
  unfold Dart.Overdue at hdue
  unfold dartHandleTime at h ⊢
  rw [if_neg hdue] at h ⊢
  dsimp only at h ⊢
  by_cases hbusy : d.transfering.isSome
  · rw [if_pos hbusy] at h
    split at h
    · split at h <;> cases h
    · cases h
  · rw [if_neg hbusy] at h ⊢
    refine ⟨by simpa using hbusy, ?_⟩
    by_cases hfind : (dartFindNextMessageQueue B d).isSome
    · rw [if_pos hfind] at h ⊢
      by_cases hexpired : timerExpired d.wakeupTimer env.clock = true
      · rw [if_pos hexpired]
        refine ⟨fun _ => .inr ?_, fun _ => .inl rfl⟩
        -- an expired timer is running
        unfold timerExpired at hexpired
        split at hexpired
        · cases hexpired
        · rename_i hinterval
          exact decide_eq_true hinterval
      · rw [if_neg hexpired] at h ⊢
        exact trigger_waking_iff B env (trigger_waiting B env h).2
    · rw [if_neg hfind] at h
      split at h
      · exact absurd h (closing_status env d)
      · cases h

/-- `dart_handle_time` -/
theorem time_waking_iff (B : Build) (env : Env) {d : Dart}
    (h : (dartHandleTime B env d).2 = .waiting) : (dartHandleTime B env d).1.Waking ↔ d.Waking := by
  by_cases hdue : d.Overdue env
  · obtain ⟨heq, hfree⟩ := dartHandleTime_overdue B env d hdue
    rw [heq] at h ⊢
    obtain ⟨hidle, hrest⟩ := rest_waking_iff B env hfree h
    exact hrest.trans (abandon_waking_iff B env hidle)
  · exact (rest_waking_iff B env hdue h).2

/-- `dart_send_msg_ex` -/
theorem send_waking_iff (B : Build) (env : Env) {d : Dart} (prio : Nat) (msg : Mem) (msgLen : Nat)
    (h : (dartSendMsgEx B env d prio msg msgLen).2 = .waiting) :
    (dartSendMsgEx B env d prio msg msgLen).1.Waking ↔ d.Waking := by
  unfold dartSendMsgEx at h ⊢
  split at h
  · cases h
  · rename_i hrunning
    rw [if_neg hrunning]
    dsimp only at h ⊢
    generalize (if prio = dartMsgPrioAny then
      dartGuessPriority B (msg.load 0 B.msgtypeSize.bytes) else prio) = prio at h ⊢
    split at h
    · cases h
    · rename_i hprio
      rw [if_neg hprio]
      split at h
      · cases h
      · rename_i hptr
        rw [if_neg hptr]
        exact trigger_waking_iff B env (trigger_waiting B env h).2

/-- **When waiting for the peer is supervised.** In every run, a call that returns
`DART_WAITING` leaves the WRK pin low or the wakeup timer running exactly if it
found it so. -/
theorem dart_waiting_supervised (B : Build) (n : Nat) : (dartSystem B n).Invariant fun d =>
    ∀ env call, call.status B env d = some .waiting →
      ((dartCall B env d call).Waking ↔ d.Waking) := by
  intro d _ env call hstatus
  cases call with
  | send prio msg msgLen => exact send_waking_iff B env prio msg msgLen (Option.some.inj hstatus)
  | receive ch => cases hstatus
  | time => exact time_waking_iff B env (Option.some.inj hstatus)

/-- The first message for a peer that is not ready. -/
theorem dart_waiting_supervised_first :
    let B : Build := ⟨.one, .one, .one⟩
    let d := dartFresh 512 64
    let call : DartCall := .send 1 (fun _ => 0x11) 1
    call.status B (.plain 7 false) d = some .waiting ∧
      (dartCall B (.plain 7 false) d call).Waking := by
  intro B d call
  have hstatus : call.status B (.plain 7 false) d = some .waiting := by decide +kernel
  have hreach := dartFresh_reachable B (by decide : 512 < 2 ^ 16) (by decide : 64 < 2 ^ 16)
  exact ⟨hstatus, (dart_waiting_supervised B 512 d hreach _ call hstatus).mpr (.inl rfl)⟩

/-- A message was transferred and acknowledged. Then the peer lowers RDY, and the
next message waits for it without a timer. -/
theorem dart_waiting_supervised_fails :
    let B : Build := ⟨.one, .one, .one⟩
    let d := dartCalls B (dartFresh 512 64)
      [(.plain 7 true, .send 1 (fun _ => 0x11) 1), (.plain 8 true, .receive dartAck)]
    let call : DartCall := .send 1 (fun _ => 0x12) 1
    (dartSystem B 512).Reachable d ∧ call.Valid B ∧
      call.status B (.plain 9 false) d = some .waiting ∧
      ¬ (dartCall B (.plain 9 false) d call).Waking := by
  intro B d call
  refine ⟨dartSystem_calls (dartFresh_reachable B (by decide) (by decide)) (by decide), by decide,
    by decide +kernel, by decide +kernel⟩

end EmbeddedMx
