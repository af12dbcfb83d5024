import EmbeddedMx.Dart.Watch

/-!
# The course of a call

A call starts at most one transfer, and that is the last thing it does
(`Proceeds`). Only the time handler lowers the WRK pin, and then it has started
nothing (`Lowers`).
-/

namespace EmbeddedMx

open EmbeddedMx.Lib

/-- Everything but accepting a message, starting a transfer, repeating one of
`NULL`, and lowering the WRK pin. -/
def Event.minor : Event → Bool
  | .accept _ _ => false
  | .start _ => false
  | .retry m => m.ptr ≠ 0
  | .pin false => false
  | _ => true

theorem Uarts.minor {evs : List Event} (h : Uarts evs) : ∀ ev ∈ evs, ev.minor = true := by
  intro ev hev
  obtain ⟨bytes, rfl⟩ := h ev hev
  rfl

/-- `evs` is what starting the transfer that is on has left in the log, or nothing. -/
def Dart.Launched (B : Build) (d : Dart) (evs : List Event) : Prop :=
  evs = [] ∨ ∃ i uarts, Uarts uarts ∧
    evs = .start (d.msgAt B (msgListPeek (d.queue i))) :: uarts ∧
    d.transfering = some i ∧ dartFindNextMessageQueue B d = some i

/-- From `d` to `d'` minor things happened, and then perhaps a transfer was
started. -/
def Proceeds (B : Build) (d d' : Dart) : Prop :=
  ∃ evs launch, d'.log = d.log ++ evs ++ launch ∧ (∀ ev ∈ evs, ev.minor = true) ∧
    d'.Launched B launch

namespace Proceeds

variable {B : Build} {d d' d'' : Dart}

theorem minor {evs : List Event} (hlog : d'.log = d.log ++ evs)
    (hevs : ∀ ev ∈ evs, ev.minor = true) : Proceeds B d d' :=
  ⟨evs, [], by rw [hlog, List.append_nil], hevs, .inl rfl⟩

theorem same (hlog : d'.log = d.log) : Proceeds B d d' :=
  ⟨[], [], by rw [hlog, List.append_nil, List.append_nil], by simp, .inl rfl⟩

theorem emit (d : Dart) {ev : Event} (hev : ev.minor = true) : Proceeds B d (d.emit ev) :=
  .minor rfl (by simpa using hev)

/-- Minor things first. -/
theorem after {evs : List Event} (h : Proceeds B d' d'') (hlog : d'.log = d.log ++ evs)
    (hevs : ∀ ev ∈ evs, ev.minor = true) : Proceeds B d d'' := by
  obtain ⟨evs', launch, hlog', hevs', hlaunch⟩ := h
  refine ⟨evs ++ evs', launch, by rw [hlog', hlog]; simp only [List.append_assoc], ?_, hlaunch⟩
  intro ev hev
  rcases List.mem_append.mp hev with hev | hev
  · exact hevs ev hev
  · exact hevs' ev hev

theorem after_emit {ev : Event} (h : Proceeds B (d.emit ev) d') (hev : ev.minor = true) :
    Proceeds B d d' := h.after rfl (by simpa using hev)

theorem after_same (h : Proceeds B d' d'') (hlog : d'.log = d.log) : Proceeds B d d'' := by
  obtain ⟨evs, launch, hlog', hrest⟩ := h
  exact ⟨evs, launch, by rw [hlog', hlog], hrest⟩

/-- Afterwards only fields change that do not matter for a transfer. -/
theorem congr (h : Proceeds B d d') (hsame : SameStore d' d'') (hlog : d''.log = d'.log) :
    Proceeds B d d'' := by
  obtain ⟨evs, launch, hlog', hevs, hlaunch⟩ := h
  refine ⟨evs, launch, hlog.trans hlog', hevs, ?_⟩
  have hfind : dartFindNextMessageQueue B d'' = dartFindNextMessageQueue B d' :=
    dartFindNextMessageQueue_congr B hsame.queue hsame.heap hsame.pendingRequest
  unfold Dart.Launched Dart.msgAt
  rw [hsame.queue, hsame.heap, hsame.transfering, hfind]
  exact hlaunch

/-- Without a transfer nothing was started. -/
theorem of_idle (h : Proceeds B d d') (hidle : d'.transfering = none) :
    ∃ evs, d'.log = d.log ++ evs ∧ ∀ ev ∈ evs, ev.minor = true := by
  obtain ⟨evs, launch, hlog, hevs, rfl | ⟨i, _, _, _, hi, _⟩⟩ := h
  · exact ⟨evs, by rw [hlog, List.append_nil], hevs⟩
  · exact absurd (hi.symm.trans hidle) (Option.some_ne_none i)

end Proceeds

section Functions

variable (B : Build) (env : Env) (d : Dart)

/-- `dart_trigger_transfer` -/
theorem proceeds_trigger : Proceeds B d (dartTriggerTransfer B env d).1 := by
  have hwoken : ∀ {d'}, Woken env d d' →
      ∃ evs, d'.log = d.log ++ evs ∧ ∀ ev ∈ evs, ev.minor = true := by
    intro d' h
    obtain ⟨evs, hlog, hevs⟩ := h.log
    refine ⟨evs, hlog, fun ev hev => ?_⟩
    rw [hevs ev hev]
    rfl
  have houtcome := triggerOutcome B env d
  generalize dartTriggerTransfer B env d = r at houtcome ⊢
  cases houtcome with
  | busy _ => exact .same rfl
  | impossible _ _ _ => exact .minor rfl (by simp [Event.minor])
  | waiting _ h _ =>
      obtain ⟨evs, hlog, hevs⟩ := hwoken h
      exact (Proceeds.emit _ rfl).after hlog hevs
  | nothing _ h _ _ =>
      obtain ⟨evs, hlog, hevs⟩ := hwoken h
      exact .minor hlog hevs
  | @started d' i uarts _ h _ hfind huarts =>
      obtain ⟨evs, hlog, hevs⟩ := hwoken h
      refine ⟨evs, _ :: uarts, ?_, hevs, .inr ⟨i, uarts, huarts, rfl, rfl, ?_⟩⟩
      · rw [← hlog]
        rfl
      · rw [← h.find B] at hfind
        rw [← hfind]
        exact dartFindNextMessageQueue_congr B rfl rfl rfl

/-- `dart_trigger_next_transfer` -/
theorem proceeds_triggerNext : Proceeds B d (dartTriggerNextTransfer B env d) := by
  unfold dartTriggerNextTransfer
  dsimp only
  split
  · rename_i hidle
    have hproceeds := proceeds_trigger B env d
    have houtcome := triggerOutcome B env d
    generalize dartTriggerTransfer B env d = r at houtcome hproceeds hidle ⊢
    cases houtcome with
    | @nothing d' hnone hwoken _ _ =>
        have hnone' : d'.transfering = none := by rw [hwoken.eq]; exact hnone
        obtain ⟨evs, hlog, hevs⟩ := hproceeds.of_idle hnone'
        exact (Proceeds.emit d' rfl).after hlog hevs
    | busy _ => cases hidle.2
    | impossible _ _ _ => cases hidle.2
    | waiting _ _ _ => cases hidle.2
    | started _ _ _ _ _ => cases hidle.2
  · exact proceeds_trigger B env d

theorem dartFinalizeTransfer_log : (dartFinalizeTransfer d).log = d.log := by
  unfold dartFinalizeTransfer
  split
  · rfl
  · dsimp only
    split <;> rfl

/-- A message is over, and the next one is due. -/
theorem proceeds_finalize : Proceeds B d (dartTriggerNextTransfer B env (dartFinalizeTransfer d)) :=
  (proceeds_triggerNext B env _).after_same (dartFinalizeTransfer_log d)

/-- `dart_retry_transfer` -/
theorem proceeds_retry : Proceeds B d (dartRetryTransfer B env d) := by
  unfold dartRetryTransfer
  split
  · exact .same rfl
  · dsimp only
    split
    · exact .same rfl
    · rename_i i _ hnull
      split
      · generalize hd₁ : Dart.emit _ _ = d₁
        obtain ⟨evs, hevs, htransfer⟩ := dartTransferMsg_eq B env d₁ (msgListPeek (d.queue i))
        rw [htransfer]
        have hsend : Proceeds B d₁ (d₁.transferred env evs) := .minor rfl hevs.minor
        rw [← hd₁] at hsend ⊢
        exact (hsend.after_emit (decide_eq_true hnull)).after_same rfl
      · exact ((proceeds_finalize B env _).after_emit rfl).after_same rfl

/-- `dart_acknowledge_msg` -/
theorem proceeds_acknowledge : Proceeds B d (dartAcknowledgeMsg B env d) := by
  unfold dartAcknowledgeMsg
  split
  · exact .same rfl
  · dsimp only
    split
    · exact .same rfl
    · split
      · refine (proceeds_finalize B env _).after rfl ?_
        simp [Event.minor]
      · refine (proceeds_finalize B env _).after rfl ?_
        simp [Event.minor]

/-- `dart_finalize_request_msg` -/
theorem proceeds_finalizeRequest : Proceeds B d (dartFinalizeRequestMsg B env d) :=
  (proceeds_triggerNext B env _).after_same rfl

/-- `dart_abandon_request_msg` -/
theorem proceeds_abandon : Proceeds B d (dartAbandonRequestMsg B env d) := by
  unfold dartAbandonRequestMsg
  split
  · exact (proceeds_finalizeRequest B env _).after_emit rfl
  · exact .same rfl

/-! ## Receiving and sending -/

theorem proceeds_control (ch : UInt8) : Proceeds B d (dartHandleControl B env d ch) := by
  unfold dartHandleControl
  split
  · exact (proceeds_acknowledge B env _).after_emit rfl
  · split
    · exact (proceeds_retry B env _).after_emit rfl
    · split
      · exact (proceeds_trigger B env _).after_emit rfl
      · exact .same rfl

theorem proceeds_checkResponse (type msgLen : Nat) :
    Proceeds B d (dartCheckResponse B env d type msgLen) := by
  unfold dartCheckResponse
  dsimp only
  split
  · exact .same rfl
  · split
    · exact .same rfl
    · split
      · exact .same rfl
      · exact (proceeds_finalizeRequest B env _).after_emit rfl

theorem proceeds_frame (dataLen : Nat) : Proceeds B d (dartHandleFrame B env d dataLen) := by
  unfold dartHandleFrame
  dsimp only
  split
  · exact (Proceeds.emit _ rfl).after_emit rfl
  · unfold dartHandleReceivedMsg
    dsimp only
    refine (proceeds_checkResponse B env _ _ _).after (d := d) (List.append_assoc d.log _ _) ?_
    simp [Event.minor]

/-- `dart_handle_received_char` -/
theorem proceeds_received (ch : UInt8) : Proceeds B d (dartHandleReceivedChar B env d ch) := by
  have hstart : ∃ evs, (dartRxStore env (dartRxTimeout env d) ch).log = d.log ++ evs ∧
      ∀ ev ∈ evs, ev.minor = true := by
    unfold dartRxTimeout
    split
    · exact ⟨[.callback .transferIncomplete .null 0], rfl, by simp [Event.minor]⟩
    · exact ⟨[], (List.append_nil _).symm, by simp⟩
  obtain ⟨evs, hlog, hevs⟩ := hstart
  unfold dartHandleReceivedChar
  generalize dartRxStore env (dartRxTimeout env d) ch = d₁ at hlog
  refine Proceeds.after ?_ hlog hevs
  have hdrop : ∀ d₂, Proceeds B d₁ d₂ → Proceeds B d₁ (dartRxDrop d₂) :=
    fun d₂ h => h.congr (dartRxDrop_same d₂) rfl
  dsimp only
  split
  · split
    · split
      · exact .same rfl
      · exact .minor rfl (by simp [Event.minor])
    · refine hdrop _ ?_
      split
      · exact proceeds_control B env d₁ ch
      · exact .same rfl
  · split
    · exact .same rfl
    · split
      · exact hdrop _ (.emit d₁ rfl)
      · split
        · exact .same rfl
        · exact hdrop _ (proceeds_frame B env d₁ _)

/-- `d'` is `d`, perhaps with a message just accepted. -/
def Enters (d d' : Dart) : Prop := d' = d ∨ ∃ prio m, d' = d.emit (.accept prio m)

/-- `dart_send_msg_ex` -/
theorem proceeds_send (prio : Nat) (msg : Mem) (msgLen : Nat) :
    ∃ d₁, Enters d d₁ ∧ Proceeds B d₁ (dartSendMsgEx B env d prio msg msgLen).1 := by
  unfold dartSendMsgEx
  split
  · exact ⟨d, .inl rfl, .same rfl⟩
  · dsimp only
    generalize (if prio = dartMsgPrioAny then
      dartGuessPriority B (msg.load 0 B.msgtypeSize.bytes) else prio) = prio
    split
    · exact ⟨d, .inl rfl, .same rfl⟩
    · split
      · exact ⟨d, .inl rfl, .same rfl⟩
      · exact ⟨d.emit _, .inr ⟨_, _, rfl⟩, (proceeds_trigger B env _).after_same rfl⟩

/-! ## Time -/

/-- Triggering that starts nothing leaves the closing timer alone, and the wakeup
timer unless it has just been started. -/
theorem triggerNext_idle (hidle : (dartTriggerNextTransfer B env d).transfering = none) :
    d.transfering = none ∧ (dartTriggerNextTransfer B env d).closingTimer = d.closingTimer ∧
      ((dartTriggerNextTransfer B env d).wakeupTimer = d.wakeupTimer ∨
        timerExpired (dartTriggerNextTransfer B env d).wakeupTimer env.clock = false) := by
  have hwoken : ∀ {d'}, Woken env d d' → d'.closingTimer = d.closingTimer ∧
      (d'.wakeupTimer = d.wakeupTimer ∨ timerExpired d'.wakeupTimer env.clock = false) := by
    intro d' h
    cases h with
    | high _ => exact ⟨rfl, .inl rfl⟩
    | raised _ _ =>
        refine ⟨rfl, ?_⟩
        dsimp only
        split
        · exact .inl rfl
        · exact .inr (timerExpired_start env.clock timerMs (by decide))
  have htrigger : (dartTriggerTransfer B env d).1.transfering = none →
      d.transfering = none ∧ (dartTriggerTransfer B env d).1.closingTimer = d.closingTimer ∧
        ((dartTriggerTransfer B env d).1.wakeupTimer = d.wakeupTimer ∨
          timerExpired (dartTriggerTransfer B env d).1.wakeupTimer env.clock = false) := by
    intro hnone
    have houtcome := triggerOutcome B env d
    generalize dartTriggerTransfer B env d = r at houtcome hnone ⊢
    cases houtcome with
    | busy _ => exact ⟨hnone, rfl, .inl rfl⟩
    | impossible hfree _ _ => exact ⟨hfree, rfl, .inl rfl⟩
    | @waiting d' hfree h _ =>
        have hd' := hwoken h
        exact ⟨hfree, hd'⟩
    | nothing hfree h _ _ => exact ⟨hfree, hwoken h⟩
    | started _ _ _ _ _ => cases hnone
  unfold dartTriggerNextTransfer at hidle ⊢
  dsimp only at hidle ⊢
  split at hidle
  · rename_i hcomplete
    rw [if_pos hcomplete]
    exact htrigger hidle
  · rename_i hcomplete
    rw [if_neg hcomplete]
    exact htrigger hidle

/-- Nothing can be sent and nothing is pending: nothing is queued. -/
theorem not_queued_of_find (hfind : dartFindNextMessageQueue B d = none)
    (hpending : d.pendingRequest = 0) : ¬ d.Queued := by
  rintro ⟨i, hi⟩
  have hskip := List.find?_eq_none.mp hfind i (mem_prios i)
  dsimp only at hskip
  rw [if_pos hi] at hskip
  simp [hpending] at hskip

/-- The time handler lowers the WRK pin: there is no transfer, and the link is
closing or the peer did not wake up. -/
structure Lowers (B : Build) (env : Env) (d d' : Dart) : Prop where
  log : ∃ evs, d'.log = d.log ++ evs ++ [.pin false] ∧ ∀ ev ∈ evs, ev.minor = true
  before : d.transfering = none
  after : d'.transfering = none
  cause : (¬ d'.Queued ∧ d'.pendingRequest = 0 ∧ d'.rxBufferBytes = 0 ∧
      timerExpired d.closingTimer env.clock = true) ∨
    ((dartFindNextMessageQueue B d').isSome ∧ timerExpired d.wakeupTimer env.clock = true)

theorem proceeds_closing (hidle : d.transfering = none) (hrx : d.rxBufferBytes = 0)
    (hpending : d.pendingRequest = 0) (hqueued : ¬ d.Queued) :
    Proceeds B d (dartHandleClosing env d).1 ∨ Lowers B env d (dartHandleClosing env d).1 := by
  unfold dartHandleClosing
  split
  · split
    · split
      · rename_i hexpired
        exact .inr ⟨⟨[], by simp [Dart.setWrk], by simp⟩, hidle, hidle,
          .inl ⟨hqueued, hpending, hrx, hexpired⟩⟩
      · exact .inl (.same rfl)
    · exact .inl (.same rfl)
  · split
    · split
      · dsimp only
        split
        · exact .inl (.same rfl)
        · exact .inl (.minor rfl (by simp [Event.minor]))
      · exact .inl (.same rfl)
    · split
      · exact .inl (.minor rfl (by simp [Event.minor]))
      · exact .inl (.same rfl)

/-- The response timer of a pending request has expired. -/
def Dart.Overdue (d : Dart) (env : Env) : Prop :=
  d.pendingRequest ≠ 0 ∧ timerExpired d.txResponseTimer env.clock

/-- `dart_handle_time` when no request is overdue. -/
theorem proceeds_rest (hdue : ¬ d.Overdue env) :
    Proceeds B d (dartHandleTime B env d).1 ∨ Lowers B env d (dartHandleTime B env d).1 := by
  unfold dartHandleTime
  unfold Dart.Overdue at hdue
  rw [if_neg hdue]
  dsimp only
  split
  · split
    · split
      · exact .inl ((proceeds_retry B env _).after_same rfl)
      · exact .inl (.minor rfl (by simp [Event.minor]))
    · exact .inl (.same rfl)
  · rename_i hbusy
    have hidle : d.transfering = none := by simpa using hbusy
    split
    · rename_i hfind
      split
      · rename_i hexpired
        exact .inr ⟨⟨[], by simp [Dart.setWrk], by simp⟩, hidle, hidle, .inr ⟨hfind, hexpired⟩⟩
      · exact .inl (proceeds_trigger B env d)
    · rename_i hfind
      split
      · rename_i hquiet
        have hnone : dartFindNextMessageQueue B d = none := by simpa using hfind
        exact proceeds_closing B env d hidle hquiet.2 hquiet.1
          (not_queued_of_find B d hnone hquiet.1)
      · exact .inl (.same rfl)

theorem dartTriggerNextTransfer_pendingRequest :
    (dartTriggerNextTransfer B env d).pendingRequest = d.pendingRequest := by
  obtain ⟨-, -, -, htrigger⟩ := trigger_events B env d
  unfold dartTriggerNextTransfer
  dsimp only
  split <;> exact htrigger

theorem dartAbandonRequestMsg_pendingRequest :
    (dartAbandonRequestMsg B env d).pendingRequest = 0 := by
  unfold dartAbandonRequestMsg
  split
  · exact dartTriggerNextTransfer_pendingRequest B env _
  · rename_i hnone
    exact not_not.mp hnone

/-- An overdue request is given up first; the rest is as if it had never been
pending. -/
theorem dartHandleTime_overdue (hdue : d.Overdue env) :
    dartHandleTime B env d = dartHandleTime B env (dartAbandonRequestMsg B env d) ∧
      ¬ (dartAbandonRequestMsg B env d).Overdue env := by
  have hfree : ¬ (dartAbandonRequestMsg B env d).Overdue env :=
    fun h => h.1 (dartAbandonRequestMsg_pendingRequest B env d)
  refine ⟨?_, hfree⟩
  unfold Dart.Overdue at hdue hfree
  conv_lhs => rw [dartHandleTime, if_pos hdue]
  conv_rhs => rw [dartHandleTime, if_neg hfree]

/-- With the ACK timer running on, a transfer stays as it is. -/
theorem dartHandleTime_busy (hdue : ¬ d.Overdue env) (hbusy : d.transfering.isSome)
    (hrunning : timerExpired d.txAckTimer env.clock = false) : (dartHandleTime B env d).1 = d := by
  unfold Dart.Overdue at hdue
  unfold dartHandleTime
  rw [if_neg hdue]
  dsimp only
  rw [if_pos hbusy, hrunning]
  rfl

/-- Giving up a request without starting a transfer. -/
theorem abandon_idle (hpending : d.pendingRequest ≠ 0)
    (hidle : (dartAbandonRequestMsg B env d).transfering = none) :
    d.transfering = none ∧ (dartAbandonRequestMsg B env d).closingTimer = d.closingTimer ∧
      ((dartAbandonRequestMsg B env d).wakeupTimer = d.wakeupTimer ∨
        timerExpired (dartAbandonRequestMsg B env d).wakeupTimer env.clock = false) := by
  unfold dartAbandonRequestMsg at hidle ⊢
  rw [if_pos hpending] at hidle ⊢
  exact triggerNext_idle B env _ hidle

/-- Giving up a request during a transfer. -/
theorem abandon_during (hpending : d.pendingRequest ≠ 0) (hbusy : d.transfering.isSome) :
    (dartAbandonRequestMsg B env d).log = d.log ++
      [.callback .messageAbandoned (.stored (d.msgAt B d.pendingRequest))
        (nodeLength d.heap.mem d.pendingRequest)] := by
  have hnext : ∀ {d₁ : Dart}, d₁.transfering.isSome →
      (dartTriggerNextTransfer B env d₁).log = d₁.log :=
    fun h => congrArg Dart.log (dartTriggerNextTransfer_busy B env _ h)
  unfold dartAbandonRequestMsg
  rw [if_pos hpending]
  exact Eq.trans (hnext hbusy) rfl

/-- The ACK timer of a transfer that giving up a request has started. -/
theorem abandon_started (hidle : d.transfering = none)
    (hbusy : (dartAbandonRequestMsg B env d).transfering.isSome) :
    timerExpired (dartAbandonRequestMsg B env d).txAckTimer env.clock = false := by
  rcases dartAbandonRequestMsg_ack B env d with ⟨hsame, _⟩ | hfresh
  · rw [hsame, hidle] at hbusy
    cases hbusy
  · exact hfresh

/-- What lowers the WRK pin after a request was given up would have done so
before. -/
theorem Lowers.after_abandon {B : Build} {env : Env} {d d' : Dart} (hpending : d.pendingRequest ≠ 0)
    (h : Lowers B env (dartAbandonRequestMsg B env d) d') : Lowers B env d d' := by
  obtain ⟨hidle, hclosing, hwakeup⟩ := abandon_idle B env d hpending h.before
  obtain ⟨evs, hlog, hevs⟩ := (proceeds_abandon B env d).of_idle h.before
  obtain ⟨evs', hlog', hevs'⟩ := h.log
  refine ⟨⟨evs ++ evs', ?_, ?_⟩, hidle, h.after, ?_⟩
  · rw [hlog', hlog]
    simp only [List.append_assoc]
  · intro ev hev
    rcases List.mem_append.mp hev with hev | hev
    · exact hevs ev hev
    · exact hevs' ev hev
  · rcases h.cause with ⟨hqueued, hnone, hrx, hexpired⟩ | ⟨hfind, hexpired⟩
    · rw [hclosing] at hexpired
      exact .inl ⟨hqueued, hnone, hrx, hexpired⟩
    · rcases hwakeup with hsame | hfresh
      · rw [hsame] at hexpired
        exact .inr ⟨hfind, hexpired⟩
      · rw [hfresh] at hexpired
        cases hexpired

/-- `dart_handle_time` -/
theorem proceeds_time :
    Proceeds B d (dartHandleTime B env d).1 ∨ Lowers B env d (dartHandleTime B env d).1 := by
  by_cases hdue : d.Overdue env
  · obtain ⟨heq, hfree⟩ := dartHandleTime_overdue B env d hdue
    rw [heq]
    have habandon := proceeds_abandon B env d
    have hrest := proceeds_rest B env (dartAbandonRequestMsg B env d) hfree
    by_cases hbefore : d.transfering.isSome
    · have hlog := abandon_during B env d hdue.1 hbefore
      rcases hrest with hproceeds | hlowers
      · exact .inl (hproceeds.after hlog (by simp [Event.minor]))
      · exact .inr (hlowers.after_abandon hdue.1)
    · have hidle : d.transfering = none := by simpa using hbefore
      by_cases hbusy : (dartAbandonRequestMsg B env d).transfering.isSome
      · -- the transfer was started just now
        have hrunning : timerExpired (dartAbandonRequestMsg B env d).txAckTimer env.clock = false :=
          abandon_started B env d hidle hbusy
        rw [dartHandleTime_busy B env _ hfree hbusy hrunning]
        exact .inl habandon
      · obtain ⟨evs, hlog, hevs⟩ := habandon.of_idle (by simpa using hbusy)
        rcases hrest with hproceeds | hlowers
        · exact .inl (hproceeds.after hlog hevs)
        · exact .inr (hlowers.after_abandon hdue.1)
  · exact proceeds_rest B env d hdue

end Functions

/-- Every call of an endpoint. -/
theorem proceeds_call (B : Build) (env : Env) (d : Dart) (call : DartCall) :
    (∃ d₁, Enters d d₁ ∧ Proceeds B d₁ (dartCall B env d call)) ∨
      Lowers B env d (dartCall B env d call) := by
  cases call with
  | send prio msg msgLen => exact .inl (proceeds_send B env d prio msg msgLen)
  | receive ch => exact .inl ⟨d, .inl rfl, proceeds_received B env d ch⟩
  | time =>
      rcases proceeds_time B env d with hproceeds | hlowers
      · exact .inl ⟨d, .inl rfl, hproceeds⟩
      · exact .inr hlowers

theorem Enters.log {d d₁ : Dart} (h : Enters d d₁) :
    ∃ evs, d₁.log = d.log ++ evs ∧ ∀ ev ∈ evs, ∃ prio m, ev = .accept prio m := by
  rcases h with rfl | ⟨prio, m, rfl⟩
  · exact ⟨[], (List.append_nil _).symm, by simp⟩
  · exact ⟨[.accept prio m], rfl, fun ev hev => ⟨prio, m, List.mem_singleton.mp hev⟩⟩

/-- The new events of a call that does not lower the WRK pin. -/
theorem Proceeds.log {B : Build} {d d' : Dart} (h : Proceeds B d d') :
    ∃ evs, d'.log = d.log ++ evs ∧ ∀ ev ∈ evs, ev.minor = true ∨
      ∃ i, ev = .start (d'.msgAt B (msgListPeek (d'.queue i))) ∧ d'.transfering = some i := by
  obtain ⟨evs, launch, hlog, hevs, hlaunch⟩ := h
  refine ⟨evs ++ launch, by rw [hlog, List.append_assoc], ?_⟩
  intro ev hev
  rcases List.mem_append.mp hev with hev | hev
  · exact .inl (hevs ev hev)
  · rcases hlaunch with rfl | ⟨i, uarts, huarts, rfl, hi, -⟩
    · cases hev
    · rcases List.mem_cons.mp hev with hev | hev
      · exact .inr ⟨i, hev, hi⟩
      · exact .inl (huarts.minor ev hev)

end EmbeddedMx
