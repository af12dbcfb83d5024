import EmbeddedMx.Dart.Sending

/-!
# When the end of all transfers is announced

A call that reports the fate of the last message should tell the outside that
there are no more of them. All paths end in `dart_trigger_next_transfer`, which
does so only if it gets to look at the queue: with the RDY pin low it returns
before that.
-/

namespace EmbeddedMx

open EmbeddedMx.Lib

/-- The callbacks for the fate of a message. -/
def Event.fate : Event → Bool
  | .callback .transferDone _ _ => true
  | .callback .transferFailure _ _ => true
  | .callback .messageAbandoned _ _ => true
  | _ => false

/-- `DART_CLBK_TRANSFER_COMPLETE` -/
def complete : Event := .callback .transferComplete .null 0

/-- What `dart_trigger_next_transfer` shows when there is nothing to transfer. -/
def farewell (env : Env) : Event :=
  if env.rdy then complete else .callback .waiting .null 0

/-- The end of all transfers is announced once, after the last fate. -/
def AnnouncedOnce (evs : List Event) : Prop :=
  ∃ pre post, evs = pre ++ complete :: post ∧ complete ∉ pre ∧ complete ∉ post ∧
    ∀ ev ∈ post, ev.fate = false

theorem AnnouncedOnce.mem {evs : List Event} (h : AnnouncedOnce evs) : complete ∈ evs := by
  obtain ⟨pre, post, rfl, -⟩ := h
  exact List.mem_append_right _ List.mem_cons_self

/-- No message is queued, in transfer or pending. -/
structure Dart.Settled (d : Dart) : Prop where
  queued : ¬ d.Queued
  transfering : d.transfering = none
  pending : d.pendingRequest = 0

/-- Events that neither report a fate nor announce the end. -/
def Event.Aside (ev : Event) : Prop := ev.fate = false ∧ ev ≠ complete

theorem Event.OfTrigger.aside {ev : Event} (h : ev.OfTrigger) : ev.Aside := by
  cases h <;> exact ⟨rfl, fun h => by cases h⟩

/-- From `d` to `d'` the farewell was shown behind all reports, or messages are
left. -/
def Announces (env : Env) (d d' : Dart) : Prop :=
  ¬ d'.Settled ∨ ∃ pre post, d'.log = d.log ++ pre ++ farewell env :: post ∧ complete ∉ pre ∧
    ∀ ev ∈ post, ev.Aside

/-- As `Announces`, or nothing was reported. -/
def Concludes (env : Env) (d d' : Dart) : Prop :=
  Announces env d d' ∨ ∃ evs, d'.log = d.log ++ evs ∧ ∀ ev ∈ evs, ev.Aside

section Announcing

variable {env : Env} {d d' d'' : Dart} {evs : List Event}

theorem aside_not_complete (h : ∀ ev ∈ evs, ev.Aside) : complete ∉ evs :=
  fun hmem => (h _ hmem).2 rfl

theorem Announces.after (h : Announces env d' d'') (hlog : d'.log = d.log ++ evs)
    (hevs : complete ∉ evs) : Announces env d d'' := by
  rcases h with hleft | ⟨pre, post, hlog', hpre, hpost⟩
  · exact .inl hleft
  · refine .inr ⟨evs ++ pre, post, ?_, ?_, hpost⟩
    · rw [hlog', hlog]
      simp only [List.append_assoc]
    · rw [List.mem_append, not_or]
      exact ⟨hevs, hpre⟩

theorem Announces.after_emit {ev : Event} (h : Announces env (d.emit ev) d') (hev : ev ≠ complete) :
    Announces env d d' := h.after rfl (by simpa using hev.symm)

theorem Concludes.after (h : Concludes env d' d'') (hlog : d'.log = d.log ++ evs)
    (hevs : ∀ ev ∈ evs, ev.Aside) : Concludes env d d'' := by
  rcases h with hannounces | ⟨evs', hlog', hevs'⟩
  · exact .inl (hannounces.after hlog (aside_not_complete hevs))
  · refine .inr ⟨evs ++ evs', by rw [hlog', hlog, List.append_assoc], ?_⟩
    intro ev hev
    rcases List.mem_append.mp hev with hev | hev
    · exact hevs ev hev
    · exact hevs' ev hev

theorem Concludes.same (hlog : d'.log = d.log) : Concludes env d d' :=
  .inr ⟨[], by rw [hlog, List.append_nil], by simp⟩

theorem Settled.congr (hsame : SameStore d d') (h : d'.Settled) : d.Settled := by
  refine ⟨?_, hsame.transfering ▸ h.transfering, hsame.pendingRequest ▸ h.pending⟩
  have hqueued := h.queued
  unfold Dart.Queued at hqueued ⊢
  rw [hsame.queue] at hqueued
  exact hqueued

theorem Concludes.congr (h : Concludes env d d') (hsame : SameStore d' d'')
    (hlog : d''.log = d'.log) : Concludes env d d'' := by
  unfold Concludes Announces at h ⊢
  rw [hlog]
  rcases h with (hleft | hannounced) | haside
  · exact .inl (.inl fun h => hleft (Settled.congr hsame h))
  · exact .inl (.inr hannounced)
  · exact .inr haside

end Announcing

/-! ## Triggering -/

section Functions

variable (B : Build) (env : Env) {d : Dart}

/-- With nothing to transfer the next trigger says farewell. -/
theorem triggerNext_farewell (hidle : d.transfering = none) (hwrk : d.wrk = true)
    (hqueued : ¬ d.Queued) (hpending : d.pendingRequest = 0) :
    dartTriggerNextTransfer B env d = d.emit (farewell env) := by
  have houtcome := triggerOutcome B env d
  unfold dartTriggerNextTransfer farewell
  generalize dartTriggerTransfer B env d = r at houtcome ⊢
  cases houtcome with
  | busy hbusy =>
      rw [hidle] at hbusy
      cases hbusy
  | impossible _ hlow _ =>
      rw [hwrk] at hlow
      cases hlow
  | waiting _ h hrdy =>
      cases h.of_high hwrk
      dsimp only
      rw [hrdy, if_neg fun h => by cases h.2]
      rfl
  | nothing _ h hrdy _ =>
      cases h.of_high hwrk
      dsimp only
      rw [hrdy, if_neg (not_not.mpr hpending), if_pos ⟨hpending, rfl⟩]
      rfl
  | started _ _ _ hfind _ => exact absurd ⟨_, find_queued hfind⟩ hqueued

theorem dartTriggerNextTransfer_queue (d : Dart) :
    (dartTriggerNextTransfer B env d).queue = d.queue := by
  obtain ⟨-, hqueue, -, -⟩ := trigger_events B env d
  unfold dartTriggerNextTransfer
  dsimp only
  split <;> exact hqueue

/-- The next trigger, on a link that is up or has messages left. -/
theorem announces_triggerNext (hup : d.wrk = true ∨ d.Queued) :
    Announces env d (dartTriggerNextTransfer B env d) := by
  by_cases hsettled : (dartTriggerNextTransfer B env d).Settled
  · have hqueued : ¬ d.Queued := by
      have hqueued := hsettled.queued
      unfold Dart.Queued at hqueued ⊢
      rw [dartTriggerNextTransfer_queue] at hqueued
      exact hqueued
    have hwrk : d.wrk = true := hup.resolve_right hqueued
    have hpending : d.pendingRequest = 0 := by
      rw [← dartTriggerNextTransfer_pendingRequest B env d]
      exact hsettled.pending
    have hidle := (triggerNext_idle B env d hsettled.transfering).1
    rw [triggerNext_farewell B env hidle hwrk hqueued hpending]
    exact .inr ⟨[], [], by simp, by simp, by simp⟩
  · exact .inl hsettled

theorem concludes_trigger (d : Dart) : Concludes env d (dartTriggerTransfer B env d).1 := by
  obtain ⟨⟨evs, hlog, hevs⟩, -⟩ := trigger_events B env d
  exact .inr ⟨evs, hlog, fun ev hev => (hevs ev hev).aside⟩

/-! ## Finishing messages -/

theorem dartFinalizeTransfer_wrk (d : Dart) : (dartFinalizeTransfer d).wrk = d.wrk := by
  unfold dartFinalizeTransfer
  split
  · rfl
  · dsimp only
    split <;> rfl

theorem dartFinalizeTransfer_pendingRequest (d : Dart) :
    (dartFinalizeTransfer d).pendingRequest = d.pendingRequest := by
  unfold dartFinalizeTransfer
  split
  · rfl
  · dsimp only
    split <;> rfl

/-- The message in transfer is over and was reported. -/
theorem announces_report {d₁ : Dart} {ev : Event} (hlog : d₁.log = d.log ++ [ev])
    (hev : ev ≠ complete) (hwrk : d₁.wrk = true) :
    Announces env d (dartTriggerNextTransfer B env (dartFinalizeTransfer d₁)) := by
  have hnext : Announces env (dartFinalizeTransfer d₁)
      (dartTriggerNextTransfer B env (dartFinalizeTransfer d₁)) :=
    announces_triggerNext B env (.inl ((dartFinalizeTransfer_wrk d₁).trans hwrk))
  refine hnext.after ((dartFinalizeTransfer_log d₁).trans hlog) ?_
  simpa using hev.symm

theorem not_settled_of_busy {i : Fin msgPrioLength} (hi : d.transfering = some i) :
    ¬ d.Settled := by
  intro h
  exact absurd (hi.symm.trans h.transfering) (Option.some_ne_none i)

/-- `dart_retry_transfer` during a transfer. -/
theorem announces_retry (hwrk : d.wrk = true) (hbusy : d.transfering.isSome) :
    Announces env d (dartRetryTransfer B env d) := by
  unfold dartRetryTransfer
  split
  · rename_i hidle
    rw [hidle] at hbusy
    cases hbusy
  · rename_i i hi
    dsimp only
    split
    · exact .inl (not_settled_of_busy hi)
    · split
      · generalize hd₁ : Dart.emit _ _ = d₁
        obtain ⟨evs, -, htransfer⟩ := dartTransferMsg_eq B env d₁ (msgListPeek (d.queue i))
        rw [htransfer, ← hd₁]
        exact .inl (not_settled_of_busy hi)
      · exact announces_report B env rfl (by simp [complete]) hwrk

/-- `dart_acknowledge_msg` -/
theorem concludes_acknowledge (hwatch : Watch d) :
    Concludes env d (dartAcknowledgeMsg B env d) := by
  unfold dartAcknowledgeMsg
  split
  · exact .same rfl
  · rename_i i hi
    have hhigh : d.wrk = true := hwatch.wrk (by rw [hi]; rfl)
    dsimp only
    split
    · exact .same rfl
    · rename_i hnull
      split
      · -- the request is pending now
        refine .inl (.inl fun h => ?_)
        have hpending := h.pending
        rw [dartTriggerNextTransfer_pendingRequest, dartFinalizeTransfer_pendingRequest] at hpending
        exact absurd hpending (pop_ne_null hnull)
      · exact .inl (announces_report B env rfl (by simp [complete]) hhigh)

/-! ## Pending requests -/

/-- The pending request is over and was reported. -/
theorem announces_finalizeRequest {ev : Event} (hev : ev ≠ complete)
    (hup : d.wrk = true ∨ d.Queued) :
    Announces env d (dartFinalizeRequestMsg B env (d.emit ev)) := by
  have hnext : ∀ {d₁ : Dart}, d₁.log = d.log ++ [ev] → d₁.wrk = true ∨ d₁.Queued →
      Announces env d (dartTriggerNextTransfer B env d₁) := by
    intro d₁ hlog hup₁
    exact (announces_triggerNext B env hup₁).after hlog (by simpa using hev.symm)
  exact hnext rfl hup

theorem announces_abandon (hwatch : Watch d) (hpending : d.pendingRequest ≠ 0) :
    Announces env d (dartAbandonRequestMsg B env d) := by
  unfold dartAbandonRequestMsg
  rw [if_pos hpending]
  exact announces_finalizeRequest B env (by simp [complete]) (hwatch.supervised hpending)

/-! ## Receiving -/

theorem concludes_control (hwatch : Watch d) (ch : UInt8) :
    Concludes env d (dartHandleControl B env d ch) := by
  have hemit : Watch (d.emit (.control ch)) := hwatch.emit rfl
  have haside : ∀ ev ∈ [Event.control ch], ev.Aside := by simp [Event.Aside, Event.fate, complete]
  unfold dartHandleControl
  split
  · exact (concludes_acknowledge B env hemit).after rfl haside
  · split
    · by_cases hbusy : d.transfering.isSome
      · have hretry : Announces env (d.emit (.control ch)) _ :=
          announces_retry B env (hwatch.wrk hbusy) hbusy
        exact .inl (hretry.after_emit (by simp [complete]))
      · have hidle : d.transfering = none := by simpa using hbusy
        have hsame : dartRetryTransfer B env (d.emit (.control ch)) = d.emit (.control ch) := by
          unfold dartRetryTransfer
          rw [show (d.emit (.control ch)).transfering = none from hidle]
        rw [hsame]
        exact .inr ⟨_, rfl, haside⟩
    · split
      · exact (concludes_trigger B env _).after rfl haside
      · exact .same rfl

theorem concludes_frame (hwatch : Watch d) (dataLen : Nat) :
    Concludes env d (dartHandleFrame B env d dataLen) := by
  have hcheck : ∀ {d₁ : Dart}, Watch d₁ → ∀ type len,
      Concludes env d₁ (dartCheckResponse B env d₁ type len) := by
    intro d₁ h₁ type len
    unfold dartCheckResponse
    dsimp only
    split
    · exact .same rfl
    · rename_i hpending
      split
      · exact .same rfl
      · split
        · exact .same rfl
        · exact .inl (announces_finalizeRequest B env (by simp [complete]) (h₁.supervised hpending))
  unfold dartHandleFrame
  dsimp only
  split
  · exact .inr ⟨[_, _], List.append_assoc d.log _ _, by simp [Event.Aside, Event.fate, complete]⟩
  · unfold dartHandleReceivedMsg
    dsimp only
    refine Concludes.after (hcheck ?_ _ _) (List.append_assoc d.log _ _) ?_
    · exact hwatch.congr rfl rfl (by
        refine (congrArg lastSent (List.append_assoc d.log _ _)).trans (lastSent_append ?_)
        simp [Event.sent])
    · simp [Event.Aside, Event.fate, complete]

/-- `dart_handle_received_char` -/
theorem concludes_received (hwatch : Watch d) (ch : UInt8) :
    Concludes env d (dartHandleReceivedChar B env d ch) := by
  have hstart : ∃ evs, (dartRxStore env (dartRxTimeout env d) ch).log = d.log ++ evs ∧
      ∀ ev ∈ evs, ev.Aside := by
    unfold dartRxTimeout
    split
    · exact ⟨[.callback .transferIncomplete .null 0], rfl,
        by simp [Event.Aside, Event.fate, complete]⟩
    · exact ⟨[], (List.append_nil _).symm, by simp⟩
  have hwatch₁ := (watch_receiving B env).store hwatch ch
  obtain ⟨evs, hlog, hevs⟩ := hstart
  unfold dartHandleReceivedChar
  generalize dartRxStore env (dartRxTimeout env d) ch = d₁ at hlog hwatch₁
  refine Concludes.after ?_ hlog hevs
  have hdrop : ∀ d₂, Concludes env d₁ d₂ → Concludes env d₁ (dartRxDrop d₂) :=
    fun d₂ h => h.congr (dartRxDrop_same d₂) rfl
  dsimp only
  split
  · split
    · split
      · exact .same rfl
      · exact .inr ⟨[.pin true], rfl, by simp [Event.Aside, Event.fate, complete]⟩
    · refine hdrop _ ?_
      split
      · exact concludes_control B env hwatch₁ ch
      · exact .same rfl
  · split
    · exact .same rfl
    · split
      · exact hdrop _ (.inr ⟨[_], rfl, by simp [Event.Aside, Event.fate, complete]⟩)
      · split
        · exact .same rfl
        · exact hdrop _ (concludes_frame B env hwatch₁ _)

/-! ## Time -/

/-- `dart_handle_time` during a transfer, when no request is overdue. -/
theorem announces_rest (hwatch : Watch d) (hdue : ¬ d.Overdue env) (hbusy : d.transfering.isSome) :
    Announces env d (dartHandleTime B env d).1 := by
  obtain ⟨i, hi⟩ := Option.isSome_iff_exists.mp hbusy
  unfold Dart.Overdue at hdue
  unfold dartHandleTime
  rw [if_neg hdue]
  dsimp only
  rw [if_pos hbusy]
  split
  · split
    · have hretry : ∀ {d₁ : Dart}, d₁.log = d.log → d₁.wrk = d.wrk →
          d₁.transfering = d.transfering →
          Announces env d (dartRetryTransfer B env d₁) := by
        intro d₁ hlog hwrk htransfering
        refine Announces.after ?_ (by rw [hlog, List.append_nil]) (by simp : complete ∉ [])
        refine announces_retry B env ?_ ?_
        · rw [hwrk]
          exact hwatch.wrk hbusy
        · rw [htransfering]
          exact hbusy
      exact hretry rfl rfl rfl
    · -- the message stays queued
      exact .inl fun h => h.queued ⟨i, (hwatch.current i hi).1⟩
  · exact .inl (not_settled_of_busy hi)

theorem closing_aside (env : Env) (d : Dart) :
    (∃ evs, (dartHandleClosing env d).1.log = d.log ++ evs ∧ ∀ ev ∈ evs, ev.Aside) ∧
      (dartHandleClosing env d).1.queue = d.queue := by
  have hnone : ∃ evs, d.log = d.log ++ evs ∧ ∀ ev ∈ evs, ev.Aside :=
    ⟨[], (List.append_nil _).symm, by simp⟩
  have hone : ∀ ev : Event, ev.Aside → ∃ evs, d.log ++ [ev] = d.log ++ evs ∧ ∀ ev ∈ evs, ev.Aside :=
    fun ev hev => ⟨[ev], rfl, by simpa using hev⟩
  unfold dartHandleClosing
  split
  · split
    · split
      · exact ⟨hone (.pin false) (by simp [Event.Aside, Event.fate, complete]), rfl⟩
      · exact ⟨hnone, rfl⟩
    · exact ⟨hnone, rfl⟩
  · split
    · split
      · dsimp only
        split
        · exact ⟨hnone, rfl⟩
        · exact ⟨hone (.callback .idle .null 0) (by simp [Event.Aside, Event.fate, complete]), rfl⟩
      · exact ⟨hnone, rfl⟩
    · split
      · exact ⟨hone (.pin true) (by simp [Event.Aside, Event.fate, complete]), rfl⟩
      · exact ⟨hnone, rfl⟩

/-- `dart_handle_time` without a transfer, when no request is overdue. -/
theorem rest_aside (hdue : ¬ d.Overdue env) (hidle : d.transfering = none) :
    (∃ evs, (dartHandleTime B env d).1.log = d.log ++ evs ∧ ∀ ev ∈ evs, ev.Aside) ∧
      (dartHandleTime B env d).1.queue = d.queue := by
  unfold Dart.Overdue at hdue
  unfold dartHandleTime
  rw [if_neg hdue]
  dsimp only
  rw [hidle]
  simp only [Option.isSome_none, Bool.false_eq_true, if_false]
  split
  · split
    · exact ⟨⟨[.pin false], rfl, by simp [Event.Aside, Event.fate, complete]⟩, rfl⟩
    · obtain ⟨⟨evs, hlog, hevs⟩, hqueue, -⟩ := trigger_events B env d
      exact ⟨⟨evs, hlog, fun ev hev => (hevs ev hev).aside⟩, hqueue⟩
  · split
    · exact closing_aside env d
    · exact ⟨⟨[], (List.append_nil _).symm, by simp⟩, rfl⟩

/-- `dart_handle_time` -/
theorem concludes_time (hwatch : Watch d) : Concludes env d (dartHandleTime B env d).1 := by
  by_cases hdue : d.Overdue env
  · obtain ⟨heq, hfree⟩ := dartHandleTime_overdue B env d hdue
    rw [heq]
    have hwatch₁ := watch_abandon B env hwatch
    by_cases hbusy : (dartAbandonRequestMsg B env d).transfering.isSome
    · by_cases hbefore : d.transfering.isSome
      · have hlog := abandon_during B env d hdue.1 hbefore
        exact .inl ((announces_rest B env hwatch₁ hfree hbusy).after hlog (by simp [complete]))
      · -- the transfer was started just now
        obtain ⟨i, hi⟩ := Option.isSome_iff_exists.mp hbusy
        have hrunning : timerExpired (dartAbandonRequestMsg B env d).txAckTimer env.clock = false :=
          abandon_started B env d (by simpa using hbefore) hbusy
        rw [dartHandleTime_busy B env _ hfree hbusy hrunning]
        exact .inl (.inl (not_settled_of_busy hi))
    · have hidle : (dartAbandonRequestMsg B env d).transfering = none := by simpa using hbusy
      obtain ⟨⟨evs, hlog, hevs⟩, hqueue⟩ := rest_aside B env hfree hidle
      rcases announces_abandon B env hwatch hdue.1 with hleft | ⟨pre, post, hlog', hpre, hpost⟩
      · refine .inl (.inl fun h => hleft ⟨?_, hidle, dartAbandonRequestMsg_pendingRequest B env d⟩)
        have hqueued := h.queued
        unfold Dart.Queued at hqueued ⊢
        rw [hqueue] at hqueued
        exact hqueued
      · refine .inl (.inr ⟨pre, post ++ evs, ?_, hpre, ?_⟩)
        · rw [hlog, hlog']
          simp only [List.append_assoc, List.cons_append]
        · intro ev hev
          rcases List.mem_append.mp hev with hev | hev
          · exact hpost ev hev
          · exact hevs ev hev
  · by_cases hbusy : d.transfering.isSome
    · exact .inl (announces_rest B env hwatch hdue hbusy)
    · exact .inr (rest_aside B env hdue (by simpa using hbusy)).1

/-! ## Calls -/

/-- An accepted message is still there when the call returns. -/
theorem concludes_send (d : Dart) (prio : Nat) (msg : Mem) (msgLen : Nat) (hlen : msgLen < 2 ^ 16) :
    Concludes env d (dartSendMsgEx B env d prio msg msgLen).1 := by
  by_cases haccepts : d.Accepts B prio msg msgLen
  · rw [send_accepted B env d prio msg msgLen haccepts]
    refine .inl (.inl fun h => h.queued ?_)
    obtain ⟨i, p, mem, -, -, -, -, hqueue, -⟩ :=
      (accepted_once B d prio msg msgLen haccepts hlen).trigger env
    refine ⟨i, ?_⟩
    rw [hqueue, Function.update_self]
    exact Nat.succ_pos _
  · rw [(send_refused B env d prio msg msgLen haccepts).1]
    exact .same rfl

theorem concludes_call {call : DartCall} (hwatch : Watch d) (hvalid : call.Valid B) :
    Concludes env d (dartCall B env d call) := by
  cases call with
  | send prio msg msgLen => exact concludes_send B env d prio msg msgLen (lt_of_lenSize hvalid)
  | receive ch => exact concludes_received B env hwatch ch
  | time => exact concludes_time B env hwatch

end Functions

/-- **When completion is announced.** In every run, if a call reports the fate of a
message and leaves no message queued, in transfer or pending, then it announces
the end of all transfers, once and after the last report, exactly if the RDY pin
is high. -/
theorem dart_completion_announced (B : Build) (n : Nat) : (dartSystem B n).Invariant fun d =>
    ∀ env call evs, call.Valid B → (dartCall B env d call).log = d.log ++ evs →
      (∃ ev ∈ evs, ev.fate = true) → (dartCall B env d call).Settled →
      (AnnouncedOnce evs ↔ env.rdy = true) := by
  rintro d hd env call evs hvalid hlog ⟨ev, hev, hfate⟩ hsettled
  rcases concludes_call B env (dart_watch B n d hd) hvalid with
    (hleft | ⟨pre, post, hlog', hpre, hpost⟩) | ⟨evs', hlog', haside⟩
  · exact absurd hsettled hleft
  · have hevs : evs = pre ++ farewell env :: post := by
      rw [hlog', List.append_assoc] at hlog
      exact (List.append_cancel_left hlog).symm
    have hrest : complete ∉ post := aside_not_complete hpost
    cases hrdy : env.rdy with
    | true =>
        refine ⟨fun _ => rfl, fun _ => ⟨pre, post, ?_, hpre, hrest, fun ev hev => (hpost ev hev).1⟩⟩
        rw [hevs, farewell, hrdy]
        rfl
    | false =>
        refine ⟨fun honce => ?_, fun h => by cases h⟩
        have hmem := honce.mem
        rw [hevs, farewell, hrdy] at hmem
        rcases List.mem_append.mp hmem with hmem | hmem
        · exact absurd hmem hpre
        · rcases List.mem_cons.mp hmem with hmem | hmem
          · cases hmem
          · exact absurd hmem hrest
  · rw [hlog'] at hlog
    rw [← List.append_cancel_left hlog] at hev
    rw [(haside ev hev).1] at hfate
    cases hfate

theorem dart_settled_iff {d : Dart} : d.Settled ↔
    (∀ i, msgListLength (d.queue i) = 0) ∧ d.transfering = none ∧ d.pendingRequest = 0 := by
  constructor
  · intro h
    refine ⟨fun i => ?_, h.transfering, h.pending⟩
    by_contra hlen
    exact h.queued ⟨i, Nat.pos_of_ne_zero hlen⟩
  · rintro ⟨hlen, hidle, hpending⟩
    refine ⟨?_, hidle, hpending⟩
    rintro ⟨i, hi⟩
    rw [hlen i] at hi
    exact Nat.lt_irrefl 0 hi

instance (d : Dart) : Decidable d.Settled := decidable_of_iff _ dart_settled_iff.symm

/-- A report, acknowledged while the peer is ready. -/
theorem dart_completion_announced_report :
    let B : Build := ⟨.one, .one, .one⟩
    let d := dartCall B (.plain 7 true) (dartFresh 512 64) (.send 1 (fun _ => 0x11) 1)
    ∃ evs, (dartCall B (.plain 8 true) d (.receive dartAck)).log = d.log ++ evs ∧
      AnnouncedOnce evs := by
  intro B d
  have hsent : (dartSystem B 512).Reachable d :=
    dartSystem_call (.plain 7 true) (.send 1 (fun _ => 0x11) 1)
      (dartFresh_reachable B (by decide : 512 < 2 ^ 16) (by decide : 64 < 2 ^ 16))
      (by decide : 1 < 256)
  let evs : List Event := [.control dartAck,
    .callback .transferDone (.stored ⟨20, 0x11, [0x11]⟩) 1, .callback .transferComplete .null 0]
  have hlog : (dartCall B (.plain 8 true) d (.receive dartAck)).log = d.log ++ evs := by
    decide +kernel
  have hfate : ∃ ev ∈ evs, ev.fate = true := by decide
  have hsettled : (dartCall B (.plain 8 true) d (.receive dartAck)).Settled := by decide +kernel
  exact ⟨evs, hlog, (dart_completion_announced B 512 d hsent (.plain 8 true) (.receive dartAck) evs
    trivial hlog hfate hsettled).mpr rfl⟩

/-- The same report, but the peer has lowered RDY when its acknowledge arrives. -/
theorem dart_completion_announced_fails :
    let B : Build := ⟨.one, .one, .one⟩
    let d := dartCall B (.plain 7 true) (dartFresh 512 64) (.send 1 (fun _ => 0x11) 1)
    let d' := dartCall B (.plain 8 false) d (.receive dartAck)
    let evs : List Event := [.control dartAck,
      .callback .transferDone (.stored ⟨20, 0x11, [0x11]⟩) 1, .callback .waiting .null 0]
    (dartSystem B 512).Reachable d ∧ d'.log = d.log ++ evs ∧ (∃ ev ∈ evs, ev.fate = true) ∧
      d'.Settled ∧ ¬ AnnouncedOnce evs := by
  intro B d d' evs
  refine ⟨dartSystem_call _ _ (dartFresh_reachable B (by decide) (by decide)) (by decide : 1 < 256),
    by decide +kernel, by decide, by decide +kernel, fun honce => ?_⟩
  exact absurd honce.mem (by decide)

end EmbeddedMx
