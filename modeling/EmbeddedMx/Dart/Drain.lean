import Mathlib.Data.List.Chain
import EmbeddedMx.Dart.Reception
import EmbeddedMx.Dart.Stall
import EmbeddedMx.Dart.Work

/-!
# Every message comes to its end

An endpoint that is called often enough, with a peer that is ready whenever the time handler
looks, gets rid of its messages, whatever it receives, as long as no allocation loses bits: a transfer that is not acknowledged is
repeated and fails, a request that is not answered is abandoned, and after a message the next
one is started. Every call either leaves the transfers alone (`Calm`), or the log shows that it
has worked on a message; the work is bounded (`Engine.left`). The time handler waits for a
timer at most: the next time it finds the timer expired, if that is late enough.
-/

namespace EmbeddedMx

open EmbeddedMx.Lib

/-! ## Which timers there are -/

/-- A timer is left alone, stopped, or started for `interval`. -/
def Timer.Renewed (env : Env) (interval : Nat) (t t' : Timer) : Prop :=
  t' = t ∨ t' = timerStop ∨ t' = timerStart env.clock timerMs interval

/-- What a call does to the timers of a transfer and of a pending request. -/
structure Renews (env : Env) (d d' : Dart) : Prop where
  ack : Timer.Renewed env dartAckTimerVal d.txAckTimer d'.txAckTimer
  response : Timer.Renewed env dartResponseTimerVal d.txResponseTimer d'.txResponseTimer

theorem Timer.Renewed.trans {env : Env} {interval : Nat} {t t' t'' : Timer}
    (h : t.Renewed env interval t') (h' : t'.Renewed env interval t'') :
    t.Renewed env interval t'' := by
  rcases h' with rfl | h'
  · exact h
  · exact .inr h'

namespace Renews

variable {env : Env} {d d' d'' : Dart}

theorem trans (h : Renews env d d') (h' : Renews env d' d'') : Renews env d d'' :=
  ⟨h.ack.trans h'.ack, h.response.trans h'.response⟩

theorem same (hack : d'.txAckTimer = d.txAckTimer)
    (hresponse : d'.txResponseTimer = d.txResponseTimer) : Renews env d d' :=
  ⟨.inl hack, .inl hresponse⟩

theorem refl (d : Dart) : Renews env d d := .same rfl rfl

/-- The ACK timer is stopped. -/
theorem stopped (hack : d'.txAckTimer = timerStop)
    (hresponse : d'.txResponseTimer = d.txResponseTimer) : Renews env d d' :=
  ⟨.inr (.inl hack), .inl hresponse⟩

end Renews

section Functions

variable (B : Build) (env : Env) (d : Dart)

theorem renews_transferred (evs : List Event) : Renews env d (d.transferred env evs) :=
  ⟨.inr (.inr rfl), .inl rfl⟩

theorem renews_trigger : Renews env d (dartTriggerTransfer B env d).1 := by
  have hwoken : ∀ {d'}, Woken env d d' → Renews env d d' := by
    intro d' h
    rw [h.eq]
    exact .same rfl rfl
  have houtcome := triggerOutcome B env d
  generalize dartTriggerTransfer B env d = r at houtcome ⊢
  cases houtcome with
  | busy _ => exact .refl d
  | impossible _ _ _ => exact .same rfl rfl
  | waiting _ h _ => exact (hwoken h).trans (.same rfl rfl)
  | nothing _ h _ _ => exact hwoken h
  | started _ h _ _ _ => exact (hwoken h).trans ⟨.inr (.inr rfl), .inl rfl⟩

theorem renews_triggerNext : Renews env d (dartTriggerNextTransfer B env d) := by
  unfold dartTriggerNextTransfer
  dsimp only
  split
  · exact (renews_trigger B env d).trans (.same rfl rfl)
  · exact renews_trigger B env d

theorem renews_finalize : Renews env d (dartTriggerNextTransfer B env (dartFinalizeTransfer d)) := by
  refine Renews.trans (.same ?_ ?_) (renews_triggerNext B env _)
  all_goals
    unfold dartFinalizeTransfer
    split
    · rfl
    · dsimp only
      split <;> rfl

theorem renews_retry : Renews env d (dartRetryTransfer B env d) := by
  unfold dartRetryTransfer
  split
  · exact .refl d
  · rename_i i _
    dsimp only
    split
    · exact .refl d
    · split
      · generalize hd₁ : Dart.emit _ _ = d₁
        obtain ⟨evs, -, htransfer⟩ := dartTransferMsg_eq B env d₁ (msgListPeek (d.queue i))
        rw [htransfer]
        have hstop : Renews env d d₁ := hd₁ ▸ .stopped rfl rfl
        exact hstop.trans (renews_transferred env d₁ evs)
      · refine Renews.trans ?_ (renews_finalize B env _)
        exact .stopped rfl rfl

theorem renews_acknowledge : Renews env d (dartAcknowledgeMsg B env d) := by
  unfold dartAcknowledgeMsg
  split
  · exact .refl d
  · dsimp only
    split
    · exact .refl d
    · split
      · refine Renews.trans ?_ (renews_finalize B env _)
        exact ⟨.inr (.inl rfl), .inr (.inr rfl)⟩
      · refine Renews.trans ?_ (renews_finalize B env _)
        exact .stopped rfl rfl

theorem renews_finalizeRequest : Renews env d (dartFinalizeRequestMsg B env d) := by
  unfold dartFinalizeRequestMsg
  refine Renews.trans ?_ (renews_triggerNext B env _)
  exact ⟨.inl rfl, .inr (.inl rfl)⟩

theorem renews_abandon : Renews env d (dartAbandonRequestMsg B env d) := by
  unfold dartAbandonRequestMsg
  split
  · refine Renews.trans ?_ (renews_finalizeRequest B env _)
    exact .same rfl rfl
  · exact .refl d

theorem renews_control (ch : UInt8) : Renews env d (dartHandleControl B env d ch) := by
  have hemit : Renews env d (d.emit (.control ch)) := .same rfl rfl
  unfold dartHandleControl
  split
  · exact hemit.trans (renews_acknowledge B env _)
  · split
    · exact hemit.trans (renews_retry B env _)
    · split
      · exact hemit.trans (renews_trigger B env _)
      · exact .refl d

theorem renews_received (ch : UInt8) : Renews env d (dartHandleReceivedChar B env d ch) := by
  have hkept : KeptByReceiving B env (Renews env d) :=
    { same := fun h hsame => h.trans (.same hsame.txAckTimer hsame.txResponseTimer)
      emit := fun _ h => h.trans (.same rfl rfl)
      raise := fun h => h.trans (.same rfl rfl)
      control := fun ch h => h.trans (renews_control B env _ ch)
      finish := fun h => h.trans (renews_finalizeRequest B env _) }
  exact hkept.received (.refl d) ch

theorem renews_closing : Renews env d (dartHandleClosing env d).1 := by
  unfold dartHandleClosing
  split
  · split
    · split
      · exact .same rfl rfl
      · exact .refl d
    · exact .same rfl rfl
  · split
    · split
      · dsimp only
        split <;> exact .same rfl rfl
      · exact .refl d
    · split
      · exact .same rfl rfl
      · exact .refl d

theorem renews_time : Renews env d (dartHandleTime B env d).1 := by
  have hrest : ∀ d₁ : Dart, ¬ d₁.Overdue env → Renews env d₁ (dartHandleTime B env d₁).1 := by
    intro d₁ hdue
    unfold Dart.Overdue at hdue
    unfold dartHandleTime
    rw [if_neg hdue]
    dsimp only
    split
    · split
      · split
        · refine Renews.trans ?_ (renews_retry B env _)
          exact .stopped rfl rfl
        · exact .stopped rfl rfl
      · exact .refl d₁
    · split
      · split
        · exact .same rfl rfl
        · exact renews_trigger B env d₁
      · split
        · exact renews_closing env d₁
        · exact .refl d₁
  by_cases hdue : d.Overdue env
  · obtain ⟨heq, hfree⟩ := dartHandleTime_overdue B env d hdue
    rw [heq]
    exact (renews_abandon B env d).trans (hrest _ hfree)
  · exact hrest d hdue

theorem renews_send (prio : Nat) (msg : Mem) (msgLen : Nat) :
    Renews env d (dartSendMsgEx B env d prio msg msgLen).1 := by
  unfold dartSendMsgEx
  split
  · exact .refl d
  · dsimp only
    generalize (if prio = dartMsgPrioAny then
      dartGuessPriority B (msg.load 0 B.msgtypeSize.bytes) else prio) = prio
    split
    · exact .refl d
    · split
      · exact .same rfl rfl
      · refine Renews.trans ?_ (renews_trigger B env _)
        exact .same rfl rfl

theorem renews_call (call : DartCall) : Renews env d (dartCall B env d call) := by
  cases call with
  | send prio msg msgLen => exact renews_send B env d prio msg msgLen
  | receive ch => exact renews_received B env d ch
  | time => exact renews_time B env d

end Functions

/-- The timer is stopped, or was started for `interval` when the clock was in its range. -/
def Timer.Dated (interval : Nat) (t : Timer) : Prop :=
  t = timerStop ∨ ∃ c : Clock, c.milis < 2 ^ 32 ∧ t = timerStart c timerMs interval

theorem Timer.Renewed.dated {env : Env} {interval : Nat} {t t' : Timer}
    (h : t.Renewed env interval t') (hclock : env.clock.milis < 2 ^ 32) (ht : t.Dated interval) :
    t'.Dated interval := by
  rcases h with rfl | rfl | rfl
  · exact ht
  · exact .inl rfl
  · exact .inr ⟨env.clock, hclock, rfl⟩

/-- The runs that lose no bits, with a clock of 32 bits. -/
def clockedSystem (B : Build) (n : Nat) : TSys Dart (Env × DartCall) :=
  (fittingSystem B n).restrict fun _ i => i.1.clock.milis < 2 ^ 32

/-- Both timers. -/
def Dart.Dated (d : Dart) : Prop :=
  d.txAckTimer.Dated dartAckTimerVal ∧ d.txResponseTimer.Dated dartResponseTimerVal

theorem Renews.dated {env : Env} {d d' : Dart} (h : Renews env d d')
    (hclock : env.clock.milis < 2 ^ 32) (hd : d.Dated) : d'.Dated :=
  ⟨h.ack.dated hclock hd.1, h.response.dated hclock hd.2⟩

theorem clockedSystem_dated (B : Build) (n : Nat) : (clockedSystem B n).Invariant Dart.Dated := by
  apply TSys.Inductive.invariant
  constructor
  · rintro d ⟨d₀, mpool, rxBuffer, rxBufferSize, -, -, -, rfl⟩
    exact ⟨.inl rfl, .inl rfl⟩
  · rintro d ⟨env, call⟩ d' hd ⟨hclock, -, -, rfl⟩
    exact (renews_call B env d call).dated hclock hd

/-! ## Work on a message -/

/-- The event shows work on a message: it is sent, acknowledged or reported. -/
def Event.works (ev : Event) : Bool := ev.sent.isSome || ev.settles

/-- Only fields change that have nothing to do with a transfer and its start; the WRK pin is
not lowered. -/
structure Calm (d d' : Dart) : Prop extends SameStore d d' where
  txAckTimer : d'.txAckTimer = d.txAckTimer
  txResponseTimer : d'.txResponseTimer = d.txResponseTimer
  wakeupTimer : d'.wakeupTimer = d.wakeupTimer
  wakeupAttempts : d'.wakeupAttempts = d.wakeupAttempts
  wrk : d.wrk = true → d'.wrk = true

theorem Calm.refl (d : Dart) : Calm d d := ⟨.refl d, rfl, rfl, rfl, rfl, id⟩

theorem Calm.trans {d d' d'' : Dart} (h : Calm d d') (h' : Calm d' d'') : Calm d d'' :=
  ⟨h.toSameStore.trans h'.toSameStore, h'.txAckTimer.trans h.txAckTimer,
    h'.txResponseTimer.trans h.txResponseTimer, h'.wakeupTimer.trans h.wakeupTimer,
    h'.wakeupAttempts.trans h.wakeupAttempts, fun hwrk => h'.wrk (h.wrk hwrk)⟩

/-- From `d` to `d'` there was work on a message. -/
def Works (d d' : Dart) : Prop :=
  ∃ evs, d'.log = d.log ++ evs ∧ ∃ ev ∈ evs, ev.works = true

/-- From `d` to `d'` there was work on a message, or nothing happened. -/
def Stirs (d d' : Dart) : Prop := Works d d' ∨ Calm d d' ∧ ∃ evs, d'.log = d.log ++ evs

theorem Works.after {d d' d'' : Dart} (h : Works d' d'') (hlog : ∃ evs, d'.log = d.log ++ evs) :
    Works d d'' := by
  obtain ⟨evs, hlog', ev, hev, hworks⟩ := h
  obtain ⟨pre, hpre⟩ := hlog
  exact ⟨pre ++ evs, by rw [hlog', hpre, List.append_assoc], ev, List.mem_append_right _ hev, hworks⟩

theorem Works.persists {d d' d'' : Dart} (h : Works d d') (h' : Persists d' d'') : Works d d'' := by
  obtain ⟨evs, hlog, ev, hev, hworks⟩ := h
  obtain ⟨evs', hlog', -⟩ := h'
  exact ⟨evs ++ evs', by rw [hlog', hlog, List.append_assoc], ev, List.mem_append_left _ hev, hworks⟩

/-- The event first, and then anything that gives up no transfer. -/
theorem Works.event {d d₁ d' : Dart} (ev : Event) (h : Persists d₁ d')
    (hlog : d₁.log = d.log ++ [ev]) (hev : ev.works = true) : Works d d' :=
  Works.persists ⟨[ev], hlog, ev, List.mem_singleton.mpr rfl, hev⟩ h

namespace Stirs

variable {d d' d'' : Dart}

theorem calm (h : Calm d d') (evs : List Event) (hlog : d'.log = d.log ++ evs) : Stirs d d' :=
  .inr ⟨h, evs, hlog⟩

theorem refl (d : Dart) : Stirs d d := .calm (.refl d) [] (List.append_nil _).symm

theorem log (h : Stirs d d') : ∃ evs, d'.log = d.log ++ evs := by
  rcases h with ⟨evs, hlog, -⟩ | ⟨-, hlog⟩
  · exact ⟨evs, hlog⟩
  · exact hlog

theorem trans (h : Stirs d d') (h' : Stirs d' d'') : Stirs d d'' := by
  rcases h' with hworks | ⟨hcalm', evs', hlog'⟩
  · exact .inl (hworks.after h.log)
  · rcases h with ⟨evs, hlog, ev, hev, hworks⟩ | ⟨hcalm, evs, hlog⟩
    · exact .inl ⟨evs ++ evs', by rw [hlog', hlog, List.append_assoc], ev,
        List.mem_append_left _ hev, hworks⟩
    · exact .inr ⟨hcalm.trans hcalm', evs ++ evs', by rw [hlog', hlog, List.append_assoc]⟩

end Stirs

section Stirring

variable (B : Build) (env : Env) (d : Dart)

/-- `dart_trigger_transfer` while the WRK pin is high. -/
theorem stirs_trigger (hwrk : d.wrk = true) : Stirs d (dartTriggerTransfer B env d).1 := by
  have houtcome := triggerOutcome B env d
  generalize dartTriggerTransfer B env d = r at houtcome ⊢
  cases houtcome with
  | busy _ => exact .refl d
  | impossible _ hlow _ =>
      rw [hwrk] at hlow
      cases hlow
  | waiting _ h _ =>
      obtain rfl := h.of_high hwrk
      exact .calm ⟨⟨rfl, rfl, rfl, rfl⟩, rfl, rfl, rfl, rfl, id⟩ [_] rfl
  | nothing _ h _ _ =>
      obtain rfl := h.of_high hwrk
      exact .refl _
  | started _ h _ _ _ =>
      obtain rfl := h.of_high hwrk
      exact .inl ⟨_, rfl, _, List.mem_cons_self, rfl⟩

/-- `dart_retry_transfer` during a transfer -/
theorem works_retry {i : Fin msgPrioLength} (hi : d.transfering = some i)
    (hpeek : msgListPeek (d.queue i) ≠ 0) : Works d (dartRetryTransfer B env d) := by
  unfold dartRetryTransfer
  rw [hi]
  dsimp only
  rw [if_neg hpeek]
  split
  · generalize hd₁ : Dart.emit _ _ = d₁
    obtain ⟨evs, hevs, htransfer⟩ := dartTransferMsg_eq B env d₁ (msgListPeek (d.queue i))
    rw [htransfer]
    have hlog : d₁.log = d.log ++ [.retry (d.msgAt B (msgListPeek (d.queue i)))] := by
      rw [← hd₁]
      rfl
    refine Works.event _ (.of_log evs rfl fun ev hev => ?_) hlog rfl
    obtain ⟨bytes, rfl⟩ := hevs ev hev
    exact Event.noConfusion
  · exact Works.event (.callback .transferFailure (.stored (d.msgAt B (msgListPeek (d.queue i))))
      (nodeLength d.heap.mem (msgListPeek (d.queue i)))) (persists_finalize B env _) rfl rfl

theorem stirs_retry : Stirs d (dartRetryTransfer B env d) := by
  cases hi : d.transfering with
  | none =>
      have heq : dartRetryTransfer B env d = d := by
        unfold dartRetryTransfer
        rw [hi]
      rw [heq]
      exact .refl d
  | some i =>
      by_cases hpeek : msgListPeek (d.queue i) = 0
      · have heq : dartRetryTransfer B env d = d := by
          unfold dartRetryTransfer
          rw [hi]
          exact if_pos hpeek
        rw [heq]
        exact .refl d
      · exact .inl (works_retry B env d hi hpeek)

/-- `dart_acknowledge_msg` -/
theorem stirs_acknowledge : Stirs d (dartAcknowledgeMsg B env d) := by
  unfold dartAcknowledgeMsg
  split
  · exact .refl d
  · rename_i i _
    dsimp only
    split
    · exact .refl d
    · left
      split
      · exact Works.event (.promote (d.msgAt B (msgListPeek (d.queue i))))
          (persists_finalize B env _) rfl rfl
      · exact Works.event (.callback .transferDone (.stored (d.msgAt B (msgListPeek (d.queue i))))
          (nodeLength d.heap.mem (msgListPeek (d.queue i)))) (persists_finalize B env _) rfl rfl

theorem stirs_emit (ev : Event) : Stirs d (d.emit ev) :=
  .calm ⟨⟨rfl, rfl, rfl, rfl⟩, rfl, rfl, rfl, rfl, id⟩ [ev] rfl

/-- The control bytes are only looked at while the WRK pin is high. -/
theorem stirs_control (hwrk : d.wrk = true) (ch : UInt8) :
    Stirs d (dartHandleControl B env d ch) := by
  have hemit := stirs_emit d (.control ch)
  unfold dartHandleControl
  split
  · exact hemit.trans (stirs_acknowledge B env _)
  · split
    · exact hemit.trans (stirs_retry B env _)
    · split
      · exact hemit.trans (stirs_trigger B env (d.emit (.control ch)) hwrk)
      · exact .refl d

theorem stirs_checkResponse (type msgLen : Nat) :
    Stirs d (dartCheckResponse B env d type msgLen) := by
  unfold dartCheckResponse
  dsimp only
  split
  · exact .refl d
  · split
    · exact .refl d
    · split
      · exact .refl d
      · exact .inl (Works.event _ (persists_finalizeRequest B env _) rfl rfl)

theorem stirs_frame (dataLen : Nat) : Stirs d (dartHandleFrame B env d dataLen) := by
  unfold dartHandleFrame
  dsimp only
  split
  · exact (stirs_emit d _).trans (stirs_emit _ _)
  · unfold dartHandleReceivedMsg
    refine Stirs.trans ?_ (stirs_checkResponse B env _ _ _)
    exact .calm ⟨⟨rfl, rfl, rfl, rfl⟩, rfl, rfl, rfl, rfl, id⟩ [_, _] (List.append_assoc _ _ _)

/-- `dart_handle_received_char` -/
theorem stirs_received (ch : UInt8) : Stirs d (dartHandleReceivedChar B env d ch) := by
  have hstart : Stirs d (dartRxStore env (dartRxTimeout env d) ch) := by
    have htimeout : Stirs d (dartRxTimeout env d) := by
      unfold dartRxTimeout
      split
      · exact .calm ⟨⟨rfl, rfl, rfl, rfl⟩, rfl, rfl, rfl, rfl, id⟩ [_] rfl
      · exact .refl d
    exact htimeout.trans
      (.calm ⟨⟨rfl, rfl, rfl, rfl⟩, rfl, rfl, rfl, rfl, id⟩ [] (List.append_nil _).symm)
  unfold dartHandleReceivedChar
  generalize dartRxStore env (dartRxTimeout env d) ch = d₁ at hstart
  refine hstart.trans ?_
  have hdrop : ∀ d₂, Stirs d₁ d₂ → Stirs d₁ (dartRxDrop d₂) := fun d₂ h =>
    h.trans (.calm ⟨⟨rfl, rfl, rfl, rfl⟩, rfl, rfl, rfl, rfl, id⟩ [] (List.append_nil _).symm)
  dsimp only
  split
  · split
    · split
      · exact .calm ⟨⟨rfl, rfl, rfl, rfl⟩, rfl, rfl, rfl, rfl, id⟩ [] (List.append_nil _).symm
      · exact .calm ⟨⟨rfl, rfl, rfl, rfl⟩, rfl, rfl, rfl, rfl, fun _ => rfl⟩ [.pin true] rfl
    · refine hdrop _ ?_
      split
      · rename_i hwrk
        exact stirs_control B env d₁ hwrk ch
      · exact .refl d₁
  · split
    · exact .refl d₁
    · split
      · exact hdrop _ (stirs_emit d₁ _)
      · split
        · exact .refl d₁
        · exact hdrop _ (stirs_frame B env d₁ _)

end Stirring

/-! ## The time handler -/

/-- How far the endpoint is from a peer that answers: two while the wakeup timer runs, and one
if the next attempt to wake it up will not be made. -/
def Dart.phase (d : Dart) : Nat :=
  (if timerRunning d.wakeupTimer then 2 else 0) +
    (if d.wrk = false ∧ dartWakeupAttempts ≤ d.wakeupAttempts then 1 else 0)

theorem phase_le (d : Dart) : d.phase ≤ 3 := by
  unfold Dart.phase
  split <;> split <;> decide

theorem Calm.phase {d d' : Dart} (h : Calm d d') : d'.phase ≤ d.phase := by
  unfold Dart.phase
  rw [h.wakeupTimer, h.wakeupAttempts]
  refine Nat.add_le_add_left ?_ _
  by_cases hlow : d.wrk = false
  · rw [hlow]
    split
    · rename_i hlate
      rw [if_pos ⟨rfl, hlate.2⟩]
    · exact Nat.zero_le _
  · have hwrk : d'.wrk = true := h.wrk (by simpa using hlow)
    rw [hwrk, if_neg (fun hcond => by cases hcond.1)]
    exact Nat.zero_le _

/-- The endpoint waits for the acknowledge of a transfer or for a response, and the timer has
not expired. -/
def Dart.Waits (d : Dart) (clock : Clock) : Prop :=
  (d.transfering.isSome ∧ timerExpired d.txAckTimer clock = false) ∨
    (d.transfering = none ∧ d.pendingRequest ≠ 0 ∧ timerExpired d.txResponseTimer clock = false)

theorem Calm.waits {d d' : Dart} (h : Calm d d') {clock : Clock} (hd : d.Waits clock) :
    d'.Waits clock := by
  unfold Dart.Waits at hd ⊢
  rw [h.transfering, h.pendingRequest, h.txAckTimer, h.txResponseTimer]
  exact hd

theorem running_of_expired {t : Timer} {clock : Clock} (h : timerExpired t clock = true) :
    timerRunning t = true := by
  unfold timerExpired at h
  unfold timerRunning
  split at h
  · cases h
  · rename_i hne
    exact decide_eq_true hne

section Time

variable {B : Build} {n : Nat} {env : Env} {d : Dart} {e : Engine}

/-- An endpoint that has nothing to select, nothing in transfer and nothing pending is empty. -/
theorem messages_nil (h : DartRep B n d e) (hfind : dartFindNextMessageQueue B d = none)
    (hpending : d.pendingRequest = 0) : e.messages = [] := by
  have hlists : ∀ i, e.lists i = [] := by
    intro i
    have hlen := h.store.length_eq (mem_prios i)
    refine List.eq_nil_of_length_eq_zero (Nat.eq_zero_of_not_pos fun hpos => ?_)
    exact not_queued_of_find B d hfind hpending ⟨i, hlen ▸ hpos⟩
  unfold Engine.messages stored
  rw [(h.pending_eq_zero).mp hpending]
  exact List.append_eq_nil_iff.mpr ⟨List.flatMap_eq_nil_iff.mpr fun i _ => hlists i, rfl⟩

/-- Triggering while the peer is ready and there is something to select. -/
theorem trigger_advances (hidle : d.transfering = none) (hrdy : env.rdy = true)
    (hfind : (dartFindNextMessageQueue B d).isSome) :
    Works d (dartTriggerTransfer B env d).1 ∨ (dartTriggerTransfer B env d).1.phase < d.phase := by
  have houtcome := triggerOutcome B env d
  generalize dartTriggerTransfer B env d = r at houtcome ⊢
  cases houtcome with
  | busy hbusy =>
      rw [hidle] at hbusy
      cases hbusy
  | impossible _ hlow hlate =>
      -- the attempts begin anew, so the next one will be made
      have hbefore : d.phase = (if timerRunning d.wakeupTimer then 2 else 0) + 1 := by
        unfold Dart.phase
        rw [if_pos (c := d.wrk = false ∧ _) ⟨hlow, hlate⟩]
      have hafter : d.unreachable.phase = (if timerRunning d.wakeupTimer then 2 else 0) + 0 := by
        have hnone : ¬ (d.wrk = false ∧ dartWakeupAttempts ≤ 0) := fun hcond =>
          absurd hcond.2 (by decide)
        show _ + (if d.wrk = false ∧ dartWakeupAttempts ≤ 0 then 1 else 0) = _
        rw [if_neg hnone]
        rfl
      right
      show d.unreachable.phase < _
      rw [hbefore, hafter]
      exact Nat.lt_succ_self _
  | waiting _ _ hbusy =>
      rw [hrdy] at hbusy
      cases hbusy
  | nothing _ _ _ hnone =>
      rw [hnone] at hfind
      cases hfind
  | started _ h _ _ _ =>
      obtain ⟨evs, hlog, -⟩ := h.log
      exact .inl (Works.after ⟨_, rfl, _, List.mem_cons_self, rfl⟩ ⟨evs, hlog⟩)

/-- While there are messages and the peer is ready, the time handler works on a message, comes
closer to that, or waits for a timer. -/
theorem time_advances (h : DartRep B n d e) (hmessages : e.messages ≠ []) (hrdy : env.rdy = true) :
    Works d (dartHandleTime B env d).1 ∨ (dartHandleTime B env d).1.phase < d.phase ∨
      ((dartHandleTime B env d).1 = d ∧ d.Waits env.clock) := by
  by_cases hdue : d.Overdue env
  · -- the request is abandoned, and that is reported
    left
    obtain ⟨heq, -⟩ := dartHandleTime_overdue B env d hdue
    rw [heq]
    refine Works.persists ?_ (persists_time B env _ fun _ => hrdy)
    unfold dartAbandonRequestMsg
    rw [if_pos hdue.1]
    exact Works.event _ (persists_finalizeRequest B env _) rfl rfl
  · have hnotdue := hdue
    unfold Dart.Overdue at hdue
    unfold dartHandleTime
    rw [if_neg hdue]
    dsimp only
    split
    · rename_i hbusy
      split
      · left
        obtain ⟨i, hi⟩ := Option.isSome_iff_exists.mp hbusy
        obtain ⟨m, ms, hcons⟩ := h.current (h.transfering.symm.trans hi)
        have hpeek : msgListPeek (d.queue i) ≠ 0 := by
          rw [h.peek hcons]
          exact h.ptr_ne_zero (Engine.head_mem hcons)
        have hretry := works_retry B env { d with txAckTimer := timerStop } hi hpeek
        exact hretry.after ⟨[], (List.append_nil _).symm⟩
      · rename_i hrunning
        exact .inr (.inr ⟨rfl, .inl ⟨hbusy, by simpa using hrunning⟩⟩)
    · rename_i hbusy
      have hidle : d.transfering = none := by simpa using hbusy
      split
      · rename_i hfind
        split
        · rename_i hexpired
          -- the wakeup timer is stopped, at the price of a low WRK pin
          have hbefore : 2 ≤ d.phase := by
            unfold Dart.phase
            rw [if_pos (running_of_expired hexpired)]
            exact Nat.le_add_right _ _
          have hafter : ({ d with wakeupTimer := timerStop }.setWrk false).phase ≤ 1 := by
            show 0 + (if _ then 1 else 0) ≤ 1
            split <;> decide
          exact .inr (.inl (Nat.lt_of_le_of_lt hafter hbefore))
        · rcases trigger_advances hidle hrdy hfind with hworks | hphase
          · exact .inl hworks
          · exact .inr (.inl hphase)
      · -- nothing to select, so the message that is there is the pending request
        rename_i hfind
        have hnone : dartFindNextMessageQueue B d = none := by simpa using hfind
        have hpending : d.pendingRequest ≠ 0 := fun hzero => hmessages (messages_nil h hnone hzero)
        rw [if_neg (fun hcond => hpending hcond.1)]
        refine .inr (.inr ⟨rfl, .inr ⟨hidle, hpending, ?_⟩⟩)
        by_contra hexpired
        exact hnotdue ⟨hpending, by simpa using hexpired⟩

end Time

/-! ## Runs without new messages -/

/-- The messages an endpoint has are paid for with one for a transmission, and one for each of
their ends. -/
abbrev Engine.work (e : Engine) (d : Dart) : Nat := e.left (fun _ => 1) 1 d.attempt

/-- A byte is received, or the time handler is called while the peer is ready. -/
def DartCall.Serves (env : Env) : DartCall → Prop
  | .send _ _ _ => False
  | .receive _ => True
  | .time => env.rdy = true

instance (env : Env) : (call : DartCall) → Decidable (call.Serves env)
  | .send _ _ _ => .isFalse id
  | .receive _ => .isTrue trivial
  | .time => inferInstanceAs (Decidable (_ = true))

section Runs

variable {B : Build} {n : Nat} {env : Env} {d : Dart} {e : Engine} {call : DartCall}

/-- Such a call accepts nothing. -/
theorem serves_accepts (h : call.Serves env) {evs : List Event}
    (hlog : (dartCall B env d call).log = d.log ++ evs) : ∀ prio m, .accept prio m ∉ evs := by
  have hproceeds : Proceeds B d (dartCall B env d call) ∨ Lowers B env d (dartCall B env d call) := by
    cases call with
    | send prio msg msgLen => exact h.elim
    | receive ch => exact .inl (proceeds_received B env d ch)
    | time => exact proceeds_time B env d
  intro prio m hmem
  rcases hproceeds with hproceeds | hlowers
  · obtain ⟨evs', hlog', hevs'⟩ := hproceeds.log
    rw [List.append_cancel_left (hlog.symm.trans hlog')] at hmem
    rcases hevs' _ hmem with hminor | ⟨i, hstart, -⟩
    · cases hminor
    · cases hstart
  · obtain ⟨evs', hlog', hevs'⟩ := hlowers.log
    rw [List.append_assoc] at hlog'
    rw [List.append_cancel_left (hlog.symm.trans hlog')] at hmem
    rcases List.mem_append.mp hmem with hmem | hmem
    · cases hevs' _ hmem
    · cases List.mem_singleton.mp hmem

theorem earned_nothing {cost : Msg → Nat} {b : Nat} {evs : List Event}
    (h : ∀ prio m, .accept prio m ∉ evs) : earned cost b evs = 0 := by
  refine List.sum_eq_zero_iff_forall_eq_nat.mpr fun k hk => ?_
  obtain ⟨ev, hev, rfl⟩ := List.mem_map.mp hk
  cases ev with
  | accept prio m => exact absurd hev (h prio m)
  | _ => rfl

/-- Work on a message costs something. -/
theorem works_costs {evs : List Event} (h : ∃ ev ∈ evs, ev.works = true) :
    0 < spent (fun _ => 1) evs + 1 * evs.countP Event.settles := by
  obtain ⟨ev, hev, hworks⟩ := h
  unfold Event.works at hworks
  rw [Bool.or_eq_true] at hworks
  rcases hworks with hsent | hsettles
  · refine Nat.add_pos_left (Nat.pos_of_ne_zero fun hzero => ?_) _
    have hcosts := List.sum_eq_zero_iff_forall_eq_nat.mp hzero _ (List.mem_map_of_mem hev)
    obtain ⟨m, hm⟩ := Option.isSome_iff_exists.mp hsent
    unfold Event.costs at hcosts
    rw [hm] at hcosts
    cases hcosts
  · rw [Nat.one_mul]
    exact Nat.add_pos_right _ (List.countP_pos_iff.mpr ⟨ev, hev, hsettles⟩)

/-- The work that is left gets less with every work on a message. -/
theorem serves_left (hd : (fittingSystem B n).Reachable d) (hkeeps : Keeps B n d e)
    (h : call.Serves env) :
    ∃ e', Keeps B n (dartCall B env d call) e' ∧ e'.work (dartCall B env d call) ≤ e.work d ∧
      (Works d (dartCall B env d call) → e'.work (dartCall B env d call) < e.work d) := by
  have hvalid : call.Valid B := by
    cases call with
    | send _ _ _ => exact h.elim
    | _ => trivial
  have hfits : call.Fits B d := by
    cases call with
    | send _ _ _ => exact h.elim
    | _ => trivial
  have hinsists : call.Insists env d := by
    cases call with
    | time => exact fun _ => h
    | _ => trivial
  obtain ⟨evs, e', hlog, -, hkeeps', haccounts⟩ := call_accounts hd hkeeps hvalid hfits hinsists
  have hleft := (haccounts (fun _ => 1) 1).left hkeeps.2
  rw [earned_nothing (serves_accepts h hlog)] at hleft
  unfold Engine.work
  refine ⟨e', hkeeps', by omega, fun hworks => ?_⟩
  obtain ⟨evs', hlog', hev⟩ := hworks
  -- the events that show the work are those that were accounted for
  rw [← List.append_cancel_left (hlog.symm.trans hlog')] at hev
  have hpos := works_costs hev
  omega

theorem work_nil (h : e.messages = []) (d : Dart) : e.work d = 0 := by
  have hqueued : e.queued = [] ∧ e.pending.toList = [] := by
    unfold Engine.messages stored at h
    unfold Engine.queued stored
    rw [List.append_nil]
    exact List.append_eq_nil_iff.mp h
  unfold Engine.work Engine.left Engine.budget
  rw [hqueued.1, hqueued.2]
  exact Nat.zero_sub _

/-- A message is not given up for nothing. -/
theorem work_pos (h : Keeps B n d e) (hmessages : e.messages ≠ []) : 0 < e.work d := by
  obtain ⟨hrep, hcoupled⟩ := h
  unfold Engine.work Engine.left
  cases hi : e.transfering with
  | some i =>
      obtain ⟨m, ms, hcons⟩ := hrep.current hi
      have hused : e.used (fun _ => 1) d.attempt ≤ dartTxAttempts * 1 := hcoupled.used_le hi hcons
      rw [budget_close hcons]
      unfold price
      dsimp only at hused ⊢
      omega
  | none =>
      -- nothing is used, so the price of any message is left
      rw [hcoupled.idle hi, Engine.used_none, Nat.sub_zero]
      obtain ⟨m, hm⟩ := List.exists_mem_of_ne_nil _ hmessages
      unfold Engine.budget
      rcases mem_stored.mp hm with hlist | hpending
      · have hqueued : m ∈ e.queued := mem_stored.mpr (.inl hlist)
        refine Nat.add_pos_left (Nat.pos_of_ne_zero fun hzero => ?_) _
        have hprice := List.sum_eq_zero_iff_forall_eq_nat.mp hzero _ (List.mem_map_of_mem hqueued)
        cases hprice
      · rw [Nat.one_mul]
        exact Nat.add_pos_right _ (List.length_pos_of_mem hpending)

end Runs

/-! ## Draining -/

/-- The clocks of the calls of the time handler. -/
def timeClocks (calls : List (Env × DartCall)) : List Nat :=
  calls.filterMap fun c => match c.2 with
    | .time => some c.1.clock.milis
    | _ => none

/-- The second reading is at least `DART_RESPONSE_TIMER_VAL` after the first, and not as late
that the clock has come round. -/
def Spaced (first second : Nat) : Prop :=
  dartResponseTimerVal ≤ (second + 2 ^ 32 - first) % 2 ^ 32 ∧
    (second + 2 ^ 32 - first) % 2 ^ 32 ≤ 2 ^ 32 - dartResponseTimerVal

instance (first second : Nat) : Decidable (Spaced first second) :=
  inferInstanceAs (Decidable (_ ∧ _))

/-- A timer that was running at the first reading has expired at the second one. -/
theorem spaced_expired {t : Timer} {interval : Nat} {clock clock' : Clock}
    (hdated : t.Dated interval) (hrunning : timerRunning t = true)
    (hinterval : interval ≤ dartResponseTimerVal) (hclock : clock.milis < 2 ^ 32)
    (hclock' : clock'.milis < 2 ^ 32) (hspaced : Spaced clock.milis clock'.milis)
    (h : timerExpired t clock = false) : timerExpired t clock' = true := by
  rcases hdated with rfl | ⟨c, hc, rfl⟩
  · cases hrunning
  · have hvalue : ∀ now : Clock, timerValue (timerStart c timerMs interval) now =
        (now.milis + 2 ^ 32 - c.milis) % 2 ^ 32 := by
      intro now
      simp [timerValue, timerStart, timerTstamp, timerMs, timerSec, timerChrono]
    have hne : (timerStart c timerMs interval).interval ≠ 0 := of_decide_eq_true hrunning
    unfold timerExpired at h ⊢
    rw [if_neg hne] at h ⊢
    rw [hvalue] at h ⊢
    have hearly : (clock.milis + 2 ^ 32 - c.milis) % 2 ^ 32 < interval := by
      by_contra hlate
      rw [if_neg (c := _ < (timerStart c timerMs interval).interval) hlate] at h
      cases h
    refine if_neg (c := _ < (timerStart c timerMs interval).interval) ?_
    show ¬ (clock'.milis + 2 ^ 32 - c.milis) % 2 ^ 32 < interval
    unfold Spaced dartResponseTimerVal at hspaced
    unfold dartResponseTimerVal at hinterval
    omega

/-- The endpoint does not wait twice for the same timer. -/
theorem waits_once {B : Build} {n : Nat} {d : Dart} (hd : (clockedSystem B n).Reachable d)
    {clock clock' : Clock} (hclock : clock.milis < 2 ^ 32) (hclock' : clock'.milis < 2 ^ 32)
    (hspaced : Spaced clock.milis clock'.milis) (h : d.Waits clock) : ¬ d.Waits clock' := by
  obtain ⟨hack, hresponse⟩ := clockedSystem_dated B n d hd
  obtain ⟨hbusy, hpending, -⟩ :=
    dart_transfers_watched (fittingSystem_defined hd.of_restrict)
  -- what was waited for before is waited for again: neither a transfer nor a request changed
  rintro (⟨hon, hrunning⟩ | ⟨hidle, hon, hrunning⟩)
  · rcases h with ⟨-, hbefore⟩ | ⟨hidle, -⟩
    · have hexpired := spaced_expired hack (hbusy.mp hon) (by decide) hclock hclock' hspaced hbefore
      rw [hrunning] at hexpired
      cases hexpired
    · rw [hidle] at hon
      cases hon
  · rcases h with ⟨hbusy', -⟩ | ⟨-, -, hbefore⟩
    · rw [hidle] at hbusy'
      cases hbusy'
    · have hexpired :=
        spaced_expired hresponse (hpending.mp hon) (by decide) hclock hclock' hspaced hbefore
      rw [hrunning] at hexpired
      cases hexpired

/-- How far the endpoint is from having no messages. -/
def Dart.distance (d : Dart) (e : Engine) : Nat := 4 * e.work d + d.phase

section Draining

variable {B : Build} {n : Nat} {env : Env} {d : Dart} {e : Engine}

/-- A byte brings the endpoint closer to its end, or leaves the transfers alone. -/
theorem receive_distance (hd : (fittingSystem B n).Reachable d) (hkeeps : Keeps B n d e)
    (ch : UInt8) :
    ∃ e', Keeps B n (dartCall B env d (.receive ch)) e' ∧
      ((dartCall B env d (.receive ch)).distance e' < d.distance e ∨
        (dartCall B env d (.receive ch)).distance e' ≤ d.distance e ∧
          Calm d (dartCall B env d (.receive ch))) := by
  have hserves : DartCall.Serves env (.receive ch) := trivial
  obtain ⟨e', hkeeps', hleft, hworks⟩ := serves_left hd hkeeps hserves
  have hstirs : Stirs d (dartCall B env d (.receive ch)) := stirs_received B env d ch
  generalize dartCall B env d (.receive ch) = d' at hkeeps' hleft hworks hstirs
  refine ⟨e', hkeeps', ?_⟩
  unfold Dart.distance
  rcases hstirs with hmoved | ⟨hcalm, -⟩
  · -- one unit of work outweighs every phase
    have hless := hworks hmoved
    have hphase := phase_le d'
    omega
  · have hphase := hcalm.phase
    exact .inr ⟨by omega, hcalm⟩

/-- The time handler brings the endpoint closer to its end, or waits. -/
theorem time_distance (hd : (fittingSystem B n).Reachable d) (hkeeps : Keeps B n d e)
    (hmessages : e.messages ≠ []) (hrdy : env.rdy = true) :
    ∃ e', Keeps B n (dartCall B env d .time) e' ∧
      ((dartCall B env d .time).distance e' < d.distance e ∨
        (dartCall B env d .time).distance e' ≤ d.distance e ∧ dartCall B env d .time = d ∧
          d.Waits env.clock) := by
  have hserves : DartCall.Serves env .time := hrdy
  obtain ⟨e', hkeeps', hleft, hworks⟩ := serves_left hd hkeeps hserves
  have hadvances : Works d (dartCall B env d .time) ∨
      (dartCall B env d .time).phase < d.phase ∨
        (dartCall B env d .time = d ∧ d.Waits env.clock) :=
    time_advances hkeeps.1 hmessages hrdy
  generalize dartCall B env d .time = d' at hkeeps' hleft hworks hadvances
  refine ⟨e', hkeeps', ?_⟩
  unfold Dart.distance
  rcases hadvances with hmoved | hcloser | ⟨rfl, hwaits⟩
  · have hless := hworks hmoved
    have hphase := phase_le d'
    omega
  · omega
  · exact .inr ⟨by omega, rfl, hwaits⟩

/-- Without messages there will be none. -/
theorem serves_empty (hd : (fittingSystem B n).Reachable d) (hkeeps : Keeps B n d e)
    {call : DartCall} (hserves : call.Serves env) (hempty : e.messages = []) :
    ∃ e', Keeps B n (dartCall B env d call) e' ∧ e'.messages = [] := by
  obtain ⟨e', hkeeps', hleft, -⟩ := serves_left hd hkeeps hserves
  refine ⟨e', hkeeps', ?_⟩
  by_contra hmessages
  have hpos := work_pos hkeeps' hmessages
  rw [work_nil hempty] at hleft
  omega

theorem serves_reachable (hd : (clockedSystem B n).Reachable d) (hclock : env.clock.milis < 2 ^ 32)
    {call : DartCall} (hserves : call.Serves env) :
    (clockedSystem B n).Reachable (dartCall B env d call) := by
  refine hd.step (i := (env, call)) ⟨hclock, ?_, ?_, rfl⟩
  all_goals
    cases call with
    | send _ _ _ => exact hserves.elim
    | _ => trivial

/-- The calls given to an endpoint that is to get rid of its messages. -/
def AllServe (calls : List (Env × DartCall)) : Prop :=
  ∀ c ∈ calls, c.1.clock.milis < 2 ^ 32 ∧ c.2.Serves c.1

theorem allServe_reachable {calls : List (Env × DartCall)} (hd : (clockedSystem B n).Reachable d)
    (hcalls : AllServe calls) : (clockedSystem B n).Reachable (dartCalls B d calls) := by
  induction calls generalizing d with
  | nil => exact hd
  | cons c calls ih =>
      obtain ⟨hclock, hserves⟩ := hcalls _ List.mem_cons_self
      exact ih (serves_reachable hd hclock hserves) fun c' hc' =>
        hcalls c' (List.mem_cons_of_mem _ hc')

theorem drained_run {calls : List (Env × DartCall)} (hd : (clockedSystem B n).Reachable d)
    (hkeeps : Keeps B n d e) (hcalls : AllServe calls) (hempty : e.messages = []) :
    ∃ e', Keeps B n (dartCalls B d calls) e' ∧ e'.messages = [] := by
  induction calls generalizing d e with
  | nil => exact ⟨e, hkeeps, hempty⟩
  | cons c calls ih =>
      obtain ⟨hclock, hserves⟩ := hcalls _ List.mem_cons_self
      obtain ⟨e', hkeeps', hempty'⟩ := serves_empty hd.of_restrict hkeeps hserves hempty
      exact ih (serves_reachable hd hclock hserves) hkeeps'
        (fun c' hc' => hcalls c' (List.mem_cons_of_mem _ hc')) hempty'

/-- As long as there are messages, every second call of the time handler brings the endpoint
closer to its end: `w` is one if the last one waited. -/
theorem drain_run {calls : List (Env × DartCall)} (hd : (clockedSystem B n).Reachable d)
    (hkeeps : Keeps B n d e) (hcalls : AllServe calls) {last : Option Clock}
    (hlast : ∀ c, last = some c → c.milis < 2 ^ 32)
    (hspaced : ((last.map Clock.milis).toList ++ timeClocks calls).IsChain Spaced)
    {w : Nat} (hw : w = 0 ∨ w = 1 ∧ ∃ c, last = some c ∧ d.Waits c) :
    ∃ e', Keeps B n (dartCalls B d calls) e' ∧
      (e'.messages ≠ [] → (timeClocks calls).length + w + 7 ≤ 2 * d.distance e) := by
  induction calls generalizing d e last w with
  | nil =>
      -- a message that is left is worth a unit of work
      refine ⟨e, hkeeps, fun hmessages => ?_⟩
      have hpos := work_pos hkeeps hmessages
      unfold Dart.distance
      show 0 + w + 7 ≤ _
      omega
  | cons c calls ih =>
      obtain ⟨env, call⟩ := c
      have hfirst : env.clock.milis < 2 ^ 32 ∧ call.Serves env := hcalls _ List.mem_cons_self
      obtain ⟨hclock, hserves⟩ := hfirst
      have hrest : AllServe calls := fun c hc => hcalls c (List.mem_cons_of_mem _ hc)
      have hd₁ := serves_reachable hd hclock hserves
      cases call with
      | send _ _ _ => exact hserves.elim
      | receive ch =>
          -- bytes are not counted, but a wait must outlast them
          have hclocks : timeClocks ((env, .receive ch) :: calls) = timeClocks calls := rfl
          rw [hclocks] at hspaced ⊢
          obtain ⟨e₁, hkeeps₁, hdistance⟩ := receive_distance hd.of_restrict hkeeps ch
          rcases hdistance with hcloser | ⟨hle, hcalm⟩
          · obtain ⟨e', hkeeps', hbound⟩ := ih hd₁ hkeeps₁ hrest hlast hspaced (.inl rfl)
            refine ⟨e', hkeeps', fun hmessages => ?_⟩
            have hrun := hbound hmessages
            rcases hw with rfl | ⟨rfl, -⟩ <;> omega
          · have hw₁ := hw.imp_right fun ⟨hone, c, hc, hwaits⟩ =>
              (⟨hone, c, hc, hcalm.waits hwaits⟩ : w = 1 ∧ ∃ c, last = some c ∧ _)
            obtain ⟨e', hkeeps', hbound⟩ := ih hd₁ hkeeps₁ hrest hlast hspaced hw₁
            refine ⟨e', hkeeps', fun hmessages => ?_⟩
            have hrun := hbound hmessages
            omega
      | time =>
          by_cases hempty : e.messages = []
          · -- nothing is accepted any more
            obtain ⟨e', hkeeps', hempty'⟩ := drained_run hd hkeeps hcalls hempty
            exact ⟨e', hkeeps', fun hmessages => absurd hempty' hmessages⟩
          have hclocks : timeClocks ((env, .time) :: calls) =
            env.clock.milis :: timeClocks calls := rfl
          rw [hclocks] at hspaced ⊢
          have hnext : (((some env.clock).map Clock.milis).toList ++ timeClocks calls).IsChain
              Spaced := hspaced.right_of_append
          obtain ⟨e₁, hkeeps₁, hdistance⟩ := time_distance hd.of_restrict hkeeps hempty hserves
          rcases hdistance with hcloser | ⟨hle, heq, hwaits⟩
          · obtain ⟨e', hkeeps', hbound⟩ :=
              ih hd₁ hkeeps₁ hrest (by rintro c ⟨⟩; exact hclock) hnext (.inl rfl)
            refine ⟨e', hkeeps', fun hmessages => ?_⟩
            have hrun := hbound hmessages
            rw [List.length_cons]
            rcases hw with rfl | ⟨rfl, -⟩ <;> omega
          · -- the last call did not wait
            have hzero : w = 0 := by
              rcases hw with hzero | ⟨-, c, rfl, hbefore⟩
              · exact hzero
              · have hstep : Spaced c.milis env.clock.milis := (List.isChain_cons_cons.mp hspaced).1
                exact absurd hwaits (waits_once hd (hlast c rfl) hclock hstep hbefore)
            have hnow : (dartCall B env d .time).Waits env.clock := by
              rw [heq]
              exact hwaits
            obtain ⟨e', hkeeps', hbound⟩ := ih hd₁ hkeeps₁ hrest (by rintro c ⟨⟩; exact hclock)
              hnext (.inr ⟨rfl, env.clock, rfl, hnow⟩)
            refine ⟨e', hkeeps', fun hmessages => ?_⟩
            have hrun := hbound hmessages
            rw [List.length_cons, hzero]
            omega

end Draining

/-- An endpoint without messages is not sending. -/
theorem not_sending {B : Build} {n : Nat} {d : Dart} {e : Engine} (h : DartRep B n d e)
    (hempty : e.messages = []) : dartIsSending B d = false := by
  have hlists : ∀ i, e.lists i = [] := by
    intro i
    refine List.eq_nil_iff_forall_not_mem.mpr fun m hm => ?_
    have hmem : m ∈ e.messages := mem_stored.mpr (.inl ⟨i, mem_prios i, hm⟩)
    rw [hempty] at hmem
    cases hmem
  have hpending : e.pending = none := by
    refine Option.eq_none_iff_forall_not_mem.mpr fun m hm => ?_
    have hmem := Engine.pending_mem hm
    rw [hempty] at hmem
    cases hmem
  have hidle : d.transfering = none := by
    rw [h.transfering]
    refine Option.eq_none_iff_forall_not_mem.mpr fun i hi => ?_
    exact h.busy i hi (hlists i)
  have hfind : dartFindNextMessageQueue B d = none := by
    refine Option.eq_none_iff_forall_not_mem.mpr fun i hi => ?_
    have hqueued := find_queued hi
    rw [h.store.length_eq (mem_prios i), hlists i] at hqueued
    cases hqueued
  unfold dartIsSending
  rw [hidle, (h.pending_eq_zero).mpr hpending, hfind]
  rfl

/-- At most five for each message. -/
theorem work_le (d : Dart) (e : Engine) : e.work d ≤ 5 * e.messages.length := by
  have hsum : ∀ ms : List Msg, (ms.map (price (fun _ => 1) 1)).sum = 5 * ms.length := by
    intro ms
    induction ms with
    | nil => rfl
    | cons m ms ih =>
        have hprice : price (fun _ => 1) 1 m = 5 := rfl
        rw [List.map_cons, List.sum_cons, ih, hprice, List.length_cons]
        omega
  have hsplit : e.messages.length = e.queued.length + e.pending.toList.length := by
    unfold Engine.messages Engine.queued stored
    rw [List.append_nil, List.length_append]
  unfold Engine.work Engine.left Engine.budget
  rw [hsum, hsplit]
  omega

/-- **Every message comes to its end** once nothing more is sent, if no allocation has lost bits
of a length before. From any such state of an endpoint, in any order of received bytes and calls
of the time handler: if the peer is ready whenever the time handler is called, and these calls
are `DART_RESPONSE_TIMER_VAL` apart, and not as far that the clock comes round, then after forty
of them for each message that was open every message has been reported as done, failed or
abandoned. -/
theorem dart_drains {B : Build} {n : Nat} {d : Dart} (hd : (clockedSystem B n).Reachable d)
    {opened : List Msg} (hopen : openMessages d.log = some opened)
    {calls : List (Env × DartCall)} (hcalls : AllServe calls)
    (hspaced : (timeClocks calls).IsChain Spaced)
    (hmany : 40 * opened.length ≤ (timeClocks calls).length) :
    openMessages (dartCalls B d calls).log = some [] ∧
      dartIsSending B (dartCalls B d calls) = false := by
  obtain ⟨e, hkeeps, opened', hopen', hperm⟩ := dart_keeps hd.of_restrict
  obtain rfl : opened = opened' := Option.some.inj (hopen.symm.trans hopen')
  have hlast : ∀ c, (none : Option Clock) = some c → c.milis < 2 ^ 32 := by rintro c ⟨⟩
  obtain ⟨e', hkeeps', hbound⟩ := drain_run hd hkeeps hcalls hlast hspaced (.inl rfl)
  have hempty : e'.messages = [] := by
    by_contra hmessages
    have hrun := hbound hmessages
    have hwork := work_le d e
    rw [← hperm.length_eq] at hwork
    have hphase := phase_le d
    unfold Dart.distance at hrun
    omega
  have hsending := not_sending hkeeps'.1 hempty
  refine ⟨?_, hsending⟩
  -- the engine that the log speaks of is empty, too
  obtain ⟨e₁, ⟨hrep₁, -⟩, opened₁, hopen₁, hperm₁⟩ :=
    dart_keeps (allServe_reachable hd hcalls).of_restrict
  have hempty₁ : e₁.messages = [] := by
    unfold dartIsSending at hsending
    simp only [Bool.or_eq_false_iff, decide_eq_false_iff_not, not_not,
      Option.isSome_eq_false_iff, Option.isNone_iff_eq_none] at hsending
    exact messages_nil hrep₁ hsending.2 hsending.1.2
  rw [hempty₁] at hperm₁
  rw [hopen₁, hperm₁.eq_nil]

/-- A report is queued while the peer is not ready. The peer comes back and never answers; a
sync byte is all that is received. -/
theorem dart_drains_unanswered :
    let B : Build := ⟨.one, .one, .one⟩
    let d := dartCall B (.plain 7 false) (dartFresh 512 64) (.send 1 (fun _ => 0x11) 1)
    let calls : List (Env × DartCall) := (.plain 8 false, .receive dartSync) ::
      (List.range 40).map fun k => (.plain (3000 * (k + 1)) true, .time)
    openMessages d.log = some [⟨20, 0x11, [0x11]⟩] ∧
      openMessages (dartCalls B d calls).log = some [] := by
  intro B d calls
  have hd : (clockedSystem B 512).Reachable d := by
    refine TSys.Reachable.step (i := (Env.plain 7 false, DartCall.send 1 (fun _ => 0x11) 1))
      (.init (dartFresh_initial (by decide : 512 < 2 ^ 16) (by decide : 64 < 2 ^ 16)))
      ⟨by decide, ?_, by decide, rfl⟩
    show SendFits B (dartFresh 512 64) 1
    decide +kernel
  have hopen : openMessages d.log = some [⟨20, 0x11, [0x11]⟩] := by decide +kernel
  have hcalls : AllServe calls := by
    intro c hc
    rcases List.mem_cons.mp hc with rfl | hc
    · exact ⟨by decide, trivial⟩
    · obtain ⟨k, hk, rfl⟩ := List.mem_map.mp hc
      have hlt := List.mem_range.mp hk
      refine ⟨?_, rfl⟩
      show 3000 * (k + 1) < 2 ^ 32
      omega
  exact ⟨hopen, (dart_drains hd hopen hcalls (by decide +kernel) (by decide +kernel)).1⟩

end EmbeddedMx
