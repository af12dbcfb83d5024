import EmbeddedMx.Dart.Trigger

/-!
# Watched transfers

A message in transfer is watched by the ACK timer, a pending request by the
response timer, and the link is kept up for both (`Watch`). The invariant is
about pointers and timers only, so it holds in every run, also where the pool
is damaged; there the first message of a list may be `NULL`.
-/

namespace EmbeddedMx

open EmbeddedMx.Lib

/-! ## The message last sent -/

/-- The message a transfer mark is about. -/
def Event.sent : Event → Option Msg
  | .start m => some m
  | .retry m => some m
  | _ => none

/-- The message whose transfer was last started or repeated. -/
def lastSent (log : List Event) : Option Msg := (log.filterMap Event.sent).getLast?

theorem lastSent_append {log evs : List Event} (h : ∀ ev ∈ evs, ev.sent = none) :
    lastSent (log ++ evs) = lastSent log := by
  have hnil : evs.filterMap Event.sent = [] := List.filterMap_eq_nil_iff.mpr h
  rw [lastSent, List.filterMap_append, hnil, List.append_nil, lastSent]

/-- A mark, and what is sent for it. -/
theorem lastSent_mark {log evs : List Event} {ev : Event} {m : Msg} (hev : ev.sent = some m)
    (h : Uarts evs) : lastSent (log ++ ev :: evs) = some m := by
  have huart : ∀ ev ∈ evs, ev.sent = none := by
    intro ev hev
    obtain ⟨bytes, rfl⟩ := h ev hev
    rfl
  rw [← List.singleton_append, ← List.append_assoc, lastSent_append huart]
  simp [lastSent, hev]

theorem lastSent_mem {log : List Event} {m : Msg} (h : lastSent log = some m) :
    .start m ∈ log ∨ .retry m ∈ log := by
  obtain ⟨ev, hev, hsent⟩ := List.mem_filterMap.mp (List.mem_of_getLast? h)
  cases ev with
  | start m' =>
      cases hsent
      exact .inl hev
  | retry m' =>
      cases hsent
      exact .inr hev
  | _ => cases hsent

/-! ## The invariant -/

/-- Some list of the queue is not empty. -/
def Dart.Queued (d : Dart) : Prop := ∃ i, 0 < msgListLength (d.queue i)

/-- What watches a transfer and a pending request. -/
structure Watch (d : Dart) : Prop where
  wrk : d.transfering.isSome → d.wrk = true
  idle : d.transfering = none → timerRunning d.txAckTimer = false
  current : ∀ i, d.transfering = some i → 0 < msgListLength (d.queue i) ∧
    ∃ m, lastSent d.log = some m ∧
      (m.ptr = 0 ∨ m.ptr = msgListPeek (d.queue i) ∧ timerRunning d.txAckTimer = true)
  response : d.pendingRequest ≠ 0 ↔ timerRunning d.txResponseTimer = true
  supervised : d.pendingRequest ≠ 0 → d.wrk = true ∨ d.Queued

namespace Watch

variable {d d' : Dart}

/-- Without a transfer there is little to show. -/
theorem of_idle (hidle : d.transfering = none) (hack : timerRunning d.txAckTimer = false)
    (hresponse : d.pendingRequest ≠ 0 ↔ timerRunning d.txResponseTimer = true)
    (hsupervised : d.pendingRequest ≠ 0 → d.wrk = true ∨ d.Queued) : Watch d where
  wrk := by
    intro hbusy
    rw [hidle] at hbusy
    cases hbusy
  idle := fun _ => hack
  current := by
    intro i hi
    rw [hidle] at hi
    cases hi
  response := hresponse
  supervised := hsupervised

/-- Only fields change that are not watched. -/
theorem congr (h : Watch d) (hsame : (d'.transfering, d'.queue, d'.pendingRequest, d'.wrk) =
      (d.transfering, d.queue, d.pendingRequest, d.wrk))
    (htimers : (d'.txAckTimer, d'.txResponseTimer) = (d.txAckTimer, d.txResponseTimer))
    (hlog : lastSent d'.log = lastSent d.log) : Watch d' := by
  obtain ⟨htransfering, hqueue, hpending, hwrk⟩ : _ ∧ _ ∧ _ ∧ _ := by
    simpa only [Prod.mk.injEq] using hsame
  obtain ⟨hack, hresponse⟩ := Prod.mk.inj htimers
  refine ⟨?_, ?_, ?_, ?_, ?_⟩
  · rw [htransfering, hwrk]
    exact h.wrk
  · rw [htransfering, hack]
    exact h.idle
  · intro i hi
    rw [htransfering] at hi
    rw [hqueue, hlog, hack]
    exact h.current i hi
  · rw [hpending, hresponse]
    exact h.response
  · rw [hpending, hwrk, Dart.Queued, hqueue]
    exact h.supervised

theorem emit (h : Watch d) {ev : Event} (hev : ev.sent = none) : Watch (d.emit ev) :=
  h.congr rfl rfl (lastSent_append (by simpa using hev))

/-- Raising the WRK pin. -/
theorem setWrk (h : Watch d) : Watch (d.setWrk true) where
  wrk := fun _ => rfl
  idle := h.idle
  current := by
    intro i hi
    obtain ⟨hlen, m, hm, hptr⟩ := h.current i hi
    exact ⟨hlen, m, (lastSent_append (by simp [Event.sent])).trans hm, hptr⟩
  response := h.response
  supervised := fun _ => .inl rfl

/-- Lowering the WRK pin, if there is no pending request left alone. -/
theorem lower (h : Watch d) (hidle : d.transfering = none)
    (hqueued : d.pendingRequest ≠ 0 → d.Queued) : Watch (d.setWrk false) :=
  .of_idle hidle (h.idle hidle) h.response fun hpending => .inr (hqueued hpending)

end Watch

/-! ## Triggering -/

section Functions

variable {B : Build} {env : Env} {d d' : Dart}

theorem Woken.watch (h : Woken env d d') (hd : Watch d) (hidle : d.transfering = none) :
    Watch d' := by
  cases h with
  | high _ => exact hd
  | raised _ _ => exact .of_idle hidle (hd.idle hidle) hd.response fun _ => .inl rfl

/-- What `dart_find_next_message_queue` returns is not empty. -/
theorem find_queued {i : Fin msgPrioLength} (h : dartFindNextMessageQueue B d = some i) :
    0 < msgListLength (d.queue i) := by
  have hfound := List.find?_some h
  by_contra hlen
  rw [if_neg hlen] at hfound
  cases hfound

theorem watch_started {i : Fin msgPrioLength} {evs : List Event} (hd : Watch d)
    (hwrk : d.wrk = true)
    (hlen : 0 < msgListLength (d.queue i)) (hevs : Uarts evs) : Watch (d.started B env i evs) where
  wrk := fun _ => hwrk
  idle := by
    intro h
    cases h
  current := by
    rintro j ⟨⟩
    exact ⟨hlen, _, lastSent_mark rfl hevs, .inr ⟨rfl, rfl⟩⟩
  response := hd.response
  supervised := fun _ => .inl hwrk

/-- `dart_trigger_transfer` -/
theorem watch_trigger (B : Build) (env : Env) (hd : Watch d) :
    Watch (dartTriggerTransfer B env d).1 := by
  have houtcome := triggerOutcome B env d
  generalize dartTriggerTransfer B env d = r at houtcome ⊢
  cases houtcome with
  | busy _ => exact hd
  | impossible _ _ _ => exact hd.congr rfl rfl (lastSent_append (by simp [Event.sent]))
  | waiting hidle hwoken _ => exact (hwoken.watch hd hidle).emit rfl
  | nothing hidle hwoken _ _ => exact hwoken.watch hd hidle
  | started hidle hwoken _ hfind hevs =>
      refine watch_started (hwoken.watch hd hidle) hwoken.wrk ?_ hevs
      rw [← hwoken.find B] at hfind
      exact find_queued hfind

/-- `dart_trigger_next_transfer` -/
theorem watch_triggerNext (B : Build) (env : Env) (hd : Watch d) :
    Watch (dartTriggerNextTransfer B env d) := by
  unfold dartTriggerNextTransfer
  dsimp only
  split
  · exact (watch_trigger B env hd).emit rfl
  · exact watch_trigger B env hd

/-! ## Finishing messages -/

theorem dartFinalizeTransfer_transfering (d : Dart) :
    (dartFinalizeTransfer d).transfering = none := by
  unfold dartFinalizeTransfer
  split
  · assumption
  · rfl

/-- `dart_finalize_transfer` with the ACK timer stopped. -/
theorem watch_finalize (hack : timerRunning d.txAckTimer = false)
    (hwrk : d.transfering.isSome → d.wrk = true)
    (hresponse : d.pendingRequest ≠ 0 ↔ timerRunning d.txResponseTimer = true)
    (hsupervised : d.pendingRequest ≠ 0 → d.wrk = true ∨ d.Queued) :
    Watch (dartFinalizeTransfer d) := by
  cases htransfering : d.transfering with
  | none =>
      have hsame : dartFinalizeTransfer d = d := by
        unfold dartFinalizeTransfer
        rw [htransfering]
      rw [hsame]
      exact .of_idle htransfering hack hresponse hsupervised
  | some i =>
      have hhigh : d.wrk = true := hwrk (by rw [htransfering]; rfl)
      refine .of_idle (dartFinalizeTransfer_transfering d) ?_ ?_ ?_
      all_goals
        unfold dartFinalizeTransfer
        rw [htransfering]
        dsimp only
      · split <;> exact hack
      · split <;> exact hresponse
      · split <;> exact fun _ => .inl hhigh

/-- The message in transfer is sent once more. -/
theorem watch_resend (hd : Watch d) {i : Fin msgPrioLength} (hi : d.transfering = some i)
    {timer : Timer} {attempts : Nat} :
    Watch (dartTransferMsg B env
      (Dart.emit { d with txAckTimer := timer, txAttempts := attempts }
        (.retry (d.msgAt B (msgListPeek (d.queue i))))) (msgListPeek (d.queue i))) := by
  generalize hd₁ : Dart.emit { d with txAckTimer := timer, txAttempts := attempts } _ = d₁
  obtain ⟨evs, hevs, htransfer⟩ := dartTransferMsg_eq B env d₁ (msgListPeek (d.queue i))
  rw [htransfer, ← hd₁]
  have hhigh : d.wrk = true := hd.wrk (by rw [hi]; rfl)
  refine ⟨fun _ => hhigh, ?_, ?_, hd.response, hd.supervised⟩
  · intro hnone
    exact absurd (hi.symm.trans hnone) (Option.some_ne_none i)
  · intro j hj
    cases hi.symm.trans hj
    refine ⟨(hd.current i hi).1, d.msgAt B (msgListPeek (d.queue i)), ?_, .inr ⟨rfl, rfl⟩⟩
    show lastSent (d.log ++ [.retry _] ++ evs) = some _
    rw [List.append_assoc]
    exact lastSent_mark rfl hevs

/-- `dart_retry_transfer`, also with the ACK timer already stopped. -/
theorem watch_retry (B : Build) (env : Env) (hd : Watch d) {timer : Timer}
    (htimer : timer = d.txAckTimer ∨ timer = timerStop) :
    Watch (dartRetryTransfer B env { d with txAckTimer := timer }) := by
  unfold dartRetryTransfer
  split
  · rename_i hi
    refine .of_idle hi ?_ hd.response hd.supervised
    show timerRunning timer = false
    rcases htimer with rfl | rfl
    · exact hd.idle hi
    · rfl
  · rename_i i hi
    have hi : d.transfering = some i := hi
    have hhigh : d.wrk = true := hd.wrk (by rw [hi]; rfl)
    dsimp only
    split
    · rename_i hnull
      rcases htimer with rfl | rfl
      · exact hd
      · refine ⟨hd.wrk, fun hnone => ?_, ?_, hd.response, hd.supervised⟩
        · exact absurd (hi.symm.trans hnone) (Option.some_ne_none i)
        · intro j hj
          obtain ⟨hlen, m, hm, hptr⟩ := hd.current j hj
          cases hi.symm.trans hj
          refine ⟨hlen, m, hm, .inl ?_⟩
          rcases hptr with hzero | ⟨hpeek, _⟩
          · exact hzero
          · exact hpeek.trans hnull
    · split
      · exact watch_resend hd hi
      · refine watch_triggerNext B env (watch_finalize rfl (fun _ => hhigh) hd.response ?_)
        exact hd.supervised

theorem pop_ne_null {l : MsgList} {m : Mem} (h : msgListPeek l ≠ 0) : (msgListPop l m).2 ≠ 0 := by
  unfold msgListPop
  rw [msgListPeek] at h
  dsimp only
  rw [if_neg h]
  exact h

/-- `dart_acknowledge_msg` -/
theorem watch_acknowledge (B : Build) (env : Env) (hd : Watch d) :
    Watch (dartAcknowledgeMsg B env d) := by
  unfold dartAcknowledgeMsg
  cases hi : d.transfering with
  | none => exact hd
  | some i =>
      have hhigh : d.wrk = true := hd.wrk (by rw [hi]; rfl)
      dsimp only
      by_cases hnull : msgListPeek (d.queue i) = 0
      · rw [if_pos hnull]
        exact hd
      · rw [if_neg hnull]
        refine watch_triggerNext B env ?_
        split
        · -- the popped message is the one in front, which is not `NULL`
          refine watch_finalize rfl
              (fun h => by cases h) ⟨fun _ => rfl, fun _ => pop_ne_null hnull⟩ ?_
          exact fun _ => .inl hhigh
        · exact watch_finalize rfl (fun _ => hhigh) hd.response hd.supervised

/-- `dart_finalize_request_msg` -/
theorem watch_finalizeRequest (B : Build) (env : Env) (hd : Watch d) :
    Watch (dartFinalizeRequestMsg B env d) := by
  refine watch_triggerNext B env ⟨hd.wrk, hd.idle, hd.current, ?_, fun h => absurd rfl h⟩
  exact ⟨fun h => absurd rfl h, fun h => by cases h⟩

/-- `dart_abandon_request_msg` -/
theorem watch_abandon (B : Build) (env : Env) (hd : Watch d) :
    Watch (dartAbandonRequestMsg B env d) := by
  unfold dartAbandonRequestMsg
  split
  · exact watch_finalizeRequest B env (hd.emit rfl)
  · exact hd

/-! ## Calls -/

theorem watch_control (B : Build) (env : Env) (hd : Watch d) (ch : UInt8) :
    Watch (dartHandleControl B env d ch) := by
  have hemit : Watch (d.emit (.control ch)) := hd.emit rfl
  unfold dartHandleControl
  split
  · exact watch_acknowledge B env hemit
  · split
    · exact watch_retry B env hemit (.inl rfl)
    · split
      · exact watch_trigger B env hemit
      · exact hd

/-- Receiving a byte. -/
theorem watch_receiving (B : Build) (env : Env) : KeptByReceiving B env Watch where
  same hd h := hd.congr
    (by rw [h.transfering, h.queue, h.pendingRequest, h.wrk])
    (by rw [h.txAckTimer, h.txResponseTimer]) (by rw [h.log])
  emit h hd := by
    cases h with
    | uart _ => exact hd.emit rfl
    | callback _ _ _ => exact hd.emit rfl
  raise := Watch.setWrk
  control ch hd := watch_control B env hd ch
  finish := watch_finalizeRequest B env

theorem watch_closing (hd : Watch d) (hidle : d.transfering = none) (hnone : d.pendingRequest = 0) :
    Watch (dartHandleClosing env d).1 := by
  unfold dartHandleClosing
  split
  · split
    · split
      · exact (hd.lower hidle (absurd hnone)).congr rfl rfl rfl
      · exact hd
    · exact hd.congr rfl rfl rfl
  · split
    · split
      · have hstop : Watch { d with closingTimer := timerStop } := hd.congr rfl rfl rfl
        dsimp only
        split
        · exact hstop
        · exact hstop.emit rfl
      · exact hd
    · split
      · exact hd.setWrk
      · exact hd

/-- `dart_handle_time` -/
theorem watch_time (B : Build) (env : Env) (hd : Watch d) : Watch (dartHandleTime B env d).1 := by
  have habandon : Watch (if d.pendingRequest ≠ 0 ∧ timerExpired d.txResponseTimer env.clock then
      dartAbandonRequestMsg B env d else d) := by
    split
    · exact watch_abandon B env hd
    · exact hd
  unfold dartHandleTime
  generalize (if d.pendingRequest ≠ 0 ∧ timerExpired d.txResponseTimer env.clock then
    dartAbandonRequestMsg B env d else d) = d₁ at habandon
  dsimp only
  split
  · split
    · split
      · exact watch_retry B env habandon (.inr rfl)
      · refine .of_idle rfl rfl habandon.response ?_
        exact habandon.supervised
    · exact habandon
  · rename_i hbusy
    have hidle : d₁.transfering = none := by simpa using hbusy
    split
    · rename_i hfind
      split
      · obtain ⟨i, hi⟩ := Option.isSome_iff_exists.mp hfind
        have hstop : Watch { d₁ with wakeupTimer := timerStop } := habandon.congr rfl rfl rfl
        exact hstop.lower hidle fun _ => ⟨i, find_queued hi⟩
      · exact watch_trigger B env habandon
    · split
      · rename_i hquiet
        exact watch_closing habandon hidle hquiet.1
      · exact habandon

/-- Pushing a message on a list does not change which message is in front. -/
theorem enqueue_peek (d : Dart) (prio : Nat) (heap : Heap) (p : Nat) (msg : Mem) (msgLen : Nat)
    {i : Fin msgPrioLength} (h : msgListPeek (d.queue i) ≠ 0) :
    msgListPeek ((dartEnqueue B d prio heap p msg msgLen).queue i) = msgListPeek (d.queue i) := by
  unfold dartEnqueue
  dsimp only
  unfold msgQueuePush
  split
  · rename_i hprio
    show msgListPeek (Function.update d.queue _ _ i) = _
    by_cases heq : i = ⟨prio, hprio⟩
    · subst heq
      rw [Function.update_self]
      rw [msgListPeek] at h
      unfold msgListPush
      dsimp only
      rw [if_neg h]
      rfl
    · rw [Function.update_of_ne heq]
  · rfl

theorem enqueue_length (d : Dart) (prio : Nat) (heap : Heap) (p : Nat) (msg : Mem) (msgLen : Nat)
    (i : Fin msgPrioLength) :
    msgListLength (d.queue i) ≤
      msgListLength ((dartEnqueue B d prio heap p msg msgLen).queue i) := by
  unfold dartEnqueue
  dsimp only
  unfold msgQueuePush
  split
  · rename_i hprio
    show _ ≤ msgListLength (Function.update d.queue _ _ i)
    by_cases heq : i = ⟨prio, hprio⟩
    · subst heq
      rw [Function.update_self]
      exact Nat.le_succ _
    · rw [Function.update_of_ne heq]
  · exact Nat.le_refl _

theorem watch_enqueue (hd : Watch d) (prio : Nat) (heap : Heap) (p : Nat) (msg : Mem)
    (msgLen : Nat) :
    Watch (dartEnqueue B d prio heap p msg msgLen) := by
  have hlen := enqueue_length (B := B) d prio heap p msg msgLen
  refine ⟨hd.wrk, hd.idle, ?_, hd.response, ?_⟩
  · intro i hi
    obtain ⟨hpos, m, hm, hptr⟩ := hd.current i hi
    refine ⟨Nat.lt_of_lt_of_le hpos (hlen i), m,
      (lastSent_append (List.forall_mem_singleton.mpr rfl)).trans hm, ?_⟩
    rcases hptr with hzero | ⟨hpeek, hrunning⟩
    · exact .inl hzero
    · by_cases hnull : m.ptr = 0
      · exact .inl hnull
      · refine .inr ⟨hpeek.trans (enqueue_peek d prio heap p msg msgLen ?_).symm, hrunning⟩
        rw [← hpeek]
        exact hnull
  · intro hpending
    rcases hd.supervised hpending with hhigh | ⟨i, hi⟩
    · exact .inl hhigh
    · exact .inr ⟨i, Nat.lt_of_lt_of_le hi (hlen i)⟩

/-- `dart_send_msg_ex` -/
theorem watch_send (B : Build) (env : Env) (hd : Watch d) (prio : Nat) (msg : Mem) (msgLen : Nat) :
    Watch (dartSendMsgEx B env d prio msg msgLen).1 := by
  unfold dartSendMsgEx
  split
  · exact hd
  · dsimp only
    generalize (if prio = dartMsgPrioAny then
      dartGuessPriority B (msg.load 0 B.msgtypeSize.bytes) else prio) = prio
    split
    · exact hd
    · split
      · exact hd.congr rfl rfl rfl
      · exact watch_trigger B env (watch_enqueue hd _ _ _ _ _)

theorem watch_call (B : Build) (env : Env) (hd : Watch d) (call : DartCall) :
    Watch (dartCall B env d call) := by
  cases call with
  | send prio msg msgLen => exact watch_send B env hd prio msg msgLen
  | receive ch => exact (watch_receiving B env).received hd ch
  | time => exact watch_time B env hd

end Functions

/-- Transfers and requests are watched in every run. -/
theorem dart_watch (B : Build) (n : Nat) : (dartSystem B n).Invariant Watch := by
  apply TSys.Inductive.invariant
  constructor
  · rintro d ⟨d₀, mpool, rxBuffer, rxBufferSize, -, -, -, rfl⟩
    refine .of_idle rfl rfl ⟨fun h => absurd rfl h, fun h => by cases h⟩ fun h => absurd rfl h
  · rintro d ⟨env, call⟩ d' hd ⟨-, rfl⟩
    exact watch_call B env hd call

end EmbeddedMx
