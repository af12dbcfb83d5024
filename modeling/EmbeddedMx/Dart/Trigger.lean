import EmbeddedMx.Dart.Endpoint

/-!
# How a transfer is triggered

`dart_trigger_transfer` ends in one of five ways (`TriggerOutcome`), and every
call of the endpoint that starts a transfer goes through it. Nothing here looks
into the pool: all of it holds in every state, whatever the memory contains.
-/

namespace EmbeddedMx

open EmbeddedMx.Lib

/-! ## Transfers -/

/-- `d` with `evs` sent and the ACK timer started. -/
def Dart.transferred (d : Dart) (env : Env) (evs : List Event) : Dart :=
  { d with
    log := d.log ++ evs
    txAckTimer := timerStart env.clock timerMs dartAckTimerVal }

/-- What is handed to the uart. -/
def Uarts (evs : List Event) : Prop := ∀ ev ∈ evs, ∃ bytes, ev = .uart bytes

theorem uarts_nil : Uarts [] := by
  intro ev hev
  cases hev

theorem Uarts.append {evs evs' : List Event} (h : Uarts evs) (h' : Uarts evs') :
    Uarts (evs ++ evs') := by
  intro ev hev
  rcases List.mem_append.mp hev with hev | hev
  · exact h ev hev
  · exact h' ev hev

/-- `dart_push_frame` for each of the messages. -/
theorem foldl_pushFrame_eq (B : Build) (msgs : List (List UInt8)) (d : Dart) :
    msgs.foldl (fun d data => dartPushFrame B d data) d =
      { d with log := d.log ++ msgs.map fun data => .uart (dartFrame B data) } := by
  induction msgs generalizing d with
  | nil => simp
  | cons data msgs ih =>
      rw [List.foldl_cons, ih]
      simp [dartPushFrame, dartPush, Dart.emit]

theorem dartDeferredMsgCallback_eq (B : Build) (env : Env) (d : Dart) (p : Nat) :
    ∃ evs, Uarts evs ∧ (dartDeferredMsgCallback B env d p).1 = { d with log := d.log ++ evs } := by
  unfold dartDeferredMsgCallback
  split
  · exact ⟨[], uarts_nil, by simp⟩
  · refine ⟨_, ?_, foldl_pushFrame_eq B _ d⟩
    intro ev hev
    obtain ⟨data, -, rfl⟩ := List.mem_map.mp hev
    exact ⟨_, rfl⟩

/-- `dart_transfer_msg` only sends, and starts the ACK timer. -/
theorem dartTransferMsg_eq (B : Build) (env : Env) (d : Dart) (p : Nat) :
    ∃ evs, Uarts evs ∧ dartTransferMsg B env d p = d.transferred env evs := by
  have hframe : ∀ d₁ : Dart, ∀ evs, Uarts evs → d₁ = { d with log := d.log ++ evs } →
      ∃ evs, Uarts evs ∧
        dartPushMsg B d₁ (p + offsetofMsg) (nodeLength d₁.heap.mem p) =
          { d with log := d.log ++ evs } := by
    rintro d₁ evs hevs rfl
    generalize hbytes : dartFrame B (d.heap.mem.read (p + offsetofMsg)
      (B.toLen (nodeLength d.heap.mem p))) = bytes
    refine ⟨evs ++ [.uart bytes], hevs.append ?_, ?_⟩
    · intro ev hev
      exact ⟨bytes, List.mem_singleton.mp hev⟩
    · rw [← List.append_assoc, ← hbytes]
      rfl
  obtain ⟨evs, hevs, heq⟩ := dartDeferredMsgCallback_eq B env d p
  unfold dartTransferMsg
  dsimp only
  split
  · split
    · exact ⟨evs, hevs, by rw [heq]; rfl⟩
    · obtain ⟨evs', hevs', heq'⟩ := hframe _ evs hevs heq
      exact ⟨evs', hevs', by rw [heq']; rfl⟩
  · obtain ⟨evs', hevs', heq'⟩ := hframe d [] uarts_nil (by simp)
    exact ⟨evs', hevs', by
      simp only [Bool.false_eq_true, if_false]
      rw [heq']
      rfl⟩

/-! ## Raising the WRK pin -/

/-- `d'` is `d` after the first block of `dart_trigger_transfer`, if that goes on:
the pin was high, or was raised with the wakeup timer running from now on. -/
inductive Woken (env : Env) (d : Dart) : Dart → Prop
  | high : d.wrk = true → Woken env d d
  | raised : d.wrk = false → d.wakeupAttempts < dartWakeupAttempts →
      Woken env d
        { d with
          wakeupAttempts := (d.wakeupAttempts + 1) % 256
          wrk := true
          wakeupTimer :=
            if timerRunning d.wakeupTimer then d.wakeupTimer
            else timerStart env.clock timerMs dartWakeupTimerVal
          log := d.log ++ [.pin true] }

/-- `d` after the receiver did not respond to the last attempts. -/
def Dart.unreachable (d : Dart) : Dart :=
  { d with
    wakeupAttempts := 0
    log := d.log ++ [.callback .transferImpossible .null 0] }

theorem dartWakeup_cases (env : Env) (d : Dart) :
    (∃ d', Woken env d d' ∧ dartWakeup env d = (d', true)) ∨
      d.wrk = false ∧ dartWakeupAttempts ≤ d.wakeupAttempts ∧
        dartWakeup env d = (d.unreachable, false) := by
  unfold dartWakeup
  by_cases hwrk : d.wrk = true
  · rw [if_pos hwrk]
    exact .inl ⟨d, .high hwrk, rfl⟩
  · rw [if_neg hwrk]
    have hlow : d.wrk = false := by simpa using hwrk
    dsimp only
    by_cases hattempts : d.wakeupAttempts < dartWakeupAttempts
    · rw [if_pos hattempts]
      refine .inl ⟨_, .raised hlow hattempts, ?_⟩
      cases htimer : timerRunning d.wakeupTimer with
      | true => simp [Dart.setWrk, Dart.emit, htimer]
      | false => simp [Dart.setWrk, Dart.emit, htimer]
    · rw [if_neg hattempts]
      exact .inr ⟨hlow, Nat.le_of_not_lt hattempts, rfl⟩

namespace Woken

variable {env : Env} {d d' : Dart}

theorem wrk (h : Woken env d d') : d'.wrk = true := by
  cases h with
  | high hwrk => exact hwrk
  | raised _ _ => rfl

/-- Nothing else changes. -/
theorem eq (h : Woken env d d') :
    d' = { d with
      wakeupAttempts := d'.wakeupAttempts
      wrk := true
      wakeupTimer := d'.wakeupTimer
      log := d'.log } := by
  cases h with
  | high hwrk => rw [← hwrk]
  | raised _ _ => rfl

theorem log (h : Woken env d d') : ∃ evs, d'.log = d.log ++ evs ∧ ∀ ev ∈ evs, ev = .pin true := by
  cases h with
  | high _ => exact ⟨[], (List.append_nil _).symm, by simp⟩
  | raised _ _ => exact ⟨[.pin true], rfl, by simp⟩

/-- With the pin high nothing happens. -/
theorem of_high (h : Woken env d d') (hwrk : d.wrk = true) : d' = d := by
  cases h with
  | high _ => rfl
  | raised hlow _ =>
      rw [hwrk] at hlow
      cases hlow

/-- Raising the pin leaves the wakeup timer running. -/
theorem running (h : Woken env d d') (hlow : d.wrk = false) :
    timerRunning d'.wakeupTimer = true := by
  cases h with
  | high hwrk =>
      rw [hwrk] at hlow
      cases hlow
  | raised _ _ =>
      show timerRunning (if timerRunning d.wakeupTimer then _ else _) = true
      split
      · assumption
      · rfl

end Woken

/-! ## The outcomes -/

/-- `d` with the transfer of the first message of list `i` started. -/
def Dart.started (B : Build) (d : Dart) (env : Env) (i : Fin msgPrioLength) (evs : List Event) :
    Dart :=
  { d with
    transfering := some i
    txAttempts := 0
    wakeupAttempts := 0
    closingTimer := timerStop
    wakeupTimer := timerStop
    txAckTimer := timerStart env.clock timerMs dartAckTimerVal
    log := d.log ++ .start (d.msgAt B (msgListPeek (d.queue i))) :: evs }

/-- The ways `dart_trigger_transfer` ends. -/
inductive TriggerOutcome (B : Build) (env : Env) (d : Dart) : Dart × DartStatus → Prop
  | busy : d.transfering.isSome → TriggerOutcome B env d (d, .pending)
  | impossible : d.transfering = none → d.wrk = false → dartWakeupAttempts ≤ d.wakeupAttempts →
      TriggerOutcome B env d (d.unreachable, .errNotPossible)
  | waiting {d'} : d.transfering = none → Woken env d d' → env.rdy = false →
      TriggerOutcome B env d (d'.notify .waiting, .waiting)
  | nothing {d'} : d.transfering = none → Woken env d d' → env.rdy = true →
      dartFindNextMessageQueue B d = none →
      TriggerOutcome B env d (d', if d.pendingRequest ≠ 0 then .pending else .idle)
  | started {d' i evs} : d.transfering = none → Woken env d d' → env.rdy = true →
      dartFindNextMessageQueue B d = some i → Uarts evs →
      TriggerOutcome B env d (d'.started B env i evs, .success)

/-- The choice depends on the queue, the pending request and the pool. -/
theorem dartFindNextMessageQueue_congr (B : Build) {d d' : Dart} (hqueue : d'.queue = d.queue)
    (hheap : d'.heap = d.heap) (hpending : d'.pendingRequest = d.pendingRequest) :
    dartFindNextMessageQueue B d' = dartFindNextMessageQueue B d := by
  unfold dartFindNextMessageQueue
  rw [hqueue, hheap, hpending]

theorem Woken.find {env : Env} {d d' : Dart} (h : Woken env d d') (B : Build) :
    dartFindNextMessageQueue B d' = dartFindNextMessageQueue B d := by
  rw [h.eq]
  exact dartFindNextMessageQueue_congr B rfl rfl rfl

theorem dartSelect_none {B : Build} (env : Env) {d : Dart}
    (h : dartFindNextMessageQueue B d = none) :
    dartSelect B env d = (d, if d.pendingRequest ≠ 0 then .pending else .idle) := by
  unfold dartSelect
  rw [h]

theorem dartSelect_some {B : Build} (env : Env) {d : Dart} {i : Fin msgPrioLength}
    (h : dartFindNextMessageQueue B d = some i) :
    ∃ evs, Uarts evs ∧ dartSelect B env d = (d.started B env i evs, .success) := by
  unfold dartSelect
  rw [h]
  dsimp only
  generalize hd₁ : Dart.emit _ _ = d₁
  obtain ⟨evs, hevs, htransfer⟩ := dartTransferMsg_eq B env d₁ (msgListPeek (d.queue i))
  refine ⟨evs, hevs, ?_⟩
  rw [htransfer, ← hd₁]
  simp only [Dart.transferred, Dart.emit, List.append_assoc]
  rfl

theorem triggerOutcome (B : Build) (env : Env) (d : Dart) :
    TriggerOutcome B env d (dartTriggerTransfer B env d) := by
  unfold dartTriggerTransfer
  by_cases hbusy : d.transfering.isSome
  · rw [if_pos hbusy]
    exact .busy hbusy
  · rw [if_neg hbusy]
    have hidle : d.transfering = none := by simpa using hbusy
    dsimp only
    rcases dartWakeup_cases env d with ⟨d', hwoken, heq⟩ | ⟨hlow, hattempts, heq⟩
    · rw [heq]
      dsimp only
      rw [if_pos rfl]
      cases hrdy : env.rdy with
      | false => exact .waiting hidle hwoken hrdy
      | true =>
          rw [if_pos rfl]
          have hpending : d'.pendingRequest = d.pendingRequest := by rw [hwoken.eq]
          cases hfind : dartFindNextMessageQueue B d' with
          | none =>
              rw [dartSelect_none env hfind, hpending]
              exact .nothing hidle hwoken hrdy (hwoken.find B ▸ hfind)
          | some i =>
              obtain ⟨evs, hevs, hselect⟩ := dartSelect_some env hfind
              rw [hselect]
              exact .started hidle hwoken hrdy (hwoken.find B ▸ hfind) hevs
    · rw [heq]
      exact .impossible hidle hlow hattempts

/-- What triggering may show. -/
inductive Event.OfTrigger : Event → Prop
  | raise : OfTrigger (.pin true)
  | impossible : OfTrigger (.callback .transferImpossible .null 0)
  | waiting : OfTrigger (.callback .waiting .null 0)
  | start (m) : OfTrigger (.start m)
  | uart (bytes) : OfTrigger (.uart bytes)

theorem Woken.events {env : Env} {d d' : Dart} (h : Woken env d d') :
    ∃ evs, d'.log = d.log ++ evs ∧ ∀ ev ∈ evs, ev.OfTrigger := by
  obtain ⟨evs, hlog, hevs⟩ := h.log
  refine ⟨evs, hlog, fun ev hev => ?_⟩
  rw [hevs ev hev]
  exact .raise

/-- Triggering touches neither the lists nor the pool nor the pending request. -/
theorem trigger_events (B : Build) (env : Env) (d : Dart) :
    (∃ evs, (dartTriggerTransfer B env d).1.log = d.log ++ evs ∧ ∀ ev ∈ evs, ev.OfTrigger) ∧
      (dartTriggerTransfer B env d).1.queue = d.queue ∧
      (dartTriggerTransfer B env d).1.heap = d.heap ∧
      (dartTriggerTransfer B env d).1.pendingRequest = d.pendingRequest := by
  have houtcome := triggerOutcome B env d
  generalize dartTriggerTransfer B env d = r at houtcome ⊢
  cases houtcome with
  | busy _ => exact ⟨⟨[], (List.append_nil _).symm, by simp⟩, rfl, rfl, rfl⟩
  | impossible _ _ _ => exact ⟨⟨[_], rfl, by simpa using .impossible⟩, rfl, rfl, rfl⟩
  | @waiting d' _ h _ =>
      obtain ⟨evs, hlog, hevs⟩ := h.events
      refine ⟨⟨evs ++ [.callback .waiting .null 0], ?_, ?_⟩, ?_⟩
      · rw [← List.append_assoc, ← hlog]
        rfl
      · intro ev hev
        rcases List.mem_append.mp hev with hev | hev
        · exact hevs ev hev
        · rw [List.mem_singleton.mp hev]
          exact .waiting
      · show d'.queue = _ ∧ d'.heap = _ ∧ d'.pendingRequest = _
        rw [h.eq]
        exact ⟨rfl, rfl, rfl⟩
  | nothing _ h _ _ =>
      refine ⟨h.events, ?_⟩
      rw [h.eq]
      exact ⟨rfl, rfl, rfl⟩
  | @started d' i uarts _ h _ _ huarts =>
      obtain ⟨evs, hlog, hevs⟩ := h.events
      refine ⟨⟨evs ++ .start (d'.msgAt B (msgListPeek (d'.queue i))) :: uarts, ?_, ?_⟩, ?_⟩
      · rw [← List.append_assoc, ← hlog]
        rfl
      · intro ev hev
        rcases List.mem_append.mp hev with hev | hev
        · exact hevs ev hev
        · rcases List.mem_cons.mp hev with rfl | hev
          · exact .start _
          · obtain ⟨bytes, rfl⟩ := huarts ev hev
            exact .uart bytes
      · show d'.queue = _ ∧ d'.heap = _ ∧ d'.pendingRequest = _
        rw [h.eq]
        exact ⟨rfl, rfl, rfl⟩

/-! ## Receiving -/

/-- Only fields change that belong to receiving, closing and waking. -/
structure SameTransfer (d d' : Dart) : Prop extends SameStore d d' where
  txAttempts : d'.txAttempts = d.txAttempts
  txAckTimer : d'.txAckTimer = d.txAckTimer
  txResponseTimer : d'.txResponseTimer = d.txResponseTimer
  wrk : d'.wrk = d.wrk
  log : d'.log = d.log

/-- What receiving shows by itself. -/
inductive Event.OfReceive : Event → Prop
  | uart (bytes) : OfReceive (.uart bytes)
  | callback {code} (param len) : code ≠ .transferFailure → OfReceive (.callback code param len)

/-- A property of the transfer that receiving a byte keeps, if it is kept by what the byte
may lead to: a control byte is handled, or a pending request is finished. -/
structure KeptByReceiving (B : Build) (env : Env) (P : Dart → Prop) : Prop where
  same : ∀ {d d'}, P d → SameTransfer d d' → P d'
  emit : ∀ {d ev}, Event.OfReceive ev → P d → P (d.emit ev)
  raise : ∀ {d}, P d → P (d.setWrk true)
  control : ∀ {d} ch, P d → P (dartHandleControl B env d ch)
  finish : ∀ {d}, P d → P (dartFinalizeRequestMsg B env d)

namespace KeptByReceiving

variable {B : Build} {env : Env} {P : Dart → Prop} {d : Dart}

theorem checkResponse (h : KeptByReceiving B env P) (hd : P d) (type msgLen : Nat) :
    P (dartCheckResponse B env d type msgLen) := by
  unfold dartCheckResponse
  dsimp only
  split
  · exact hd
  · split
    · exact hd
    · split
      · exact hd
      · exact h.finish (h.emit (.callback _ _ (by decide)) hd)

theorem frame (h : KeptByReceiving B env P) (hd : P d) (dataLen : Nat) :
    P (dartHandleFrame B env d dataLen) := by
  unfold dartHandleFrame
  dsimp only
  split
  · exact h.emit (.callback _ _ (by decide)) (h.emit (.uart _) hd)
  · unfold dartHandleReceivedMsg
    refine h.checkResponse ?_ _ _
    have hack : P (dartPushByte d dartAck) := h.emit (.uart _) hd
    have hreported : ∀ param,
        P ((dartPushByte d dartAck).callback .messageReceived param dataLen) :=
      fun _ => h.emit (.callback _ _ (by decide)) hack
    exact h.same (hreported _) ⟨⟨rfl, rfl, rfl, rfl⟩, rfl, rfl, rfl, rfl, rfl⟩

theorem store (h : KeptByReceiving B env P) (hd : P d) (ch : UInt8) :
    P (dartRxStore env (dartRxTimeout env d) ch) := by
  have htimeout : P (dartRxTimeout env d) := by
    unfold dartRxTimeout
    split
    · have hnotify : P (d.notify .transferIncomplete) :=
        h.emit (.callback _ _ (by decide)) hd
      exact h.same hnotify ⟨⟨rfl, rfl, rfl, rfl⟩, rfl, rfl, rfl, rfl, rfl⟩
    · exact hd
  exact h.same htimeout ⟨⟨rfl, rfl, rfl, rfl⟩, rfl, rfl, rfl, rfl, rfl⟩

/-- `dart_handle_received_char` -/
theorem received (h : KeptByReceiving B env P) (hd : P d) (ch : UInt8) :
    P (dartHandleReceivedChar B env d ch) := by
  have hstart := h.store hd ch
  unfold dartHandleReceivedChar
  generalize dartRxStore env (dartRxTimeout env d) ch = d₁ at hstart
  have hdrop : ∀ d₂, P d₂ → P (dartRxDrop d₂) :=
    fun _ h₂ => h.same h₂ ⟨⟨rfl, rfl, rfl, rfl⟩, rfl, rfl, rfl, rfl, rfl⟩
  have htimer : ∀ d₂, ∀ timer, P d₂ → P { d₂ with rxByteTimer := timer } :=
    fun _ _ h₂ => h.same h₂ ⟨⟨rfl, rfl, rfl, rfl⟩, rfl, rfl, rfl, rfl, rfl⟩
  dsimp only
  split
  · split
    · split
      · exact htimer _ _ hstart
      · exact htimer _ _ (h.raise hstart)
    · refine hdrop _ ?_
      split
      · exact h.control ch hstart
      · exact hstart
  · split
    · exact hstart
    · split
      · exact hdrop _ (h.emit (.callback _ _ (by decide)) hstart)
      · split
        · exact hstart
        · exact hdrop _ (h.frame hstart _)

end KeptByReceiving

end EmbeddedMx
