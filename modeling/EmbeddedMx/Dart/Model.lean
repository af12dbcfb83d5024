import EmbeddedMx.Dart.Frame
import EmbeddedMx.Timer

/-!
# The dart link endpoint (`dart.c`)

`struct dart` queues messages by priority, transfers the first one as a frame,
waits for the one byte acknowledge, and keeps an acknowledged request until its
response arrives. The pool of the message nodes is raw memory.

What the C functions hand to the outside is recorded in `log`: bytes given to
the uart, levels of the WRK pin and callbacks. The log also marks points of the
code that have no output of their own (a message accepted, selected, resent or
promoted, a transfer given up, a control byte taken): nothing reads these marks.

What the outside supplies during a call is its `Env`. The WRK pin is an output
and reads back the level last set.
-/

namespace EmbeddedMx

open EmbeddedMx.Lib

/-! ## Constants -/

def dartByteTimerVal : Nat := 30
def dartClosingTimerVal : Nat := 50
def dartChillTimerVal : Nat := 100
def dartAckTimerVal : Nat := 300
def dartWakeupTimerVal : Nat := 500
def dartResponseTimerVal : Nat := 3000

def dartWakeupAttempts : Nat := 3
def dartTxAttempts : Nat := 3

/-- `enum dart_status_e`, the values the modelled functions return. -/
inductive DartStatus
  | success
  | pending
  | waiting
  | idle
  | errNotPossible
  | errNoMemory
deriving DecidableEq, Repr

def dartMsgPrioResponse : Nat := msgPrioHigh
def dartMsgPrioReport : Nat := msgPrioNormal
def dartMsgPrioRequest : Nat := msgPrioLow
def dartMsgPrioAny : Nat := msgPrioAny

/-- `enum dart_callback_code_e` -/
inductive Clbk
  | idle
  | waiting
  | transferDone
  | transferFailure
  | transferComplete
  | transferIncomplete
  | transferCorrupted
  | transferImpossible
  | messageReceived
  | messageAbandoned
deriving DecidableEq, Repr

/-! ## Events -/

/-- The first parameter of a callback: `NULL`, `&msg_ptr->msg`, or the data in
the receive buffer with the type field read there. -/
inductive Param
  | null
  | stored (m : Msg)
  | rx (type : Nat) (data : List UInt8)
deriving DecidableEq, Repr

inductive Event
  /-- `dart_uart_send` -/
  | uart (bytes : List UInt8)
  /-- `dart_pin_set_state(DART_WRK_PIN, ..)` -/
  | pin (state : Bool)
  /-- `self->callback(code, param1, param2, ..)` -/
  | callback (code : Clbk) (param1 : Param) (param2 : Nat)
  /-- Mark: a message was pushed on the queue. -/
  | accept (prio : Nat) (m : Msg)
  /-- Mark: a message was selected for transfer. -/
  | start (m : Msg)
  /-- Mark: the message in transfer is sent again. -/
  | retry (m : Msg)
  /-- Mark: an acknowledged request became `pending_request`. -/
  | promote (m : Msg)
  /-- Mark: the transfer was given up because the peer is not ready. -/
  | abort
  /-- Mark: a received byte was taken for a control byte. -/
  | control (ch : UInt8)
deriving DecidableEq, Repr

/-- What the outside supplies during a call: the clock, the RDY pin, the
deferred message callback (its result and the messages it pushes), and what the
callback does to the received message it is given. -/
structure Env where
  clock : Clock
  rdy : Bool
  deferred : Option (Nat → Bool × List (List UInt8))
  received : Mem → Mem

/-! ## `struct dart` -/

structure Dart where
  heap : Heap
  queue : MsgQueue
  transfering : Option (Fin msgPrioLength)
  pendingRequest : Nat
  wakeupTimer : Timer
  wakeupAttempts : Nat
  txAckTimer : Timer
  txResponseTimer : Timer
  txAttempts : Nat
  rxBuffer : Mem
  rxBufferSize : Nat
  rxBufferBytes : Nat
  rxByteTimer : Timer
  closingTimer : Timer
  running : Bool
  wrk : Bool
  log : List Event

namespace Dart

def emit (d : Dart) (e : Event) : Dart := { d with log := d.log ++ [e] }

@[simp] theorem log_emit (d : Dart) (e : Event) : (d.emit e).log = d.log ++ [e] := rfl

/-- `dart_callback` -/
def callback (d : Dart) (code : Clbk) (param1 : Param) (param2 : Nat) : Dart :=
  d.emit (.callback code param1 param2)

/-- `dart_callback(self, code, NULL, NULL)` -/
def notify (d : Dart) (code : Clbk) : Dart := d.callback code .null 0

/-- `dart_pin_set_state(DART_WRK_PIN, state)` -/
def setWrk (d : Dart) (state : Bool) : Dart := { d with wrk := state }.emit (.pin state)

/-- The message in the node `p`. -/
def msgAt (B : Build) (d : Dart) (p : Nat) : Msg := nodeMsg B.msgtypeSize d.heap.mem p

end Dart

/-- Reset module. -/
def dartReset (self : Dart) : Dart :=
  { self with
    transfering := none
    pendingRequest := 0
    wakeupAttempts := 0
    wakeupTimer := timerStop
    txAttempts := 0
    txAckTimer := timerStop
    txResponseTimer := timerStop
    rxBufferBytes := 0
    rxByteTimer := timerStop
    closingTimer := timerStop
    queue := msgQueueInit
    heap := cbaReset self.heap }

/-- Initialize module. -/
def dartInit (self : Dart) (mpool mpoolSize : Nat) (rxBuffer : Mem) (rxBufferSize : Nat) : Dart :=
  let self := dartReset self
  { self with
    heap := cbaInit self.heap.mem mpool mpoolSize
    rxBuffer := rxBuffer
    rxBufferSize := rxBufferSize
    running := true
    log := [] }

/-- Find non empty message queue. -/
def dartFindNextMessageQueue (B : Build) (self : Dart) : Option (Fin msgPrioLength) :=
  (List.finRange msgPrioLength).find? fun i =>
    let list := self.queue i
    if msgListLength list > 0 then
      let p := msgListPeek list
      -- currently waiting for response, request could not be sent now
      !(self.pendingRequest ≠ 0 ∧
        nodeType B.msgtypeSize self.heap.mem p &&& msgTypeMask B.msgtypeSize =
          msgRequest B.msgtypeSize)
    else false

/-- Finalize and clean transferred message. -/
def dartFinalizeTransfer (self : Dart) : Dart :=
  match self.transfering with
  | none => self
  | some i =>
      let r := msgListPop (self.queue i) self.heap.mem
      let self := { self with queue := Function.update self.queue i r.1 }
      let self := if r.2 ≠ 0 then { self with heap := msgPtrFree self.heap r.2 } else self
      { self with transfering := none }

/-! ## Sending -/

/-- Transfer buffer through uart. -/
def dartPush (self : Dart) (buffer : List UInt8) : Dart := self.emit (.uart buffer)

/-- Transfer single byte. -/
def dartPushByte (self : Dart) (byte : UInt8) : Dart := dartPush self [byte]

/-- Compose and transfer frame based on given message data. -/
def dartPushFrame (B : Build) (self : Dart) (data : List UInt8) : Dart :=
  dartPush self (dartFrame B data)

/-- Push message object: the `len` bytes at `p` are converted to `dart_len_t`. -/
def dartPushMsg (B : Build) (self : Dart) (p len : Nat) : Dart :=
  dartPushFrame B self (self.heap.mem.read p (B.toLen len))

/-- Deferred message callback caller; the callback pushes its messages with
`dart_push_msg`. -/
def dartDeferredMsgCallback (B : Build) (env : Env) (self : Dart) (p : Nat) : Dart × Bool :=
  match env.deferred with
  | none => (self, false)
  | some callback =>
      let r := callback (nodeType B.msgtypeSize self.heap.mem p)
      (r.2.foldl (fun self data => dartPushFrame B self data) self, r.1)

/-- Transfer message object. -/
def dartTransferMsg (B : Build) (env : Env) (self : Dart) (p : Nat) : Dart :=
  let r :=
    if nodeLength self.heap.mem p = sizeofMsg B.msgtypeSize then
      dartDeferredMsgCallback B env self p
    else (self, false)
  let self :=
    if r.2 then r.1 else dartPushMsg B r.1 (p + offsetofMsg) (nodeLength r.1.heap.mem p)
  { self with txAckTimer := timerStart env.clock timerMs dartAckTimerVal }

/-- The first block of `dart_trigger_transfer`: raise the WRK pin, unless the
receiver has not responded to the last attempts. -/
def dartWakeup (env : Env) (self : Dart) : Dart × Bool :=
  if self.wrk then (self, true)
  else
    let attempts := self.wakeupAttempts
    let self := { self with wakeupAttempts := (attempts + 1) % 256 }
    if attempts < dartWakeupAttempts then
      let self := self.setWrk true
      (if timerRunning self.wakeupTimer then self
       else { self with wakeupTimer := timerStart env.clock timerMs dartWakeupTimerVal }, true)
    else ({ self with wakeupAttempts := 0 }.notify .transferImpossible, false)

/-- The last block of `dart_trigger_transfer`: select the next message. -/
def dartSelect (B : Build) (env : Env) (self : Dart) : Dart × DartStatus :=
  match dartFindNextMessageQueue B self with
  | none => (self, if self.pendingRequest ≠ 0 then .pending else .idle)
  | some i =>
      let self :=
        { self with
          transfering := some i
          txAttempts := 0
          wakeupAttempts := 0
          closingTimer := timerStop
          wakeupTimer := timerStop }
      let p := msgListPeek (self.queue i)
      (dartTransferMsg B env (self.emit (.start (self.msgAt B p))) p, .success)

/-- Trigger new transfer. -/
def dartTriggerTransfer (B : Build) (env : Env) (self : Dart) : Dart × DartStatus :=
  if self.transfering.isSome then (self, .pending)
  else
    let r := dartWakeup env self
    if r.2 then
      if env.rdy then dartSelect B env r.1
      else (r.1.notify .waiting, .waiting)
    else (r.1, .errNotPossible)

/-- Trigger new transfer message; notify if there are no more pending messages. -/
def dartTriggerNextTransfer (B : Build) (env : Env) (self : Dart) : Dart :=
  let r := dartTriggerTransfer B env self
  if r.1.pendingRequest = 0 ∧ r.2 = .idle then r.1.notify .transferComplete else r.1

/-- Transfer current message again; notify in case of permanent failure. -/
def dartRetryTransfer (B : Build) (env : Env) (self : Dart) : Dart :=
  match self.transfering with
  | none => self
  | some i =>
      let p := msgListPeek (self.queue i)
      if p = 0 then self
      else
        let self :=
          { self with txAckTimer := timerStop, txAttempts := (self.txAttempts + 1) % 256 }
        if self.txAttempts < dartTxAttempts then
          dartTransferMsg B env (self.emit (.retry (self.msgAt B p))) p
        else
          let self :=
            self.callback .transferFailure (.stored (self.msgAt B p)) (nodeLength self.heap.mem p)
          dartTriggerNextTransfer B env (dartFinalizeTransfer self)

/-- The request branch of `dart_acknowledge_msg`: wait for the response. -/
def dartAwaitResponse (env : Env) (self : Dart) (i : Fin msgPrioLength) : Dart :=
  let r := msgListPop (self.queue i) self.heap.mem
  { self with
    txResponseTimer := timerStart env.clock timerMs dartResponseTimerVal
    queue := Function.update self.queue i r.1
    pendingRequest := r.2
    transfering := none }

/-- Acknowledge current message; a request becomes the pending one. -/
def dartAcknowledgeMsg (B : Build) (env : Env) (self : Dart) : Dart :=
  match self.transfering with
  | none => self
  | some i =>
      let p := msgListPeek (self.queue i)
      if p = 0 then self
      else
        let self := { self with txAckTimer := timerStop }
        let self :=
          if nodeType B.msgtypeSize self.heap.mem p &&& msgTypeMask B.msgtypeSize =
              msgRequest B.msgtypeSize then
            dartAwaitResponse env (self.emit (.promote (self.msgAt B p))) i
          else
            self.callback .transferDone (.stored (self.msgAt B p)) (nodeLength self.heap.mem p)
        dartTriggerNextTransfer B env (dartFinalizeTransfer self)

/-! ## Pending requests -/

/-- Finalize and clean pending request message. -/
def dartFinalizeRequestMsg (B : Build) (env : Env) (self : Dart) : Dart :=
  dartTriggerNextTransfer B env
    { self with
      txResponseTimer := timerStop
      heap := cbaFree self.heap self.pendingRequest
      pendingRequest := 0 }

/-- Abandon pending request message. -/
def dartAbandonRequestMsg (B : Build) (env : Env) (self : Dart) : Dart :=
  if self.pendingRequest ≠ 0 then
    let p := self.pendingRequest
    dartFinalizeRequestMsg B env
      (self.callback .messageAbandoned (.stored (self.msgAt B p)) (nodeLength self.heap.mem p))
  else self

/-! ## Receiving -/

/-- The second half of `dart_handle_received_msg`: check if the received message
is the expected response. -/
def dartCheckResponse (B : Build) (env : Env) (self : Dart) (type msgLen : Nat) : Dart :=
  let p := self.pendingRequest
  if p = 0 then self
  else if type &&& msgTypeMask B.msgtypeSize ≠ msgResponse B.msgtypeSize then self
  else if nodeType B.msgtypeSize self.heap.mem p &&& msgIdMask B.msgtypeSize ≠
      type &&& msgIdMask B.msgtypeSize then self
  else dartFinalizeRequestMsg B env (self.callback .transferDone (.stored (self.msgAt B p)) msgLen)

/-- Handle received data: `msgLen` bytes in the receive buffer. The callback may
overwrite the message it is given. -/
def dartHandleReceivedMsg (B : Build) (env : Env) (self : Dart) (msgLen : Nat) : Dart :=
  let type := self.rxBuffer.load B.dataIdx B.msgtypeSize.bytes
  let data := self.rxBuffer.read B.dataIdx msgLen
  let self := self.callback .messageReceived (.rx type data) msgLen
  dartCheckResponse B env { self with rxBuffer := env.received self.rxBuffer } type msgLen

/-- The byte timer check in front of `dart_handle_received_char`. -/
def dartRxTimeout (env : Env) (self : Dart) : Dart :=
  if timerRunning self.rxByteTimer && timerExpired self.rxByteTimer env.clock then
    { self.notify .transferIncomplete with rxByteTimer := timerStop, rxBufferBytes := 0 }
  else self

/-- Append the byte to the receive buffer. -/
def dartRxStore (env : Env) (self : Dart) (ch : UInt8) : Dart :=
  { self with
    closingTimer := timerStop
    rxByteTimer := timerRestart self.rxByteTimer env.clock
    rxBuffer := self.rxBuffer.write self.rxBufferBytes [ch]
    rxBufferBytes := u16 (self.rxBufferBytes + 1) }

/-- Drop what is in the receive buffer. -/
def dartRxDrop (self : Dart) : Dart :=
  { self with rxBufferBytes := 0, rxByteTimer := timerStop }

/-- The control bytes of `dart_handle_received_char`. -/
def dartHandleControl (B : Build) (env : Env) (self : Dart) (ch : UInt8) : Dart :=
  if ch = dartAck then dartAcknowledgeMsg B env (self.emit (.control ch))
  else if ch = dartBad then dartRetryTransfer B env (self.emit (.control ch))
  else if ch = dartCan then (dartTriggerTransfer B env (self.emit (.control ch))).1
  else self

/-- The frame in the receive buffer is complete: check and answer it. -/
def dartHandleFrame (B : Build) (env : Env) (self : Dart) (dataLen : Nat) : Dart :=
  let crcReceived := dartGetCrcValue B self.rxBuffer dataLen
  let crcCalculated := dartCalculateCrc B (self.rxBuffer.read B.dataIdx dataLen)
  if crcCalculated ≠ crcReceived then
    (dartPushByte self dartBad).notify .transferCorrupted
  else dartHandleReceivedMsg B env (dartPushByte self dartAck) dataLen

/-- Receiving handler. -/
def dartHandleReceivedChar (B : Build) (env : Env) (self : Dart) (ch : UInt8) : Dart :=
  let self := dartRxStore env (dartRxTimeout env self) ch
  if self.rxBufferBytes = 1 then
    if ch = dartSync then
      -- new message incoming
      let self := { self with rxByteTimer := timerStart env.clock timerMs dartByteTimerVal }
      if self.wrk then self else self.setWrk true
    else dartRxDrop (if self.wrk then dartHandleControl B env self ch else self)
  else if self.rxBufferBytes < B.lenBytes then self
  else
    let dataLen := dartGetDataLen B self.rxBuffer
    let frameLen := B.frameBytes dataLen
    if frameLen > self.rxBufferSize then
      -- frame length is not supported
      dartRxDrop (self.notify .transferCorrupted)
    else if self.rxBufferBytes < frameLen then self
    else dartRxDrop (dartHandleFrame B env self dataLen)

/-! ## Time -/

/-- The branch of `dart_handle_time` with nothing to transfer and nothing
arriving: close the connection, or open it if the opponent asks for it. -/
def dartHandleClosing (env : Env) (self : Dart) : Dart × DartStatus :=
  if self.wrk then
    if timerRunning self.closingTimer then
      if timerExpired self.closingTimer env.clock then
        ({ self.setWrk false with
            closingTimer := timerStart env.clock timerMs dartChillTimerVal }, .idle)
      else (self, .idle)
    else
      ({ self with closingTimer := timerStart env.clock timerMs dartClosingTimerVal }, .idle)
  else if timerRunning self.closingTimer then
    if timerExpired self.closingTimer env.clock then
      let self := { self with closingTimer := timerStop }
      (if env.rdy then self else self.notify .idle, .idle)
    else (self, .idle)
  else if env.rdy then (self.setWrk true, .pending)
  else (self, .idle)

/-- Time handler. -/
def dartHandleTime (B : Build) (env : Env) (self : Dart) : Dart × DartStatus :=
  let self :=
    if self.pendingRequest ≠ 0 ∧ timerExpired self.txResponseTimer env.clock then
      dartAbandonRequestMsg B env self
    else self
  if self.transfering.isSome then
    if timerExpired self.txAckTimer env.clock then
      let self := { self with txAckTimer := timerStop }
      if env.rdy then (dartRetryTransfer B env self, .pending)
      else ({ self.emit .abort with transfering := none }, .pending)
    else (self, .pending)
  else if (dartFindNextMessageQueue B self).isSome then
    if timerExpired self.wakeupTimer env.clock then
      ({ self with wakeupTimer := timerStop }.setWrk false, .waiting)
    else dartTriggerTransfer B env self
  else if self.pendingRequest = 0 ∧ self.rxBufferBytes = 0 then dartHandleClosing env self
  else (self, .pending)

/-! ## Accepting messages -/

/-- Guess priority from msg type; the parameter is a `uint8_t`. -/
def dartGuessPriority (B : Build) (msgType : Nat) : Nat :=
  let kind := msgType % 256 &&& msgTypeMask B.msgtypeSize
  if kind = msgReport then dartMsgPrioReport
  else if kind = msgRequest B.msgtypeSize then dartMsgPrioRequest
  else if kind = msgResponse B.msgtypeSize then dartMsgPrioResponse
  else dartMsgPrioAny

/-- `dart_send_msg_ex` after the allocation of the node `p` in `heap`: fill it
with the `msgLen` bytes at the start of `msg` and push it. -/
def dartEnqueue (B : Build) (self : Dart) (prio : Nat) (heap : Heap) (p : Nat) (msg : Mem)
    (msgLen : Nat) : Dart :=
  let mem := heap.mem.copy (p + offsetofMsg) msg 0 msgLen
  let mem := setNodeLength mem p msgLen
  let r := msgQueuePush self.queue mem prio p
  let self := { self with heap := { heap with mem := r.2.1 }, queue := r.1 }
  self.emit (.accept prio (self.msgAt B p))

/-- Send message data: the `msgLen` bytes at the start of `msg`. -/
def dartSendMsgEx (B : Build) (env : Env) (self : Dart) (prio : Nat) (msg : Mem) (msgLen : Nat) :
    Dart × DartStatus :=
  if !self.running then (self, .errNotPossible)
  else
    let prio :=
      if prio = dartMsgPrioAny then dartGuessPriority B (msg.load 0 B.msgtypeSize.bytes) else prio
    if prio ≥ msgPrioLength then (self, .errNotPossible)
    else
      let r := msgPtrMalloc B.msgtypeSize self.heap msgLen
      if r.2 = 0 then ({ self with heap := r.1 }, .errNoMemory)
      else dartTriggerTransfer B env (dartEnqueue B self prio r.1 r.2 msg msgLen)

/-- Triggering during a transfer does nothing. -/
theorem dartTriggerNextTransfer_busy (B : Build) (env : Env) (d : Dart)
    (hbusy : d.transfering.isSome) : dartTriggerNextTransfer B env d = d := by
  have hpending : dartTriggerTransfer B env d = (d, .pending) := if_pos hbusy
  unfold dartTriggerNextTransfer
  rw [hpending]
  exact if_neg fun h => by cases h.2

end EmbeddedMx
