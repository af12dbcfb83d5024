import EmbeddedMx.Message.Model
import Mathlib.Logic.Function.Basic

/-!
# The scheduler (`scheduler.c`, `process.c`)

Processes are protothreads in an intrusive list. `scheduler_run` polls the
processes that asked for it, takes one message from the message list, calls the
thread of its receiver (or all of them) and frees the message. Threads call
back: they send messages, poll, start and exit processes, and hand messages to
other processes on the spot.

So the functions that call threads are written as a machine with an explicit
stack. A `Frame` is a place in such a function, with the values of its local
variables; `execFrame` executes the code from there up to the next turn of a
loop or the next call. The four loops over the process list that call threads
share their frames. `next` pointers of processes are kept as they are: a
process that has left the list still points where it did, and a loop standing
on it goes on from there.

Processes are addresses, `NULL` is 0. There is one scheduler, `default_scheduler`,
so `proc->sched` is a flag: set, or `NULL`. The protothread's own resume point
(`proc->pt`) belongs to the thread. Process timers play no part here.
-/

namespace EmbeddedMx

open EmbeddedMx.Lib

/-! ## Constants -/

def processBroadcast : Nat := 0

def processSuccess : Int := 0
def processErrNoMemory : Int := -4

def ptExited : Int := 2
def ptEnded : Int := 3

def processEvInit : Nat := 0x00
def processEvPoll : Nat := 0x01
def processEvExit : Nat := 0x02
def processEvFinished : Nat := 0x03

/-! ## Processes and their threads -/

/-- `enum process_state_e` -/
inductive ProcessState
  | none
  | running
  | called
deriving DecidableEq, Repr

/-- `struct process` -/
structure Process where
  next : Nat
  sched : Bool
  state : ProcessState
  needspoll : Bool
deriving DecidableEq, Repr

/-- The initial value of a process (`PROCESS`). -/
def Process.initial : Process :=
  { next := 0, sched := false, state := .none, needspoll := false }

/-- The calls that create a message internally and post it. -/
inductive SendCall
  | msg (self : Nat) (msg : List UInt8)
  | p0 (self type : Nat)
  | p1 (self type : Nat) (param1 : UInt8)
  | p2 (self type : Nat) (param1 param2 : UInt8)
  | p3 (self type : Nat) (param1 param2 param3 : UInt8)
  | p4 (self type : Nat) (param1 param2 param3 param4 : UInt8)
  | data (self type : Nat) (data : List UInt8)
deriving DecidableEq, Repr

/-- Calls that work on processes, and `process_run`. -/
inductive ProcCall
  | poll (self : Nat)
  | start (self : Nat)
  | exit (self : Nat)
  | handleMsg (self : Nat) (msg : List UInt8)
  | run
deriving DecidableEq, Repr

/-- The message argument of a thread: `NULL`, a node of the pool, or an object
on the stack of the caller. -/
inductive MsgArg
  | null
  | node (ptr : Nat)
  | onStack (msg : List UInt8)
  | finished (process : Nat)
deriving DecidableEq, Repr

/-- What a thread does when it is called: it reads the message, sends, calls,
and returns. `user` is the memory of the application, which calls may change. -/
inductive ThreadProg (σ : Type)
  | ret (code : Int) (user : σ)
  | read (k : List UInt8 → ThreadProg σ)
  | send (c : SendCall) (user : σ) (k : σ → Int → ThreadProg σ)
  | call (c : ProcCall) (user : σ) (k : σ → ThreadProg σ)

/-- The application: the thread of each process (`NULL` for none), and what
`PT_INIT` does to the resume point of a process. -/
structure Firmware (σ : Type) where
  thread : Nat → Option (Nat → MsgArg → σ → ThreadProg σ)
  ptInit : Nat → σ → σ

/-! ## The scheduler's state -/

/-- A loop over the process list that calls threads. -/
inductive Loop
  /-- `exit_process`, informing the others -/
  | notify (proc fromprocess oldCurrent : Nat)
  /-- `scheduler_handle_msg` -/
  | handle (msg : List UInt8)
  /-- `scheduler_utilize_poll` -/
  | poll
  /-- `scheduler_utilize_message` -/
  | broadcast (msgPtr : Nat)
deriving DecidableEq, Repr

/-- A place in a function of the scheduler. -/
inductive Frame (σ : Type)
  /-- a thread, about to execute `prog` -/
  | thread (self : Nat) (msg : MsgArg) (prog : ThreadProg σ)
  /-- a thread, waiting for a call -/
  | resume (self : Nat) (msg : MsgArg) (k : σ → ThreadProg σ)
  /-- `call_process`, behind the call of the thread -/
  | called (proc ev caller : Nat)
  /-- a loop over the process list, about to look at `tmp` -/
  | loop (l : Loop) (tmp : Nat)
  /-- a loop over the process list, behind its body for `tmp` -/
  | loopNext (l : Loop) (tmp : Nat)
  /-- the body of the broadcast loop, behind the poll events -/
  | broadcastCall (msgPtr p : Nat)
  /-- `exit_process`, looking for the process -/
  | exitFind (proc fromprocess oldCurrent tmp : Nat)
  /-- `exit_process`, about to take the process out of the list -/
  | exitUnlink (proc oldCurrent : Nat)
  /-- `exit_process`, looking for the process before it -/
  | exitScan (proc oldCurrent tmp : Nat)
  /-- `scheduler_start_process`, looking for the process -/
  | startFind (proc tmp : Nat)
  /-- `scheduler_run`, behind the poll events -/
  | utilizeMessage
  /-- `scheduler_utilize_message`, behind the calls -/
  | msgFree (msgPtr : Nat)
  /-- `scheduler_run`, about to return -/
  | runEnd

/-- A message as its sender gave it. -/
structure Letter where
  receiver : Nat
  bytes : List UInt8
deriving DecidableEq, Repr

/-- The message in the node `p`. -/
def letterAt (m : Mem) (p : Nat) : Letter :=
  { receiver := nodePrivate m p, bytes := m.read (p + offsetofMsg) (nodeLength m p) }

/-- What can be seen of a run. -/
inductive SchedEvent
  /-- a send returned `status` -/
  | send (x : Letter) (status : Int)
  /-- `scheduler_run` was called -/
  | run
  /-- a message was taken from the list -/
  | take (x : Letter)
  /-- the list was empty -/
  | idle
  /-- `call_process` for the process `p` with a taken message -/
  | deliver (p : Nat) (bytes : List UInt8)
  /-- the thread of `p` was called -/
  | enter (p ev : Nat) (msg : MsgArg)
  /-- the thread of `p` read the taken message -/
  | read (p : Nat) (bytes : List UInt8)
  /-- `exit_process` took `p` off duty -/
  | off (p : Nat)
  /-- `p` was put on the process list -/
  | join (p : Nat)
  /-- `p` was taken out of the process list -/
  | leave (p : Nat)
  /-- `scheduler_run` returned -/
  | done (events : Nat)
deriving DecidableEq, Repr

/-- `struct scheduler` with the memory of its pool, the processes, the memory of
the application, the value the last thread returned, the stack, and what has been
seen so far. -/
structure Scheduler (σ : Type) where
  heap : Heap
  messages : MsgList
  processHead : Nat
  processCurrent : Nat
  pollRequested : Bool
  procs : Nat → Process
  user : σ
  ret : Int
  stack : List (Frame σ)
  log : List SchedEvent

/-- Initialize scheduler. -/
def schedulerInit {σ : Type} (mem : Mem) (buffer len : Nat) (user : σ) : Scheduler σ :=
  { heap := cbaInit mem buffer len
    messages := msgListInit
    processHead := 0
    processCurrent := 0
    pollRequested := false
    procs := fun _ => .initial
    user := user
    ret := 0
    stack := []
    log := [] }

section Functions

variable {σ : Type}

/-- Return number of waiting events. -/
def schedulerEvents (s : Scheduler σ) : Nat :=
  msgListLength s.messages + s.pollRequested.toNat

def Scheduler.next (s : Scheduler σ) (p : Nat) : Nat := (s.procs p).next

def Scheduler.push (s : Scheduler σ) (f : Frame σ) : Scheduler σ :=
  { s with stack := f :: s.stack }

def Scheduler.emit (s : Scheduler σ) (ev : SchedEvent) : Scheduler σ :=
  { s with log := s.log ++ [ev] }

def Scheduler.setState (s : Scheduler σ) (p : Nat) (state : ProcessState) : Scheduler σ :=
  { s with procs := Function.update s.procs p { s.procs p with state := state } }

def Scheduler.setNext (s : Scheduler σ) (p next : Nat) : Scheduler σ :=
  { s with procs := Function.update s.procs p { s.procs p with next := next } }

/-! ## Sending -/

/-- Allocate message object; the size is a `uint32_t`. -/
def schedulerMalloc (w : Width) (s : Scheduler σ) (size : Nat) : Scheduler σ × Nat :=
  let r := msgPtrMalloc w s.heap (size % 2 ^ 32)
  ({ s with heap := r.1 }, if r.2 = 0 then 0 else r.2 + offsetofMsg)

/-- Post message. -/
def schedulerPostMsg (s : Scheduler σ) (proc msg : Nat) : Scheduler σ :=
  let msgPtr := msg - offsetofMsg
  let r := msgListPush s.messages (setNodePrivate s.heap.mem msgPtr proc) msgPtr
  { s with messages := r.1, heap := { s.heap with mem := r.2 } }

/-- What the functions `process_send_msg*` share: allocate `size` bytes, fill
them, post the message. -/
def sendMessage (w : Width) (s : Scheduler σ) (self size : Nat) (fill : Mem → Nat → Mem) :
    Scheduler σ × Int :=
  let r := schedulerMalloc w s size
  if r.2 = 0 then (r.1, processErrNoMemory)
  else
    let s := { r.1 with heap := { r.1.heap with mem := fill r.1.heap.mem r.2 } }
    (schedulerPostMsg s self r.2, processSuccess)

/-- Send message. -/
def processSendMsg (w : Width) (s : Scheduler σ) (self : Nat) (msg : List UInt8) :
    Scheduler σ × Int :=
  sendMessage w s self msg.length fun m p => m.write p msg

/-- Send message containing 0 parameters. -/
def processSendMsgP0 (w : Width) (s : Scheduler σ) (self type : Nat) : Scheduler σ × Int :=
  sendMessage w s self (sizeofMsg w) fun m p => m.store p w.bytes type

/-- Send message containing 1 parameter. -/
def processSendMsgP1 (w : Width) (s : Scheduler σ) (self type : Nat) (param1 : UInt8) :
    Scheduler σ × Int :=
  sendMessage w s self (sizeofMsg w + 1) fun m p =>
    (m.store p w.bytes type).write (p + w.bytes) [param1]

/-- Send message containing 2 parameters. -/
def processSendMsgP2 (w : Width) (s : Scheduler σ) (self type : Nat) (param1 param2 : UInt8) :
    Scheduler σ × Int :=
  sendMessage w s self (sizeofMsg w + 2) fun m p =>
    let m := (m.store p w.bytes type).write (p + w.bytes) [param1]
    m.write (p + w.bytes + 1) [param2]

/-- Send message containing 3 parameters. -/
def processSendMsgP3 (w : Width) (s : Scheduler σ) (self type : Nat)
    (param1 param2 param3 : UInt8) : Scheduler σ × Int :=
  sendMessage w s self (sizeofMsg w + 3) fun m p =>
    let m := (m.store p w.bytes type).write (p + w.bytes) [param1]
    (m.write (p + w.bytes + 1) [param2]).write (p + w.bytes + 2) [param3]

/-- Send message containing 4 parameters. -/
def processSendMsgP4 (w : Width) (s : Scheduler σ) (self type : Nat)
    (param1 param2 param3 param4 : UInt8) : Scheduler σ × Int :=
  sendMessage w s self (sizeofMsg w + 4) fun m p =>
    let m := (m.store p w.bytes type).write (p + w.bytes) [param1]
    let m := (m.write (p + w.bytes + 1) [param2]).write (p + w.bytes + 2) [param3]
    m.write (p + w.bytes + 3) [param4]

/-- Send message data. -/
def processSendMsgData (w : Width) (s : Scheduler σ) (self type : Nat) (data : List UInt8) :
    Scheduler σ × Int :=
  sendMessage w s self (sizeofMsg w + data.length) fun m p =>
    (m.store p w.bytes type).write (p + w.bytes) data

def execSend (w : Width) (s : Scheduler σ) : SendCall → Scheduler σ × Int
  | .msg self msg => processSendMsg w s self msg
  | .p0 self type => processSendMsgP0 w s self type
  | .p1 self type param1 => processSendMsgP1 w s self type param1
  | .p2 self type param1 param2 => processSendMsgP2 w s self type param1 param2
  | .p3 self type param1 param2 param3 => processSendMsgP3 w s self type param1 param2 param3
  | .p4 self type param1 param2 param3 param4 =>
      processSendMsgP4 w s self type param1 param2 param3 param4
  | .data self type data => processSendMsgData w s self type data

/-- The process and the bytes given at the send. -/
def SendCall.letter (w : Width) : SendCall → Letter
  | .msg self bytes => ⟨self, bytes⟩
  | .p0 self type => ⟨self, toLe w.bytes type⟩
  | .p1 self type param1 => ⟨self, toLe w.bytes type ++ [param1]⟩
  | .p2 self type param1 param2 => ⟨self, toLe w.bytes type ++ [param1, param2]⟩
  | .p3 self type param1 param2 param3 => ⟨self, toLe w.bytes type ++ [param1, param2, param3]⟩
  | .p4 self type param1 param2 param3 param4 =>
      ⟨self, toLe w.bytes type ++ [param1, param2, param3, param4]⟩
  | .data self type bytes => ⟨self, toLe w.bytes type ++ bytes⟩

/-- A send, and what is seen of it. -/
def postSend (w : Width) (s : Scheduler σ) (c : SendCall) : Scheduler σ × Int :=
  let r := execSend w s c
  (r.1.emit (.send (c.letter w) r.2), r.2)

/-! ## Calling processes -/

/-- The thread of `proc` is called. -/
def enterThread (s : Scheduler σ) (proc ev : Nat) (msg : MsgArg)
    (thread : Nat → MsgArg → σ → ThreadProg σ) : Scheduler σ :=
  (s.emit (.enter proc ev msg)).push (.thread proc msg (thread ev msg s.user))

/-- `call_process` up to the call of the thread. -/
def callProcess (fw : Firmware σ) (s : Scheduler σ) (proc ev : Nat) (msg : MsgArg) :
    Scheduler σ :=
  match fw.thread proc with
  | none => s
  | some thread =>
      if (s.procs proc).state = .running then
        let caller := s.processCurrent
        let s := { s.setState proc .called with processCurrent := proc }
        enterThread (s.push (.called proc ev caller)) proc ev msg thread
      else s

/-- `exit_process` up to its first loop. -/
def exitProcess (s : Scheduler σ) (proc fromprocess : Nat) : Scheduler σ :=
  s.push (.exitFind proc fromprocess s.processCurrent s.processHead)

/-- `call_process` behind the call of the thread. -/
def callReturned (s : Scheduler σ) (proc ev caller : Nat) : Scheduler σ :=
  let s := { s with processCurrent := caller }
  if s.ret = ptExited ∨ s.ret = ptEnded ∨ ev = processEvExit then exitProcess s proc proc
  else s.setState proc .running

/-- `exit_process` behind its first loop, with the process found. -/
def exitFound (s : Scheduler σ) (proc fromprocess oldCurrent : Nat) : Scheduler σ :=
  if (s.procs proc).state = .none then s.push (.exitUnlink proc oldCurrent)
  else
    ((s.setState proc .none).emit (.off proc)).push
      (.loop (.notify proc fromprocess oldCurrent) s.processHead)

/-- Handle poll, up to the loop. -/
def schedulerUtilizePoll (s : Scheduler σ) : Scheduler σ :=
  { s with pollRequested := false }.push (.loop .poll s.processHead)

/-- `scheduler_start_process` behind the search. -/
def schedulerStartProcess (fw : Firmware σ) (s : Scheduler σ) (proc : Nat) : Scheduler σ :=
  let p := { s.procs proc with state := .running, sched := true, next := s.processHead }
  let s := { s with
    user := fw.ptInit proc s.user
    procs := Function.update s.procs proc p
    processHead := proc }
  callProcess fw (s.emit (.join proc)) proc processEvInit .null

/-- Poll process. -/
def processPoll (s : Scheduler σ) (self : Nat) : Scheduler σ :=
  if self ≠ 0 then
    if (s.procs self).state = .running ∨ (s.procs self).state = .called then
      { s with
        procs := Function.update s.procs self { s.procs self with needspoll := true }
        pollRequested := true }
    else s
  else s

/-- `msg->type` of a message given by its bytes. -/
def bytesType (w : Width) (msg : List UInt8) : Nat := ofLe (msg.take w.bytes)

/-- Handle message directly. -/
def schedulerHandleMsg (w : Width) (fw : Firmware σ) (s : Scheduler σ) (proc : Nat)
    (msg : List UInt8) : Scheduler σ :=
  if proc = processBroadcast then s.push (.loop (.handle msg) s.processHead)
  else callProcess fw s proc (bytesType w msg) (.onStack msg)

/-- Run scheduler single iteration, up to its first loop. -/
def schedulerRun (s : Scheduler σ) : Scheduler σ :=
  let s := ((s.emit .run).push .runEnd).push .utilizeMessage
  if s.pollRequested then schedulerUtilizePoll s else s

def execCall (w : Width) (fw : Firmware σ) (s : Scheduler σ) : ProcCall → Scheduler σ
  | .poll self => processPoll s self
  | .start self => s.push (.startFind self s.processHead)
  | .exit self => exitProcess s self s.processCurrent
  | .handleMsg self msg => schedulerHandleMsg w fw s self msg
  | .run => schedulerRun s

/-- What a thread finds in its message; of `struct mx_msg_process` the process. -/
def readMsg (m : Mem) : MsgArg → List UInt8
  | .null => []
  | .node p => (letterAt m p).bytes
  | .onStack msg => msg
  | .finished process => toLe sizeofPtr process

/-! ## Running -/

/-- Handle single message, up to the calls. -/
def schedulerUtilizeMessage (w : Width) (fw : Firmware σ) (s : Scheduler σ) : Scheduler σ :=
  let r := msgListPop s.messages s.heap.mem
  if r.2 = 0 then s.emit .idle
  else
    let x := letterAt s.heap.mem r.2
    let type := nodeType w s.heap.mem r.2
    let s := { s with messages := r.1 }.emit (.take x)
    if x.receiver = processBroadcast then s.push (.loop (.broadcast r.2) s.processHead)
    else
      -- if the event was an INIT event, the state of the process is updated
      let s := if type = processEvInit then s.setState x.receiver .running else s
      let s := (s.emit (.deliver x.receiver x.bytes)).push (.msgFree r.2)
      callProcess fw s x.receiver type (.node r.2)

/-- A thread executes its next statement. -/
def execThread (w : Width) (fw : Firmware σ) (s : Scheduler σ) (self : Nat) (msg : MsgArg) :
    ThreadProg σ → Scheduler σ
  | .ret code user => { s with user := user, ret := code }
  | .read k =>
      let bytes := readMsg s.heap.mem msg
      let s := match msg with
        | .node _ => s.emit (.read self bytes)
        | _ => s
      s.push (.thread self msg (k bytes))
  | .send c user k =>
      let r := postSend w { s with user := user } c
      r.1.push (.thread self msg (k r.1.user r.2))
  | .call c user k => execCall w fw ({ s with user := user }.push (.resume self msg k)) c

/-- The body of a loop for the process `tmp`, up to the call it makes. -/
def loopBody (w : Width) (fw : Firmware σ) (s : Scheduler σ) (tmp : Nat) : Loop → Scheduler σ
  | .notify proc _ _ =>
      if proc ≠ tmp then callProcess fw s tmp processEvFinished (.finished proc) else s
  | .handle msg => callProcess fw s tmp (bytesType w msg) (.onStack msg)
  | .poll =>
      if (s.procs tmp).needspoll then
        let p := { s.procs tmp with state := .running, needspoll := false }
        callProcess fw { s with procs := Function.update s.procs tmp p } tmp processEvPoll .null
      else s
  | .broadcast msgPtr =>
      let s := s.push (.broadcastCall msgPtr tmp)
      if s.pollRequested then schedulerUtilizePoll s else s

/-- What follows a loop. -/
def loopEnd (fw : Firmware σ) (s : Scheduler σ) : Loop → Scheduler σ
  | .notify proc fromprocess oldCurrent =>
      let s := s.push (.exitUnlink proc oldCurrent)
      match fw.thread proc with
      | none => s
      | some thread =>
          -- the process is informed itself unless it is the one that exits
          if proc ≠ fromprocess then
            enterThread { s with processCurrent := proc } proc processEvExit .null thread
          else s
  | .handle _ => s
  | .poll => s
  | .broadcast msgPtr => s.push (.msgFree msgPtr)

/-- Execute the frame just taken from the stack of `s`. -/
def execFrame (w : Width) (fw : Firmware σ) (s : Scheduler σ) : Frame σ → Scheduler σ
  | .thread self msg prog => execThread w fw s self msg prog
  | .resume self msg k => s.push (.thread self msg (k s.user))
  | .called proc ev caller => callReturned s proc ev caller
  | .loop l tmp =>
      if tmp = 0 then loopEnd fw s l else loopBody w fw (s.push (.loopNext l tmp)) tmp l
  | .loopNext l tmp => s.push (.loop l (s.next tmp))
  | .broadcastCall msgPtr p =>
      callProcess fw (s.emit (.deliver p (letterAt s.heap.mem msgPtr).bytes)) p
        (nodeType w s.heap.mem msgPtr) (.node msgPtr)
  | .exitFind proc fromprocess oldCurrent tmp =>
      if tmp = 0 then s
      else if tmp = proc then exitFound s proc fromprocess oldCurrent
      else s.push (.exitFind proc fromprocess oldCurrent (s.next tmp))
  | .exitUnlink proc oldCurrent =>
      if proc = s.processHead then
        { s with processHead := s.next s.processHead, processCurrent := oldCurrent }.emit
          (.leave proc)
      else s.push (.exitScan proc oldCurrent s.processHead)
  | .exitScan proc oldCurrent tmp =>
      if tmp = 0 then { s with processCurrent := oldCurrent }
      else if s.next tmp = proc then
        { s.setNext tmp (s.next proc) with processCurrent := oldCurrent }.emit (.leave proc)
      else s.push (.exitScan proc oldCurrent (s.next tmp))
  | .startFind proc tmp =>
      if tmp = proc then s
      else if tmp = 0 then schedulerStartProcess fw s proc
      else s.push (.startFind proc (s.next tmp))
  | .utilizeMessage => schedulerUtilizeMessage w fw s
  | .msgFree msgPtr => { s with heap := msgPtrFree s.heap msgPtr }
  | .runEnd => s.emit (.done (schedulerEvents s))

end Functions

end EmbeddedMx
