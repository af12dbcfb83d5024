import EmbeddedMx.Cba.Model

/-!
# Messages, message lists and message queues

`struct msg_ptr` is a node in raw memory: three words of the machine
(`next`, `private`, `length`) followed by the message itself, whose first
field is its type. `struct msg_list` is a singly linked list of such nodes with
a tail pointer and a counter, `struct msg_queue` an array of three lists.

Pointers and `size_t` are eight bytes, as on the build target; `NULL` is 0. The
width of `msgtype_t` is a build parameter.
-/

namespace EmbeddedMx

open EmbeddedMx.Lib

/-- A build parameter that may be 1 or 2 (bytes). -/
inductive Width
  | one
  | two
deriving DecidableEq, Repr

def Width.bytes : Width → Nat
  | .one => 1
  | .two => 2

/-! ## Message types (`message.h`) -/

def msgReport : Nat := 0

def msgRequest : Width → Nat
  | .one => 0x40
  | .two => 0x4000

def msgResponse : Width → Nat
  | .one => 0x80
  | .two => 0x8000

def msgTypeMask : Width → Nat
  | .one => 0xC0
  | .two => 0xC000

/-- `~MSG_TYPE_MASK`, as far as it meets a `msgtype_t`. -/
def msgIdMask : Width → Nat
  | .one => 0x3F
  | .two => 0x3FFF

/-! ## `struct msg_ptr` -/

def sizeofPtr : Nat := 8
def offsetofPrivate : Nat := 8
def offsetofLength : Nat := 16
def offsetofMsg : Nat := 24
def sizeofMsgPtr : Nat := 32

/-- `sizeof(struct msg)` -/
def sizeofMsg (w : Width) : Nat := w.bytes

/-- `ptr->next` -/
def nodeNext (m : Mem) (p : Nat) : Nat := m.load p sizeofPtr

/-- `ptr->private` -/
def nodePrivate (m : Mem) (p : Nat) : Nat := m.load (p + offsetofPrivate) sizeofPtr

/-- `ptr->length` -/
def nodeLength (m : Mem) (p : Nat) : Nat := m.load (p + offsetofLength) sizeofPtr

/-- `ptr->msg.type` -/
def nodeType (w : Width) (m : Mem) (p : Nat) : Nat := m.load (p + offsetofMsg) w.bytes

def setNodeNext (m : Mem) (p v : Nat) : Mem := m.store p sizeofPtr v

def setNodePrivate (m : Mem) (p v : Nat) : Mem := m.store (p + offsetofPrivate) sizeofPtr v

def setNodeLength (m : Mem) (p v : Nat) : Mem := m.store (p + offsetofLength) sizeofPtr v

/-- A message: its node, its type field, and its bytes. -/
structure Msg where
  ptr : Nat
  type : Nat
  data : List UInt8
deriving DecidableEq, Repr

/-- The message in the node `p`. -/
def nodeMsg (w : Width) (m : Mem) (p : Nat) : Msg :=
  { ptr := p
    type := nodeType w m p
    data := m.read (p + offsetofMsg) (nodeLength m p) }

/-- Allocate message pointer object. -/
def msgPtrMalloc (w : Width) (h : Heap) (msgSize : Nat) : Heap × Nat :=
  let mallocSize := u16 (sizeofMsgPtr - sizeofMsg w + msgSize)
  let r := cbaMalloc h mallocSize
  if r.2 = 0 then (r.1, 0)
  else
    let mem := setNodeNext r.1.mem r.2 0
    let mem := setNodePrivate mem r.2 0
    let mem := setNodeLength mem r.2 msgSize
    ({ r.1 with mem := mem }, r.2)

/-- Free message pointer object. -/
def msgPtrFree (h : Heap) (p : Nat) : Heap := cbaFree h p

/-! ## `struct msg_list` -/

structure MsgList where
  msgHead : Nat
  msgTail : Nat
  length : Nat
deriving DecidableEq, Repr

/-- Initialize message list. -/
def msgListInit : MsgList := { msgHead := 0, msgTail := 0, length := 0 }

/-- Push message object. -/
def msgListPush (self : MsgList) (m : Mem) (p : Nat) : MsgList × Mem :=
  let m := setNodeNext m p 0
  let m := if self.msgTail ≠ 0 then setNodeNext m self.msgTail p else m
  let msgHead := if self.msgHead = 0 then p else self.msgHead
  ({ msgHead := msgHead, msgTail := p, length := self.length + 1 }, m)

/-- Pop message object. -/
def msgListPop (self : MsgList) (m : Mem) : MsgList × Nat :=
  let p := self.msgHead
  if p = 0 then (self, 0)
  else
    ({ msgHead := nodeNext m p
       msgTail := if self.msgTail = p then 0 else self.msgTail
       length := self.length - 1 }, p)

/-- Peek message object. -/
def msgListPeek (self : MsgList) : Nat := self.msgHead

/-- The loop of `msg_list_remove`. `tmp` is the link to be rewritten: `none` for
`&self->msg_head`, `some q` for `&q->next`. The first argument bounds the
number of turns. -/
def msgListRemoveLoop (target : Nat) :
    Nat → MsgList → Mem → Option Nat → Nat → MsgList × Mem × Nat
  | 0, self, m, _, _ => (self, m, 0)
  | turns + 1, self, m, tmp, p =>
      if p = 0 then (self, m, 0)
      else if p = target then
        match tmp with
        | none => ({ self with msgHead := nodeNext m p, length := self.length - 1 }, m, p)
        | some q =>
            ({ self with length := self.length - 1 }, setNodeNext m q (nodeNext m p), p)
      else msgListRemoveLoop target turns self m (some p) (nodeNext m p)

/-- Remove message object from message list. -/
def msgListRemove (self : MsgList) (m : Mem) (p : Nat) : MsgList × Mem × Nat :=
  msgListRemoveLoop p (self.length + 1) self m none self.msgHead

/-- The loop of `msg_list_find_msgtype`. -/
def msgListFindLoop (w : Width) (type : Nat) : Nat → Mem → Nat → Nat
  | 0, _, _ => 0
  | turns + 1, m, p =>
      if p = 0 then 0
      else if nodeType w m p = type then p
      else msgListFindLoop w type turns m (nodeNext m p)

/-- Find message after message type. -/
def msgListFindMsgtype (w : Width) (self : MsgList) (m : Mem) (type : Nat) : Nat :=
  msgListFindLoop w type (self.length + 1) m self.msgHead

/-- Return number of listed messages. -/
def msgListLength (self : MsgList) : Nat := self.length

/-! ## `struct msg_queue` -/

def msgPrioHigh : Nat := 0
def msgPrioNormal : Nat := 1
def msgPrioLow : Nat := 2
def msgPrioLength : Nat := 3
def msgPrioAny : Nat := 4

/-- `struct msg_queue`: one list for each priority. -/
abbrev MsgQueue := Fin msgPrioLength → MsgList

/-- Initialize message queue. -/
def msgQueueInit : MsgQueue := fun _ => msgListInit

/-- Push message object; a priority out of range is refused. -/
def msgQueuePush (self : MsgQueue) (m : Mem) (prio p : Nat) : MsgQueue × Mem × Nat :=
  if h : prio < msgPrioLength then
    let r := msgListPush (self ⟨prio, h⟩) m p
    (Function.update self ⟨prio, h⟩ r.1, r.2, p)
  else (self, m, 0)

end EmbeddedMx
