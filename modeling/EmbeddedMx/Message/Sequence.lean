import EmbeddedMx.Message.List

/-!
# The message list refines a sequence

A `ListWorld` is a message list in memory together with the sequence of nodes
it should hold: those pushed and not yet popped or removed, in push order. A run
calls the list functions in any order; between two calls the rest of the program
may write anything except the `next` words of listed nodes.

The list functions compute what the sequence operations do, up to one call:
`msg_list_remove` of the last node leaves `msg_tail` on that node.
-/

namespace EmbeddedMx

open EmbeddedMx.Lib

/-- A call of a list function. -/
inductive ListOp
  | push (p : Nat)
  | pop
  | remove (p : Nat)
  | peek
  | findMsgtype (type : Nat)
deriving DecidableEq, Repr

/-- A message list in memory and the nodes it should hold. -/
structure ListWorld where
  list : MsgList
  mem : Mem
  nodes : List Nat

/-- The call on the list in memory; the second component is the returned pointer. -/
def listCall (w : Width) (l : MsgList) (m : Mem) : ListOp → (MsgList × Mem) × Nat
  | .push p => (msgListPush l m p, p)
  | .pop => (((msgListPop l m).1, m), (msgListPop l m).2)
  | .remove p =>
      let r := msgListRemove l m p
      ((r.1, r.2.1), r.2.2)
  | .peek => ((l, m), msgListPeek l)
  | .findMsgtype type => ((l, m), msgListFindMsgtype w l m type)

/-- The call on a sequence of nodes. -/
def seqCall (w : Width) (m : Mem) (xs : List Nat) : ListOp → List Nat × Nat
  | .push p => (xs ++ [p], p)
  | .pop => (xs.tail, xs.head?.getD 0)
  | .remove p => (xs.erase p, if p ∈ xs then p else 0)
  | .peek => (xs, xs.head?.getD 0)
  | .findMsgtype type => (xs, (xs.find? fun x => nodeType w m x == type).getD 0)

/-- The state after a call. -/
def ListWorld.call (w : Width) (s : ListWorld) (op : ListOp) : ListWorld :=
  let r := listCall w s.list s.mem op
  { list := r.1.1, mem := r.1.2, nodes := (seqCall w s.mem s.nodes op).1 }

/-- A pushed node is an object of its own, not one of the list. -/
def ListWorld.Allowed (s : ListWorld) : ListOp → Prop
  | .push p => NodePtr p ∧ ∀ x ∈ s.nodes, Apart x offsetofMsg p offsetofMsg
  | _ => True

instance (s : ListWorld) (op : ListOp) : Decidable (s.Allowed op) :=
  match op with
  | .push p => inferInstanceAs (Decidable
      (NodePtr p ∧ ∀ x ∈ s.nodes, Apart x offsetofMsg p offsetofMsg))
  | .pop | .remove _ | .peek | .findMsgtype _ => inferInstanceAs (Decidable True)

/-- The call does not remove the last node. -/
def ListWorld.KeepsLast (s : ListWorld) : ListOp → Prop
  | .remove p => s.nodes.getLast? ≠ some p
  | _ => True

instance (s : ListWorld) (op : ListOp) : Decidable (s.KeepsLast op) :=
  match op with
  | .remove p => inferInstanceAs (Decidable (s.nodes.getLast? ≠ some p))
  | .push _ | .pop | .peek | .findMsgtype _ => inferInstanceAs (Decidable True)

/-- Steps of a run: a call, or writes of the rest of the program. -/
inductive ListStep (w : Width) : ListWorld → Option ListOp → ListWorld → Prop
  | call {s op} : s.Allowed op → ListStep w s (some op) (s.call w op)
  | write {s m} : (∀ x ∈ s.nodes, nodeNext m x = nodeNext s.mem x) →
      ListStep w s none { s with mem := m }

def listSystem (w : Width) : TSys ListWorld (Option ListOp) where
  init s := s.list = msgListInit ∧ s.nodes = []
  step := ListStep w

/-- The runs in which no call removes the last node. -/
def keepingLast (w : Width) : TSys ListWorld (Option ListOp) :=
  (listSystem w).restrict fun s i => ∀ op, i = some op → s.KeepsLast op

theorem listSystem_call {w : Width} {s : ListWorld} (op : ListOp)
    (hs : (listSystem w).Reachable s) (hop : s.Allowed op) :
    (listSystem w).Reachable (s.call w op) :=
  hs.step (.call hop)

theorem keepingLast_call {w : Width} {s : ListWorld} (op : ListOp)
    (hs : (keepingLast w).Reachable s) (hop : s.Allowed op) (hlast : s.KeepsLast op) :
    (keepingLast w).Reachable (s.call w op) :=
  hs.step ⟨fun _ heq => Option.some.inj heq ▸ hlast, .call hop⟩

/-- The list is the sequence of its nodes. -/
def ListWorld.IsSeq (s : ListWorld) : Prop := MsgListRep s.list s.mem s.nodes

/-- The call does what the sequence operation does, and writes through nodes
only that are in the list afterwards. -/
structure ListWorld.CallOk (w : Width) (s : ListWorld) (op : ListOp) : Prop where
  result : (listCall w s.list s.mem op).2 = (seqCall w s.mem s.nodes op).2
  isSeq : (s.call w op).IsSeq
  frame : NextFrame (s.call w op).nodes s.mem (s.call w op).mem

/-- A call that keeps the last node does what the sequence operation does. -/
theorem ListWorld.IsSeq.callOk {w : Width} {s : ListWorld} (h : s.IsSeq) {op : ListOp}
    (hallowed : s.Allowed op) (hlast : s.KeepsLast op) : s.CallOk w op := by
  cases op with
  | push p =>
      obtain ⟨hrep, hframe⟩ := MsgListRep.push h hallowed.1 hallowed.2
      exact ⟨rfl, hrep, hframe⟩
  | pop =>
      obtain ⟨hres, hrep⟩ := MsgListRep.pop h
      exact ⟨hres, hrep, .refl _ _⟩
  | remove p =>
      obtain ⟨hres, hrep, hframe⟩ := MsgListRep.remove h hlast
      exact ⟨hres, hrep, hframe⟩
  | peek => exact ⟨MsgListRep.peek h, h, .refl _ _⟩
  | findMsgtype type => exact ⟨MsgListRep.find h w type, h, .refl _ _⟩

/-- Removing the last node leaves the tail pointer on it. -/
theorem ListWorld.IsSeq.remove_last {w : Width} {s : ListWorld} (h : s.IsSeq) {p : Nat}
    (hp : s.nodes.getLast? = some p) : ¬ (s.call w (.remove p)).IsSeq := by
  intro hrep
  have hmem : p ∈ s.nodes := List.mem_of_getLast? hp
  obtain ⟨l', m', heq, _, htail, _, _⟩ := MsgListRep.remove_links h p
  -- the tail pointer is still the removed node, which is not in the sequence any more
  have hnew : l'.msgTail = (s.nodes.erase p).getLast?.getD 0 := by
    have := hrep.tail
    simp only [ListWorld.call, listCall, seqCall, heq] at this
    exact this
  have hold : s.list.msgTail = p := by rw [MsgListRep.tail h, hp, Option.getD_some]
  rw [htail, hold] at hnew
  have hne := (MsgListRep.valid h p hmem).ne_zero
  cases hl : (s.nodes.erase p).getLast? with
  | none =>
      rw [hl, Option.getD_none] at hnew
      exact hne hnew
  | some q =>
      rw [hl, Option.getD_some] at hnew
      exact (MsgListRep.nodup h).not_mem_erase (hnew ▸ List.mem_of_getLast? hl)

theorem ListWorld.IsSeq.callOk_iff {w : Width} {s : ListWorld} (h : s.IsSeq) {op : ListOp}
    (hallowed : s.Allowed op) : s.CallOk w op ↔ s.KeepsLast op := by
  refine ⟨fun hok => ?_, h.callOk hallowed⟩
  cases op with
  | remove p => exact fun hp => h.remove_last hp hok.isSeq
  | _ => trivial

theorem keepingLast_isSeq (w : Width) : (keepingLast w).Invariant ListWorld.IsSeq := by
  apply TSys.Inductive.invariant
  constructor
  · rintro ⟨l, m, xs⟩ ⟨rfl, rfl⟩
    exact msgListInit_rep m
  · rintro s i s' hs ⟨hlast, hstep⟩
    cases hstep with
    | call hallowed => exact (hs.callOk hallowed (hlast _ rfl)).isSeq
    | write hm => exact MsgListRep.congr hs hm

/-- What the list promises in a state: it is the sequence of its nodes, and
every call does what the sequence operation does. -/
def ListWorld.Refines (w : Width) (s : ListWorld) : Prop :=
  s.IsSeq ∧ ∀ op, s.Allowed op → s.CallOk w op

/-- **The list refines a sequence.** As long as no call removes the last node,
the list is the sequence of its nodes, and the next call does what the sequence
operation does exactly if it does not remove the last node either. -/
theorem msg_list_refines {w : Width} {s : ListWorld} (hs : (keepingLast w).Reachable s) :
    s.IsSeq ∧ ∀ op, s.Allowed op → (s.CallOk w op ↔ s.KeepsLast op) :=
  ⟨keepingLast_isSeq w s hs, fun _ => (keepingLast_isSeq w s hs).callOk_iff⟩

/-- The calls `ops` one after the other. -/
def ListWorld.calls (w : Width) (s : ListWorld) (ops : List ListOp) : ListWorld :=
  ops.foldl (ListWorld.call w) s

def emptyListWorld : ListWorld := { list := msgListInit, mem := fun _ => 0, nodes := [] }

/-- Two nodes are pushed and the first is removed. -/
theorem msg_list_refines_two :
    let s := emptyListWorld.calls .one [.push 100, .push 200, .remove 100]
    s.nodes = [200] ∧ s.IsSeq ∧ s.CallOk .one .pop := by
  have hreach : (keepingLast .one).Reachable
      (emptyListWorld.calls .one [.push 100, .push 200, .remove 100]) := by
    have h0 : (keepingLast .one).Reachable emptyListWorld := .init ⟨rfl, rfl⟩
    have h1 := keepingLast_call (.push 100) h0 (by decide) (by decide)
    have h2 := keepingLast_call (.push 200) h1 (by decide) (by decide)
    exact keepingLast_call (.remove 100) h2 (by decide) (by decide)
  have h := msg_list_refines hreach
  exact ⟨by decide, h.1, (h.2 .pop trivial).mpr trivial⟩

/-- The lost message: the last of two nodes is removed and a third is pushed. The
push writes through the removed node, and the new one is not reachable. -/
theorem msg_list_remove_last_fails :
    ¬ ∀ s, (listSystem .one).Reachable s → s.Refines .one := by
  intro hclaim
  have h0 : (listSystem .one).Reachable emptyListWorld := .init ⟨rfl, rfl⟩
  have h1 := listSystem_call (.push 100) h0 (by decide)
  have h2 := listSystem_call (.push 200) h1 (by decide)
  have h3 := listSystem_call (.remove 200) h2 (by decide)
  have h4 := listSystem_call (.push 300) h3 (by decide)
  have hpath := (hclaim _ h4).1.path
  -- the node 100 still is the end of the chain
  have hend : nodeNext (emptyListWorld.calls .one
      [.push 100, .push 200, .remove 200, .push 300]).mem 100 = 0 := by decide +kernel
  have hnext : nodeNext (emptyListWorld.calls .one
      [.push 100, .push 200, .remove 200, .push 300]).mem 100 = 300 := hpath.2.1
  rw [hend] at hnext
  cases hnext

end EmbeddedMx
