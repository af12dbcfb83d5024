import EmbeddedMx.Lib.Priority
import EmbeddedMx.Message.List
import Mathlib.Data.List.FinRange
import Mathlib.Data.List.Find

/-!
# The message queue is a stable priority queue

A `QueueWorld` is a message queue in memory together with the entries it should hold: the
nodes that were pushed and not yet popped, each with its priority and its type, in push
order. A run calls the queue functions in any order; between two calls the rest of the
program may write anything except the `next` words and the types of queued nodes.

The functions go through the three lists from priority 0 on. That is the order of the pops,
so the first node of a type that they find is the one that would be popped first.
-/

namespace EmbeddedMx

open EmbeddedMx.Lib

/-! ## The functions of `message-queue.c` -/

/-- The loop of `msg_queue_pop` through the lists `is`. `prio` is `*prio`, `none` if the
pointer is `NULL`. -/
def msgQueuePopLoop (m : Mem) (prio : Option Nat) :
    List (Fin msgPrioLength) → MsgQueue → MsgQueue × Nat × Option Nat
  | [], self => (self, 0, prio)
  | i :: is, self =>
      let r := msgListPop (self i) m
      let self := Function.update self i r.1
      if r.2 ≠ 0 then (self, r.2, prio.map fun _ => i.val)
      else msgQueuePopLoop m prio is self

/-- Pop message object. -/
def msgQueuePop (self : MsgQueue) (m : Mem) (prio : Option Nat) : MsgQueue × Nat × Option Nat :=
  msgQueuePopLoop m prio (List.finRange msgPrioLength) self

/-- A loop through the lists `is` that ends with the first node that `look` finds. -/
def msgQueueLookLoop (look : MsgList → Nat) (self : MsgQueue) (prio : Option Nat) :
    List (Fin msgPrioLength) → Nat × Option Nat
  | [] => (0, prio)
  | i :: is =>
      if look (self i) ≠ 0 then (look (self i), prio.map fun _ => i.val)
      else msgQueueLookLoop look self prio is

/-- Peek message object. -/
def msgQueuePeek (self : MsgQueue) (prio : Option Nat) : Nat × Option Nat :=
  msgQueueLookLoop msgListPeek self prio (List.finRange msgPrioLength)

/-- Find message after message type; in one list, if `*prio` is a priority. -/
def msgQueueFindMsgtype (w : Width) (self : MsgQueue) (m : Mem) (prio : Option Nat) (type : Nat) :
    Nat × Option Nat :=
  let tmp_prio := prio.getD msgPrioAny
  if h : tmp_prio < msgPrioLength then
    (msgListFindMsgtype w (self ⟨tmp_prio, h⟩) m type, prio)
  else
    msgQueueLookLoop (fun list => msgListFindMsgtype w list m type) self prio
      (List.finRange msgPrioLength)

/-- Return number of queued messages. -/
def msgQueueLength (self : MsgQueue) : Nat :=
  ((List.finRange msgPrioLength).map fun i => msgListLength (self i)).sum

/-! ## Calls -/

/-- A queued node. -/
structure QueueNode where
  ptr : Nat
  type : Nat
deriving DecidableEq, Repr

/-- A call of a queue function; `prio` as above. -/
inductive QueueOp
  | push (prio p : Nat)
  | pop (prio : Option Nat)
  | peek (prio : Option Nat)
  | findMsgtype (prio : Option Nat) (type : Nat)
  | length
deriving DecidableEq, Repr

/-- The call on the queue in memory: what it returns, and `*prio`. -/
def queueCall (w : Width) (q : MsgQueue) (m : Mem) : QueueOp → (MsgQueue × Mem) × Nat × Option Nat
  | .push prio p =>
      let r := msgQueuePush q m prio p
      ((r.1, r.2.1), r.2.2, none)
  | .pop prio =>
      let r := msgQueuePop q m prio
      ((r.1, m), r.2)
  | .peek prio => ((q, m), msgQueuePeek q prio)
  | .findMsgtype prio type => ((q, m), msgQueueFindMsgtype w q m prio type)
  | .length => ((q, m), msgQueueLength q, none)

/-- An entry is returned, with its priority; `NULL` if there is none. -/
def foundEntry (prio : Option Nat) : Option (Fin msgPrioLength × QueueNode) → Nat × Option Nat
  | none => (0, prio)
  | some e => (e.2.ptr, prio.map fun _ => e.1.val)

/-- The call on a priority queue. -/
def prioCall (w : Width) (m : Mem) (q : PrioQueue (Fin msgPrioLength) QueueNode) :
    QueueOp → PrioQueue (Fin msgPrioLength) QueueNode × Nat × Option Nat
  | .push prio p =>
      if h : prio < msgPrioLength then
        (q ++ [(⟨prio, h⟩, { ptr := p, type := nodeType w m p })], p, none)
      else (q, 0, none)
  | .pop prio => (q.pop, foundEntry prio q.peek?)
  | .peek prio => (q, foundEntry prio q.peek?)
  | .findMsgtype prio type =>
      let tmp_prio := prio.getD msgPrioAny
      (q, if h : tmp_prio < msgPrioLength then
          ((foundEntry none ((q.level ⟨tmp_prio, h⟩).find? fun e => e.2.type == type)).1, prio)
        else foundEntry prio (q.order.find? fun e => e.2.type == type))
  | .length => (q, q.length, none)

/-- A message queue in memory and the entries it should hold. -/
structure QueueWorld where
  queue : MsgQueue
  mem : Mem
  entries : PrioQueue (Fin msgPrioLength) QueueNode

/-- The state after a call. -/
def QueueWorld.call (w : Width) (s : QueueWorld) (op : QueueOp) : QueueWorld :=
  let r := queueCall w s.queue s.mem op
  { queue := r.1.1, mem := r.1.2, entries := (prioCall w s.mem s.entries op).1 }

/-- The nodes `p` and `q` with their types are apart. -/
def NodesApart (w : Width) (p q : Nat) : Prop :=
  Apart p (offsetofMsg + w.bytes) q (offsetofMsg + w.bytes)

instance (w : Width) (p q : Nat) : Decidable (NodesApart w p q) :=
  inferInstanceAs (Decidable (Apart _ _ _ _))

/-- A pushed node is an object of its own. -/
def QueueWorld.Allowed (w : Width) (s : QueueWorld) : QueueOp → Prop
  | .push _ p => NodePtr p ∧ ∀ e ∈ s.entries, NodesApart w e.2.ptr p
  | _ => True

/-- Steps of a run: a call, or writes of the rest of the program. -/
inductive QueueStep (w : Width) : QueueWorld → Option QueueOp → QueueWorld → Prop
  | call {s op} : s.Allowed w op → QueueStep w s (some op) (s.call w op)
  | write {s m} : (∀ e ∈ s.entries, nodeNext m e.2.ptr = nodeNext s.mem e.2.ptr ∧
      nodeType w m e.2.ptr = nodeType w s.mem e.2.ptr) → QueueStep w s none { s with mem := m }

def queueSystem (w : Width) : TSys QueueWorld (Option QueueOp) where
  init s := s.queue = msgQueueInit ∧ s.entries = []
  step := QueueStep w

/-! ## The queue in memory -/

/-- The nodes of one priority. -/
def levelNodes (q : PrioQueue (Fin msgPrioLength) QueueNode) (i : Fin msgPrioLength) : List Nat :=
  (q.level i).map fun e => e.2.ptr

/-- The queue in memory holds the entries `entries`. -/
structure MsgQueueRep (w : Width) (q : MsgQueue) (m : Mem)
    (entries : PrioQueue (Fin msgPrioLength) QueueNode) : Prop where
  lists : ∀ i, MsgListRep (q i) m (levelNodes entries i)
  types : ∀ e ∈ entries, nodeType w m e.2.ptr = e.2.type
  apart : entries.Pairwise fun a b => NodesApart w a.2.ptr b.2.ptr

theorem NodesApart.symm {w : Width} {p q : Nat} (h : NodesApart w p q) : NodesApart w q p :=
  Apart.symm h

/-- Two nodes are apart. -/
theorem NodesApart.next {w : Width} {p q : Nat} (h : NodesApart w p q) :
    Apart p offsetofMsg q offsetofMsg :=
  h.mono (Nat.le_refl _) (Nat.add_le_add_left (Nat.le_add_right _ _) p) (Nat.le_refl _)
    (Nat.add_le_add_left (Nat.le_add_right _ _) q)

/-- Writes to the `next` words of the nodes `xs` do not change the type of a node. -/
theorem NextFrame.nodeType {w : Width} {xs : List Nat} {m m' : Mem} (h : NextFrame xs m m')
    {p : Nat} (hp : ∀ x ∈ xs, x = p ∨ NodesApart w p x) : nodeType w m' p = nodeType w m p := by
  refine Mem.load_congr fun a ha han => h a fun x hx => ?_
  rcases hp x hx with rfl | hapart
  · refine .inr (Nat.le_trans ?_ ha)
    simp [sizeofPtr, offsetofMsg]
  · simp only [NodesApart, Apart, offsetofMsg, sizeofPtr] at *
    omega

theorem mem_levelNodes {q : PrioQueue (Fin msgPrioLength) QueueNode} {i : Fin msgPrioLength}
    {p : Nat} : p ∈ levelNodes q i ↔ ∃ e ∈ q, e.1 = i ∧ e.2.ptr = p := by
  simp [levelNodes, PrioQueue.mem_level, and_assoc]

namespace MsgQueueRep

variable {w : Width} {q : MsgQueue} {m : Mem} {entries : PrioQueue (Fin msgPrioLength) QueueNode}

/-- Nodes of different entries are apart. -/
theorem nodes_apart (h : MsgQueueRep w q m entries) {a b : Fin msgPrioLength × QueueNode}
    (ha : a ∈ entries) (hb : b ∈ entries) (hne : a ≠ b) : NodesApart w a.2.ptr b.2.ptr := by
  have : Std.Symm fun a b : Fin msgPrioLength × QueueNode => NodesApart w a.2.ptr b.2.ptr :=
    ⟨fun _ _ hab => hab.symm⟩
  exact h.apart.forall ha hb hne

theorem nodePtr (h : MsgQueueRep w q m entries) {e : Fin msgPrioLength × QueueNode}
    (he : e ∈ entries) : NodePtr e.2.ptr :=
  (h.lists e.1).valid e.2.ptr (mem_levelNodes.mpr ⟨e, he, rfl, rfl⟩)

theorem init (w : Width) (m : Mem) : MsgQueueRep w msgQueueInit m [] :=
  ⟨fun _ => msgListInit_rep m, nofun, .nil⟩

theorem congr (h : MsgQueueRep w q m entries) {m' : Mem}
    (hm : ∀ e ∈ entries, nodeNext m' e.2.ptr = nodeNext m e.2.ptr ∧
      nodeType w m' e.2.ptr = nodeType w m e.2.ptr) : MsgQueueRep w q m' entries where
  lists := by
    intro i
    refine (h.lists i).congr fun p hp => ?_
    obtain ⟨e, he, -, rfl⟩ := mem_levelNodes.mp hp
    exact (hm e he).1
  types := fun e he => (hm e he).2.trans (h.types e he)
  apart := h.apart

/-- A fresh node is pushed. -/
theorem push (h : MsgQueueRep w q m entries) (i : Fin msgPrioLength) {p : Nat} (hp : NodePtr p)
    (hfresh : ∀ e ∈ entries, NodesApart w e.2.ptr p) :
    MsgQueueRep w (Function.update q i (msgListPush (q i) m p).1) (msgListPush (q i) m p).2
      (entries ++ [(i, { ptr := p, type := nodeType w m p })]) := by
  obtain ⟨hrep, hframe⟩ := (h.lists i).push hp fun x hx => by
    obtain ⟨e, he, -, rfl⟩ := mem_levelNodes.mp hx
    exact (hfresh e he).next
  have hnodes : ∀ {e}, e ∈ entries → ∀ x ∈ levelNodes entries i ++ [p],
      x = e.2.ptr ∨ NodesApart w e.2.ptr x := by
    intro e he x hx
    rcases List.mem_append.mp hx with hx | hx
    · obtain ⟨e', he', -, rfl⟩ := mem_levelNodes.mp hx
      by_cases heq : e = e'
      · exact .inl (heq ▸ rfl)
      · exact .inr (h.nodes_apart he he' heq)
    · exact .inr (List.mem_singleton.mp hx ▸ hfresh e he)
  refine ⟨fun j => ?_, fun e he => ?_, ?_⟩
  · unfold levelNodes
    rw [PrioQueue.level_append, List.map_append]
    by_cases hij : j = i
    · subst hij
      rw [Function.update_self]
      simpa [PrioQueue.level, levelNodes] using hrep
    · rw [Function.update_of_ne hij]
      have hnone : PrioQueue.level [(i, (⟨p, nodeType w m p⟩ : QueueNode))] j = [] := by
        simp [PrioQueue.level, Ne.symm hij]
      rw [hnone, List.map_nil, List.append_nil]
      refine (h.lists j).congr fun x hx => hframe.nodeNext fun y hy => ?_
      obtain ⟨e, he, rfl, rfl⟩ := mem_levelNodes.mp hx
      rcases List.mem_append.mp hy with hy | hy
      · obtain ⟨e', he', hi', rfl⟩ := mem_levelNodes.mp hy
        exact (h.nodes_apart he he' fun heq => hij (heq ▸ hi')).next
      · exact (List.mem_singleton.mp hy ▸ hfresh e he).next
  · rcases List.mem_append.mp he with he | he
    · rw [hframe.nodeType (hnodes he)]
      exact h.types e he
    · rw [List.mem_singleton.mp he]
      refine hframe.nodeType fun x hx => ?_
      rcases List.mem_append.mp hx with hx | hx
      · obtain ⟨e', he', -, rfl⟩ := mem_levelNodes.mp hx
        exact .inr (hfresh e' he').symm
      · exact .inl (List.mem_singleton.mp hx)
  · refine List.pairwise_append.mpr ⟨h.apart, List.pairwise_singleton _ _, fun a ha b hb => ?_⟩
    rw [List.mem_singleton.mp hb]
    exact hfresh a ha

/-- The next entry leaves its list. -/
theorem pop (h : MsgQueueRep w q m entries) {e : Fin msgPrioLength × QueueNode}
    (hpeek : entries.peek? = some e) :
    (msgListPop (q e.1) m).2 = e.2.ptr ∧
      MsgQueueRep w (Function.update q e.1 (msgListPop (q e.1) m).1) m entries.pop := by
  have hlist := h.lists e.1
  unfold levelNodes at hlist
  rw [PrioQueue.level_next hpeek, List.map_cons] at hlist
  obtain ⟨hptr, hrest⟩ := hlist.pop_cons
  refine ⟨hptr, fun i => ?_, fun e' he' => h.types e' (PrioQueue.mem_of_mem_pop he'),
    h.apart.sublist List.eraseP_sublist⟩
  by_cases hi : i = e.1
  · subst hi
    rw [Function.update_self]
    exact hrest
  · rw [Function.update_of_ne hi]
    unfold levelNodes
    rw [PrioQueue.level_pop hpeek hi]
    exact h.lists i

/-! ## The loops -/

/-- Lists without entries are passed over. -/
theorem level_nil (h : MsgQueueRep w q m entries) {i : Fin msgPrioLength}
    (hnil : entries.level i = []) : MsgListRep (q i) m [] := by
  have hlist := h.lists i
  unfold levelNodes at hlist
  rw [hnil] at hlist
  exact hlist

theorem popLoop_none (h : MsgQueueRep w q m entries) (prio : Option Nat)
    {is : List (Fin msgPrioLength)} (hnil : ∀ i ∈ is, entries.level i = []) :
    msgQueuePopLoop m prio is q = (q, 0, prio) := by
  induction is with
  | nil => rfl
  | cons i is ih =>
      obtain ⟨hi, his⟩ := List.forall_mem_cons.mp hnil
      have hpop := (h.level_nil hi).pop_nil
      rw [msgQueuePopLoop, hpop, if_neg (not_not.mpr rfl), Function.update_eq_self]
      exact ih his

theorem popLoop_some (h : MsgQueueRep w q m entries) (prio : Option Nat)
    {e : Fin msgPrioLength × QueueNode} (hpeek : entries.peek? = some e)
    {is : List (Fin msgPrioLength)} (hsorted : is.Pairwise (· < ·)) (his : e.1 ∈ is) :
    msgQueuePopLoop m prio is q =
      (Function.update q e.1 (msgListPop (q e.1) m).1, e.2.ptr, prio.map fun _ => e.1.val) := by
  induction is with
  | nil => cases his
  | cons i is ih =>
      obtain ⟨hfirst, hsorted⟩ := List.pairwise_cons.mp hsorted
      rw [msgQueuePopLoop]
      rcases List.mem_cons.mp his with rfl | his
      · have hptr := (h.pop hpeek).1
        rw [hptr, if_pos (h.nodePtr (PrioQueue.peek?_mem hpeek)).ne_zero]
      · have hpop := (h.level_nil (PrioQueue.level_of_lt hpeek (hfirst e.1 his))).pop_nil
        rw [hpop, if_neg (not_not.mpr rfl), Function.update_eq_self]
        exact ih hsorted his

/-- What a search finds in the lists is what it finds in the entries, level by level. -/
theorem lookLoop (h : MsgQueueRep w q m entries) {look : MsgList → Nat}
    {test : Fin msgPrioLength × QueueNode → Bool}
    (hlook : ∀ i, look (q i) = (foundEntry none ((entries.level i).find? test)).1)
    (prio : Option Nat) (is : List (Fin msgPrioLength)) :
    msgQueueLookLoop look q prio is =
      foundEntry prio ((is.flatMap entries.level).find? test) := by
  induction is with
  | nil => rfl
  | cons i is ih =>
      rw [msgQueueLookLoop, hlook, List.flatMap_cons, List.find?_append]
      cases hfind : (entries.level i).find? test with
      | none =>
          rw [Option.none_or]
          exact (if_neg (not_not.mpr rfl)).trans ih
      | some e =>
          obtain ⟨he, hi⟩ := PrioQueue.mem_level.mp (List.mem_of_find?_eq_some hfind)
          rw [Option.some_or, ← hi]
          exact if_pos (h.nodePtr he).ne_zero

theorem order_eq : entries.order = (List.finRange msgPrioLength).flatMap entries.level :=
  PrioQueue.order_eq (List.pairwise_lt_finRange msgPrioLength) List.mem_finRange entries

/-- The next entry is the first one in the order of the pops. -/
theorem find_order : entries.order.find? (fun _ => true) = entries.peek? := by
  have hsorted := List.pairwise_lt_finRange msgPrioLength
  rw [order_eq]
  cases hpeek : entries.peek? with
  | none =>
      rw [PrioQueue.peek?_none.mp hpeek]
      rfl
  | some e =>
      rw [PrioQueue.flatMap_level hsorted (List.mem_finRange e.1) hpeek]
      rfl

theorem findMsgtype (h : MsgQueueRep w q m entries) (i : Fin msgPrioLength) (type : Nat) :
    msgListFindMsgtype w (q i) m type =
      (foundEntry none ((entries.level i).find? fun e => e.2.type == type)).1 := by
  rw [(h.lists i).find, levelNodes, List.find?_map]
  have htypes : (entries.level i).find? ((fun x => nodeType w m x == type) ∘ fun e => e.2.ptr) =
      (entries.level i).find? fun e => e.2.type == type := by
    refine List.find?_congr fun e he => ?_
    show (nodeType w m e.2.ptr == type) = (e.2.type == type)
    rw [h.types e (PrioQueue.mem_level.mp he).1]
  rw [htypes]
  cases (entries.level i).find? fun e => e.2.type == type <;> rfl

theorem peek_list (h : MsgQueueRep w q m entries) (i : Fin msgPrioLength) :
    msgListPeek (q i) = (foundEntry none ((entries.level i).find? fun _ => true)).1 := by
  rw [(h.lists i).peek, levelNodes]
  cases entries.level i <;> rfl

theorem length_eq (h : MsgQueueRep w q m entries) : msgQueueLength q = entries.length := by
  have hlength : ∀ i, msgListLength (q i) = (entries.level i).length := fun i => by
    rw [msgListLength, (h.lists i).length, levelNodes, List.length_map]
  unfold msgQueueLength
  simp only [hlength]
  rw [← entries.length_order, order_eq, List.length_flatMap]

/-- `msg_queue_pop` takes the next entry out of its list. -/
theorem msgQueuePop_eq (h : MsgQueueRep w q m entries) (prio : Option Nat) :
    msgQueuePop q m prio = match entries.peek? with
      | none => (q, 0, prio)
      | some e =>
          (Function.update q e.1 (msgListPop (q e.1) m).1, e.2.ptr, prio.map fun _ => e.1.val) := by
  unfold msgQueuePop
  cases hpeek : entries.peek? with
  | none =>
      refine h.popLoop_none prio fun i _ => ?_
      rw [PrioQueue.peek?_none.mp hpeek]
      rfl
  | some e =>
      exact h.popLoop_some prio hpeek (List.pairwise_lt_finRange msgPrioLength)
        (List.mem_finRange e.1)

/-- `msg_queue_find_msgtype` finds the first node of the type. -/
theorem find_eq (h : MsgQueueRep w q m entries) (prio : Option Nat) (type : Nat) :
    msgQueueFindMsgtype w q m prio type =
        (prioCall w m entries (.findMsgtype prio type)).2 ∧
      (msgPrioLength ≤ prio.getD msgPrioAny →
        ((prioCall w m entries (.findMsgtype prio type)).2.1 = 0 ↔
          ∀ e ∈ entries, e.2.type ≠ type)) := by
  unfold msgQueueFindMsgtype prioCall
  dsimp only
  by_cases hprio : prio.getD msgPrioAny < msgPrioLength
  · rw [dif_pos hprio, dif_pos hprio]
    refine ⟨?_, fun hge => absurd hprio (Nat.not_lt.mpr hge)⟩
    rw [h.findMsgtype]
  · rw [dif_neg hprio, dif_neg hprio]
    refine ⟨?_, fun _ => ?_⟩
    · rw [h.lookLoop fun i => h.findMsgtype i type, order_eq]
    · have hmem : ∀ e, e ∈ entries.order ↔ e ∈ entries := fun e =>
        PrioQueue.mem_order (List.pairwise_lt_finRange msgPrioLength) List.mem_finRange
      cases hfind : entries.order.find? fun e => e.2.type == type with
      | none =>
          refine iff_of_true rfl fun e he htype => ?_
          exact List.find?_eq_none.mp hfind e ((hmem e).mpr he) (beq_iff_eq.mpr htype)
      | some e =>
          have he := (hmem e).mp (List.mem_of_find?_eq_some hfind)
          have htype : (e.2.type == type) = true :=
            List.find?_some (p := fun e : Fin msgPrioLength × QueueNode => e.2.type == type) hfind
          refine iff_of_false (h.nodePtr he).ne_zero fun hnone => ?_
          exact hnone e he (beq_iff_eq.mp htype)

end MsgQueueRep

/-! ## The refinement -/

/-- A call does what the priority queue does. A push with a priority out of range has no
effect, and `NULL` is found without a priority exactly if no node of the type is queued. -/
structure QueueWorld.CallOk (w : Width) (s : QueueWorld) (op : QueueOp) : Prop where
  result : (queueCall w s.queue s.mem op).2 = (prioCall w s.mem s.entries op).2
  rep : MsgQueueRep w (s.call w op).queue (s.call w op).mem (s.call w op).entries
  refused : ∀ prio p, op = .push prio p → msgPrioLength ≤ prio → s.call w op = s
  null : ∀ prio type, op = .findMsgtype prio type → msgPrioLength ≤ prio.getD msgPrioAny →
    ((queueCall w s.queue s.mem op).2.1 = 0 ↔ ∀ e ∈ s.entries, e.2.type ≠ type)

theorem QueueWorld.push_refused (w : Width) (s : QueueWorld) {prio : Nat} (p : Nat)
    (hprio : ¬ prio < msgPrioLength) :
    (queueCall w s.queue s.mem (.push prio p)).2 =
        (prioCall w s.mem s.entries (.push prio p)).2 ∧ s.call w (.push prio p) = s := by
  have hqueue : msgQueuePush s.queue s.mem prio p = (s.queue, s.mem, 0) := dif_neg hprio
  have hentries : prioCall w s.mem s.entries (.push prio p) = (s.entries, 0, none) := dif_neg hprio
  unfold QueueWorld.call
  rw [hentries]
  simp only [queueCall, hqueue]
  trivial

/-- One call. -/
theorem MsgQueueRep.callOk {w : Width} {s : QueueWorld}
    (h : MsgQueueRep w s.queue s.mem s.entries) {op : QueueOp} (hop : s.Allowed w op) :
    s.CallOk w op := by
  cases op with
  | push prio p =>
      by_cases hprio : prio < msgPrioLength
      · have hqueue : msgQueuePush s.queue s.mem prio p =
            (Function.update s.queue ⟨prio, hprio⟩
              (msgListPush (s.queue ⟨prio, hprio⟩) s.mem p).1,
              (msgListPush (s.queue ⟨prio, hprio⟩) s.mem p).2, p) := dif_pos hprio
        have hentries : prioCall w s.mem s.entries (.push prio p) =
            (s.entries ++ [(⟨prio, hprio⟩, { ptr := p, type := nodeType w s.mem p })], p, none) :=
          dif_pos hprio
        refine ⟨?_, ?_, ?_, nofun⟩
        · rw [hentries]
          simp only [queueCall, hqueue]
        · unfold QueueWorld.call
          rw [hentries]
          simp only [queueCall, hqueue]
          exact h.push ⟨prio, hprio⟩ hop.1 hop.2
        · rintro _ _ ⟨⟩ hge
          omega
      · obtain ⟨hresult, hsame⟩ := s.push_refused w p hprio
        refine ⟨hresult, ?_, fun _ _ _ _ => hsame, nofun⟩
        rw [hsame]
        exact h
  | pop prio =>
      refine ⟨?_, ?_, nofun, nofun⟩
      · show (msgQueuePop s.queue s.mem prio).2 = foundEntry prio s.entries.peek?
        rw [h.msgQueuePop_eq]
        cases s.entries.peek? <;> rfl
      · show MsgQueueRep w (msgQueuePop s.queue s.mem prio).1 s.mem s.entries.pop
        rw [h.msgQueuePop_eq]
        cases hpeek : s.entries.peek? with
        | none =>
            rw [PrioQueue.peek?_none.mp hpeek] at h ⊢
            exact h
        | some e => exact (h.pop hpeek).2
  | peek prio =>
      refine ⟨?_, h, nofun, nofun⟩
      show msgQueueLookLoop _ s.queue prio _ = foundEntry prio s.entries.peek?
      rw [h.lookLoop h.peek_list, ← MsgQueueRep.order_eq, MsgQueueRep.find_order]
  | findMsgtype prio type =>
      obtain ⟨hresult, hnull⟩ := h.find_eq prio type
      refine ⟨hresult, h, nofun, ?_⟩
      rintro _ _ ⟨⟩ hprio
      have hsame : (queueCall w s.queue s.mem (.findMsgtype prio type)).2 =
          (prioCall w s.mem s.entries (.findMsgtype prio type)).2 := hresult
      rw [hsame]
      exact hnull hprio
  | length => exact ⟨Prod.ext h.length_eq rfl, h, nofun, nofun⟩

theorem queueSystem_rep (w : Width) :
    (queueSystem w).Invariant fun s => MsgQueueRep w s.queue s.mem s.entries := by
  apply TSys.Inductive.invariant
  constructor
  · rintro ⟨q, m, entries⟩ ⟨rfl, rfl⟩
    exact .init w m
  · rintro s i s' hs hstep
    cases hstep with
    | call hop => exact (hs.callOk hop).rep
    | write hm => exact hs.congr hm

/-- **The message queue is a stable priority queue**, in every run and for every call. -/
theorem msg_queue_stable_priority {w : Width} {s : QueueWorld} (hs : (queueSystem w).Reachable s)
    {op : QueueOp} (hop : s.Allowed w op) : s.CallOk w op :=
  (queueSystem_rep w s hs).callOk hop

/-- A node of low priority, one of high priority, and a pop. -/
theorem msg_queue_stable_priority_two :
    let s₀ : QueueWorld := { queue := msgQueueInit, mem := fun _ => 0, entries := [] }
    let s := (s₀.call .one (.push 2 100)).call .one (.push 0 200)
    s.CallOk .one (.pop (some 7)) ∧ (queueCall .one s.queue s.mem (.pop (some 7))).2 =
      (200, some 0) := by
  intro s₀ s
  have h₀ : (queueSystem .one).Reachable s₀ := .init ⟨rfl, rfl⟩
  have hop₁ : s₀.Allowed .one (.push 2 100) := ⟨by decide, nofun⟩
  have h₁ : (queueSystem .one).Reachable (s₀.call .one (.push 2 100)) := h₀.step (.call hop₁)
  have hop₂ : (s₀.call .one (.push 2 100)).Allowed .one (.push 0 200) :=
    ⟨by decide, by decide⟩
  have h₂ : (queueSystem .one).Reachable s := h₁.step (.call hop₂)
  have hok := msg_queue_stable_priority h₂ (show s.Allowed .one (.pop (some 7)) from trivial)
  exact ⟨hok, hok.result.trans (by decide)⟩

end EmbeddedMx
