import EmbeddedMx.Lib.Linked
import EmbeddedMx.Lib.TSys
import EmbeddedMx.Message.Model
import Mathlib.Data.List.Pairwise

/-!
# The message list as a sequence

`MsgListRep l m xs` says that the list `l` in memory `m` represents the
sequence of nodes `xs`: the `next` links lead from `msg_head` through exactly
`xs` to `NULL`, `msg_tail` is the last node, `length` their number. Each
operation has one specification in these terms, together with the words it
writes: only `next` words of nodes in the list.

`msg_list_remove` never updates `msg_tail`, so it represents the right sequence
only if the removed node is not the last one.
-/

namespace EmbeddedMx

open EmbeddedMx.Lib

/-- A non-null pointer. -/
structure NodePtr (p : Nat) : Prop where
  ne_zero : p ≠ 0
  lt : p < 256 ^ sizeofPtr

instance (p : Nat) : Decidable (NodePtr p) :=
  decidable_of_iff (p ≠ 0 ∧ p < 256 ^ sizeofPtr) ⟨fun h => ⟨h.1, h.2⟩, fun h => ⟨h.1, h.2⟩⟩

/-- The list `l` in memory `m` is the sequence `xs`. -/
structure MsgListRep (l : MsgList) (m : Mem) (xs : List Nat) : Prop where
  path : LinkPath (nodeNext m) l.msgHead xs 0
  tail : l.msgTail = xs.getLast?.getD 0
  length : l.length = xs.length
  valid : ∀ x ∈ xs, NodePtr x
  apart : xs.Pairwise fun a b => Apart a offsetofMsg b offsetofMsg

/-- Only `next` words of the nodes `xs` differ. -/
def NextFrame (xs : List Nat) (m m' : Mem) : Prop :=
  ∀ a, (∀ x ∈ xs, a < x ∨ x + sizeofPtr ≤ a) → m' a = m a

theorem NextFrame.refl (xs : List Nat) (m : Mem) : NextFrame xs m m := fun _ _ => rfl

theorem NextFrame.mono {xs ys : List Nat} {m m' : Mem} (h : NextFrame xs m m')
    (hsub : ∀ x ∈ xs, x ∈ ys) : NextFrame ys m m' :=
  fun a ha => h a fun x hx => ha x (hsub x hx)

theorem NextFrame.trans {xs : List Nat} {m m' m'' : Mem} (h : NextFrame xs m m')
    (h' : NextFrame xs m' m'') : NextFrame xs m m'' :=
  fun a ha => (h' a ha).trans (h a ha)

theorem nextFrame_setNodeNext (m : Mem) {xs : List Nat} {p v : Nat} (hp : p ∈ xs) :
    NextFrame xs m (setNodeNext m p v) :=
  fun _ ha => Mem.store_of_outside m p _ v (ha p hp)

theorem nodeNext_setNodeNext (m : Mem) (p : Nat) {v : Nat} (hv : v < 256 ^ sizeofPtr) :
    nodeNext (setNodeNext m p v) p = v :=
  Mem.load_store_same m p hv

theorem nodeNext_setNodeNext_apart (m : Mem) {p q v : Nat}
    (h : Apart q offsetofMsg p offsetofMsg) :
    nodeNext (setNodeNext m p v) q = nodeNext m q :=
  Mem.load_store_apart m (h.mono (Nat.le_refl _) (by simp [offsetofMsg, sizeofPtr])
    (Nat.le_refl _) (by simp [offsetofMsg, sizeofPtr]))

theorem NextFrame.nodeNext {xs : List Nat} {m m' : Mem} (h : NextFrame xs m m') {q : Nat}
    (hq : ∀ x ∈ xs, Apart q offsetofMsg x offsetofMsg) : nodeNext m' q = nodeNext m q := by
  refine Mem.load_congr fun a ha han => h a fun x hx => ?_
  have hax := hq x hx
  simp only [Apart, offsetofMsg, sizeofPtr] at *
  omega

theorem NodePtr.zero_lt : (0 : Nat) < 256 ^ sizeofPtr := by decide

theorem MsgListRep.nodup {l : MsgList} {m : Mem} {xs : List Nat} (h : MsgListRep l m xs) :
    xs.Nodup := by
  refine h.apart.imp fun hapart heq => ?_
  simp only [Apart, offsetofMsg] at hapart
  omega

theorem MsgListRep.zero_notMem {l : MsgList} {m : Mem} {xs : List Nat} (h : MsgListRep l m xs) :
    0 ∉ xs := fun hz => (h.valid 0 hz).ne_zero rfl

theorem msgListInit_rep (m : Mem) : MsgListRep msgListInit m [] where
  path := rfl
  tail := rfl
  length := rfl
  valid := by simp
  apart := .nil

/-- The head pointer is the first node, `NULL` for the empty list. -/
theorem MsgListRep.head_eq {l : MsgList} {m : Mem} {xs : List Nat} (h : MsgListRep l m xs) :
    l.msgHead = xs.head?.getD 0 := h.path.start_eq

/-- The representation depends on memory only through the `next` words. -/
theorem MsgListRep.congr {l : MsgList} {m m' : Mem} {xs : List Nat} (h : MsgListRep l m xs)
    (hm : ∀ x ∈ xs, nodeNext m' x = nodeNext m x) : MsgListRep l m' xs where
  path := h.path.congr hm
  tail := h.tail
  length := h.length
  valid := h.valid
  apart := h.apart

/-! ## Push, peek, pop -/

theorem MsgListRep.push {l : MsgList} {m : Mem} {xs : List Nat} {p : Nat}
    (h : MsgListRep l m xs) (hp : NodePtr p)
    (hapart : ∀ x ∈ xs, Apart x offsetofMsg p offsetofMsg) :
    MsgListRep (msgListPush l m p).1 (msgListPush l m p).2 (xs ++ [p]) ∧
      NextFrame (xs ++ [p]) m (msgListPush l m p).2 := by
  have hnew : nodeNext (setNodeNext m p 0) p = 0 := nodeNext_setNodeNext m p NodePtr.zero_lt
  have hold : ∀ x ∈ xs, nodeNext (setNodeNext m p 0) x = nodeNext m x :=
    fun x hx => nodeNext_setNodeNext_apart m (hapart x hx)
  have hvalid : ∀ x ∈ xs ++ [p], NodePtr x := by
    intro x hx
    rcases List.mem_append.mp hx with hx | hx
    · exact h.valid x hx
    · exact List.mem_singleton.mp hx ▸ hp
  have hpair : (xs ++ [p]).Pairwise fun a b => Apart a offsetofMsg b offsetofMsg := by
    rw [List.pairwise_append]
    exact ⟨h.apart, List.pairwise_singleton _ _,
      fun a ha b hb => List.mem_singleton.mp hb ▸ hapart a ha⟩
  have hframe : NextFrame (xs ++ [p]) m (setNodeNext m p 0) :=
    nextFrame_setNodeNext m (by simp)
  obtain rfl | ⟨init, last, rfl⟩ := List.eq_nil_or_concat' xs
  · -- the list was empty: head and tail become the new node
    have htail : l.msgTail = 0 := h.tail
    have hhead : l.msgHead = 0 := h.path
    simp only [msgListPush, htail, hhead, ne_eq, not_true_eq_false, if_false, if_true]
    exact ⟨⟨⟨rfl, hnew⟩, rfl, by simp [h.length], hvalid, hpair⟩, hframe⟩
  · -- the old last node is linked to the new one
    have htail : l.msgTail = last := by simpa using h.tail
    have hlast := h.valid last (by simp)
    have hhead : l.msgHead ≠ 0 := by
      intro hz
      have hpath := h.path
      rw [hz] at hpath
      cases init with
      | nil => exact hlast.ne_zero hpath.1.symm
      | cons x init => exact (h.valid x (by simp)).ne_zero hpath.1.symm
    simp only [msgListPush, htail, ne_eq, hlast.ne_zero, not_false_eq_true, if_true, hhead,
      if_false]
    have hlp := hapart last (by simp)
    obtain ⟨b, hinit, hb, _⟩ := linkPath_append.mp h.path
    have hinit' : ∀ x ∈ init, nodeNext (setNodeNext (setNodeNext m p 0) last p) x =
        nodeNext m x := by
      intro x hx
      have hxl := (List.pairwise_append.mp h.apart).2.2 x hx last (by simp)
      rw [nodeNext_setNodeNext_apart _ hxl, hold x (List.mem_append_left _ hx)]
    refine ⟨⟨?_, by simp, by simp [h.length], hvalid, hpair⟩,
      hframe.trans (nextFrame_setNodeNext _ (by simp))⟩
    rw [List.append_assoc]
    refine linkPath_append.mpr ⟨b, hinit.congr hinit', hb, ?_⟩
    refine ⟨nodeNext_setNodeNext _ last hp.lt, ?_⟩
    show nodeNext _ p = 0
    rw [nodeNext_setNodeNext_apart _ hlp.symm, hnew]

theorem MsgListRep.peek {l : MsgList} {m : Mem} {xs : List Nat} (h : MsgListRep l m xs) :
    msgListPeek l = xs.head?.getD 0 := h.head_eq

theorem MsgListRep.pop_nil {l : MsgList} {m : Mem} (h : MsgListRep l m []) :
    msgListPop l m = (l, 0) := by
  have hhead : l.msgHead = 0 := h.path
  simp [msgListPop, hhead]

theorem MsgListRep.pop_cons {l : MsgList} {m : Mem} {x : Nat} {xs : List Nat}
    (h : MsgListRep l m (x :: xs)) :
    (msgListPop l m).2 = x ∧ MsgListRep (msgListPop l m).1 m xs := by
  have hhead : l.msgHead = x := h.path.1
  have hx := h.valid x List.mem_cons_self
  have hnodup := List.nodup_cons.mp h.nodup
  simp only [msgListPop, hhead, hx.ne_zero, if_false, true_and]
  refine ⟨h.path.2, ?_, ?_, fun y hy => h.valid y (List.mem_cons_of_mem _ hy),
    (List.pairwise_cons.mp h.apart).2⟩
  · -- the tail pointer is cleared exactly when the popped node was the last
    have htail := h.tail
    cases xs with
    | nil =>
        simp only [List.getLast?_singleton, Option.getD_some] at htail
        simp [htail]
    | cons y ys =>
        rw [List.getLast?_cons_cons] at htail
        have hne : l.msgTail ≠ x := by
          rw [htail, List.getLast?_eq_some_getLast (List.cons_ne_nil y ys), Option.getD_some]
          intro heq
          exact hnodup.1 (heq ▸ List.getLast_mem (List.cons_ne_nil y ys))
        rw [if_neg hne]
        exact htail
  · simp [h.length]

/-- Pop returns the first node and leaves the rest. -/
theorem MsgListRep.pop {l : MsgList} {m : Mem} {xs : List Nat} (h : MsgListRep l m xs) :
    (msgListPop l m).2 = xs.head?.getD 0 ∧ MsgListRep (msgListPop l m).1 m xs.tail := by
  cases xs with
  | nil =>
      rw [h.pop_nil]
      exact ⟨rfl, h⟩
  | cons x xs => exact h.pop_cons

/-! ## Search -/

theorem msgListFindLoop_spec {w : Width} {type turns : Nat} {m : Mem} {p : Nat} {xs : List Nat}
    (h : LinkPath (nodeNext m) p xs 0) (hvalid : 0 ∉ xs) (hturns : xs.length < turns) :
    msgListFindLoop w type turns m p = (xs.find? fun x => nodeType w m x == type).getD 0 := by
  induction turns generalizing p xs with
  | zero => omega
  | succ turns ih =>
      cases xs with
      | nil =>
          have hp : p = 0 := h
          simp [msgListFindLoop, hp]
      | cons x xs =>
          obtain ⟨rfl, hrest⟩ := h
          have hx : p ≠ 0 := fun hz => hvalid (hz ▸ List.mem_cons_self)
          rw [msgListFindLoop, if_neg hx]
          by_cases htype : nodeType w m p = type
          · simp [htype]
          · rw [if_neg htype, ih hrest (fun hz => hvalid (List.mem_cons_of_mem _ hz))
              (by simpa using hturns)]
            simp [htype]

theorem MsgListRep.find {l : MsgList} {m : Mem} {xs : List Nat} (h : MsgListRep l m xs)
    (w : Width) (type : Nat) :
    msgListFindMsgtype w l m type = (xs.find? fun x => nodeType w m x == type).getD 0 :=
  msgListFindLoop_spec h.path h.zero_notMem (by rw [h.length]; omega)

/-! ## Remove -/

/-- The loop of `msg_list_remove`, standing at `p` behind the nodes `pre`: if
the target is among the remaining nodes it is unlinked from its predecessor,
and nothing happens otherwise. -/
theorem msgListRemoveLoop_spec (target : Nat) {turns : Nat} {l : MsgList} {m : Mem} {p : Nat}
    (pre rest : List Nat) (hpre : LinkPath (nodeNext m) l.msgHead pre p)
    (hrest : LinkPath (nodeNext m) p rest 0) (hvalid : ∀ x ∈ pre ++ rest, NodePtr x)
    (hapart : (pre ++ rest).Pairwise fun a b => Apart a offsetofMsg b offsetofMsg)
    (htarget : target ∉ pre) (hturns : rest.length < turns) :
    ∃ l' m', msgListRemoveLoop target turns l m pre.getLast? p =
        (l', m', if target ∈ rest then target else 0) ∧
      LinkPath (nodeNext m') l'.msgHead (pre ++ rest.erase target) 0 ∧
      l'.msgTail = l.msgTail ∧
      l'.length = (if target ∈ rest then l.length - 1 else l.length) ∧
      NextFrame (pre ++ rest.erase target) m m' := by
  induction turns generalizing p pre rest with
  | zero => omega
  | succ turns ih =>
      cases rest with
      | nil =>
          have hp : p = 0 := hrest
          subst hp
          refine ⟨l, m, ?_, ?_, rfl, rfl, .refl _ m⟩
          · simp [msgListRemoveLoop]
          · simpa using hpre
      | cons x rest =>
          obtain ⟨rfl, hnext⟩ := hrest
          have hx := hvalid p (by simp)
          by_cases htx : p = target
          · -- found: relink the predecessor
            subst htx
            have hpair := List.pairwise_append.mp hapart
            have hnotin : ∀ y ∈ rest, Apart p offsetofMsg y offsetofMsg :=
              (List.pairwise_cons.mp hpair.2.1).1
            obtain rfl | ⟨init, q, rfl⟩ := List.eq_nil_or_concat' pre
            · refine ⟨{ l with msgHead := nodeNext m p, length := l.length - 1 }, m, ?_, ?_, rfl,
                by simp, .refl _ m⟩
              · simp [msgListRemoveLoop, hx.ne_zero]
              · simpa using hnext
            · refine ⟨{ l with length := l.length - 1 }, setNodeNext m q (nodeNext m p), ?_, ?_,
                rfl, by simp, nextFrame_setNodeNext m (by simp)⟩
              · simp [msgListRemoveLoop, hx.ne_zero]
              · -- `q` now points behind the removed node
                obtain ⟨b, hinit, hb, _⟩ := linkPath_append.mp hpre
                have hpair' := List.pairwise_append.mp hpair.1
                have hlt : nodeNext m p < 256 ^ sizeofPtr := Mem.load_lt m p _
                rw [List.erase_cons_head, List.append_assoc]
                refine linkPath_append.mpr ⟨b, hinit.congr ?_, hb, ?_⟩
                · intro y hy
                  exact nodeNext_setNodeNext_apart m (hpair'.2.2 y hy q (by simp))
                · show LinkPath _ (nodeNext (setNodeNext m q (nodeNext m p)) q) rest 0
                  rw [nodeNext_setNodeNext m q hlt]
                  refine hnext.congr fun y hy => nodeNext_setNodeNext_apart m ?_
                  exact (hpair.2.2 q (by simp) y (List.mem_cons_of_mem _ hy)).symm
          · -- not here: go on behind `p`
            obtain ⟨l', m', heq, hpath, htail, hlen, hframe⟩ := ih
              (pre ++ [p]) rest
              (linkPath_append.mpr ⟨p, hpre, rfl, rfl⟩) hnext
              (by simpa using hvalid) (by simpa using hapart)
              (by simp [htarget, Ne.symm htx]) (by simpa using hturns)
            have hmem : target ∈ p :: rest ↔ target ∈ rest := by simp [Ne.symm htx]
            have herase : (p :: rest).erase target = p :: rest.erase target :=
              List.erase_cons_tail (by simpa using htx)
            refine ⟨l', m', ?_, ?_, htail, ?_, ?_⟩
            · simp only [msgListRemoveLoop, hx.ne_zero, htx, if_false, hmem]
              simpa using heq
            · rw [herase]
              simpa using hpath
            · simpa [hmem] using hlen
            · rw [herase]
              simpa using hframe

/-- `msg_list_remove` unlinks exactly the given node and leaves `msg_tail`
where it was. -/
theorem MsgListRep.remove_links {l : MsgList} {m : Mem} {xs : List Nat} (h : MsgListRep l m xs)
    (p : Nat) :
    ∃ l' m', msgListRemove l m p = (l', m', if p ∈ xs then p else 0) ∧
      LinkPath (nodeNext m') l'.msgHead (xs.erase p) 0 ∧ l'.msgTail = l.msgTail ∧
      l'.length = (xs.erase p).length ∧ NextFrame (xs.erase p) m m' := by
  obtain ⟨l', m', heq, hpath, htail, hlen, hframe⟩ :=
    msgListRemoveLoop_spec p [] xs rfl h.path (by simpa using h.valid) (by simpa using h.apart)
      (by simp) (show xs.length < l.length + 1 by rw [h.length]; omega)
  refine ⟨l', m', heq, hpath, htail, ?_, hframe⟩
  rw [hlen, List.length_erase, h.length]

/-- If the node is not the last one the result is again a message list. -/
theorem MsgListRep.remove {l : MsgList} {m : Mem} {xs : List Nat} (h : MsgListRep l m xs)
    {p : Nat} (hp : xs.getLast? ≠ some p) :
    (msgListRemove l m p).2.2 = (if p ∈ xs then p else 0) ∧
      MsgListRep (msgListRemove l m p).1 (msgListRemove l m p).2.1 (xs.erase p) ∧
      NextFrame (xs.erase p) m (msgListRemove l m p).2.1 := by
  obtain ⟨l', m', heq, hpath, htail, hlen, hframe⟩ := h.remove_links p
  rw [heq]
  refine ⟨rfl, ⟨hpath, ?_, hlen, fun x hx => h.valid x (List.mem_of_mem_erase hx),
    h.apart.sublist List.erase_sublist⟩, hframe⟩
  rw [htail, h.tail]
  obtain rfl | ⟨init, last, rfl⟩ := List.eq_nil_or_concat' xs
  · rfl
  · have hne : last ≠ p := by simpa using hp
    rw [List.erase_append]
    split <;> simp [hne]

end EmbeddedMx
