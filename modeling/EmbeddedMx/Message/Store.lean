import EmbeddedMx.Cba.Objects
import EmbeddedMx.Message.List
import Mathlib.Data.List.Nodup

/-!
# Message lists in the heap

`StoreRep w n is h q lists rest`: the lists `q i` in the heap `h`, whose pool has `n`
bytes, hold the messages `lists i`, and besides them the heap holds the messages `rest`, which are in no
list. Every message is an object of its own. One lemma for each way in which a
message moves: allocated, filled, pushed, popped, freed.
-/

namespace EmbeddedMx

open EmbeddedMx.Lib

/-- The object of a message: `msg_ptr_malloc` asks for this many bytes. -/
def Msg.obj (w : Width) (m : Msg) : HeapObj :=
  ⟨m.ptr, sizeofMsgPtr - sizeofMsg w + m.data.length⟩

/-- The node of a message lies in its object. -/
theorem Msg.obj_size (w : Width) (m : Msg) :
    offsetofMsg + w.bytes ≤ (m.obj w).size ∧ offsetofMsg + m.data.length ≤ (m.obj w).size := by
  cases w <;> simp only [Msg.obj, offsetofMsg, sizeofMsgPtr, sizeofMsg, Width.bytes] <;> omega

@[simp] theorem Msg.obj_ptr (w : Width) (m : Msg) : (m.obj w).ptr = m.ptr := rfl

@[simp] theorem nodeMsg_ptr (w : Width) (m : Mem) (p : Nat) : (nodeMsg w m p).ptr = p := rfl

@[simp] theorem length_nodeMsg_data (w : Width) (m : Mem) (p : Nat) :
    (nodeMsg w m p).data.length = nodeLength m p := by
  simp [nodeMsg]

theorem nodeLength_setNodeLength (m : Mem) (p : Nat) {v : Nat} (hv : v < 256 ^ sizeofPtr) :
    nodeLength (setNodeLength m p v) p = v :=
  Mem.load_store_same m (p + offsetofLength) hv

/-- A node filled the way its senders do: copy the bytes, then store the length. -/
theorem nodeMsg_filled (w : Width) (m : Mem) (p : Nat) (msg : Mem) {len : Nat}
    (hlen : len < 2 ^ 16) :
    (nodeMsg w (setNodeLength (m.copy (p + offsetofMsg) msg 0 len) p len) p).data =
      msg.read 0 len := by
  have hapart : Apart (p + offsetofMsg) len (p + offsetofLength) sizeofPtr := by
    simp only [Apart, offsetofMsg, offsetofLength, sizeofPtr]
    omega
  have hlength := nodeLength_setNodeLength (m.copy (p + offsetofMsg) msg 0 len) p
    (by simp only [sizeofPtr]; omega : len < 256 ^ sizeofPtr)
  simp only [nodeMsg, hlength]
  rw [setNodeLength, Mem.read_store_apart _ hapart, Mem.read_copy_same]

/-- The message in a node does not depend on the `next` word. -/
theorem nodeMsg_congr {w : Width} {m m' : Mem} {p : Nat}
    (h : ∀ x, p + sizeofPtr ≤ x → x < p + ((nodeMsg w m p).obj w).size → m' x = m x) :
    nodeMsg w m' p = nodeMsg w m p := by
  have hsize := (nodeMsg w m p).obj_size w
  rw [length_nodeMsg_data] at hsize
  simp only [offsetofMsg, sizeofPtr] at h hsize
  have hw : 1 ≤ w.bytes := by cases w <;> decide
  have hlen : nodeLength m' p = nodeLength m p := by
    apply Mem.load_congr
    intro x hx hxn
    simp only [offsetofLength, sizeofPtr] at hx hxn
    exact h x (by omega) (by omega)
  have htype : nodeType w m' p = nodeType w m p := by
    apply Mem.load_congr
    intro x hx hxn
    simp only [offsetofMsg] at hx hxn
    exact h x (by omega) (by omega)
  have hdata : m'.read (p + offsetofMsg) (nodeLength m p) =
      m.read (p + offsetofMsg) (nodeLength m p) := by
    apply Mem.read_congr
    intro x hx hxn
    simp only [offsetofMsg] at hx hxn
    exact h x (by omega) (by omega)
  simp only [nodeMsg, hlen, htype, hdata]

/-! ## Allocating a node -/

/-- `msg_ptr_malloc` writes the three words of the new node, and what `cba_malloc`
writes. -/
theorem msgPtrMalloc_of_ne {w : Width} {h : Heap} {len : Nat}
    (hlen : sizeofMsgPtr - sizeofMsg w + len ≤ 65532)
    (hne : (cbaMalloc h (sizeofMsgPtr - sizeofMsg w + len)).2 ≠ 0) :
    ∃ mem, msgPtrMalloc w h len =
        ({ (cbaMalloc h (sizeofMsgPtr - sizeofMsg w + len)).1 with mem := mem },
          (cbaMalloc h (sizeofMsgPtr - sizeofMsg w + len)).2) ∧
      nodeLength mem (cbaMalloc h (sizeofMsgPtr - sizeofMsg w + len)).2 = len ∧
      ∀ x, x < (cbaMalloc h (sizeofMsgPtr - sizeofMsg w + len)).2 ∨
          (cbaMalloc h (sizeofMsgPtr - sizeofMsg w + len)).2 + offsetofMsg ≤ x →
        mem x = (cbaMalloc h (sizeofMsgPtr - sizeofMsg w + len)).1.mem x := by
  have hsize : u16 (sizeofMsgPtr - sizeofMsg w + len) = sizeofMsgPtr - sizeofMsg w + len :=
    Nat.mod_eq_of_lt (by omega)
  unfold msgPtrMalloc
  simp only [hsize]
  rw [if_neg hne]
  generalize cbaMalloc h (sizeofMsgPtr - sizeofMsg w + len) = r at *
  refine ⟨_, rfl, nodeLength_setNodeLength _ _ (by simp only [sizeofPtr]; omega), ?_⟩
  intro x hx
  simp only [offsetofMsg] at hx
  simp only [setNodeLength, setNodePrivate, setNodeNext, offsetofLength, offsetofPrivate,
    sizeofPtr]
  rw [Mem.store_of_outside _ _ _ _ (by omega), Mem.store_of_outside _ _ _ _ (by omega),
    Mem.store_of_outside _ _ _ _ (by omega)]

theorem msgPtrMalloc_null {w : Width} {h : Heap} {len : Nat}
    (hlen : sizeofMsgPtr - sizeofMsg w + len ≤ 65532)
    (heq : cbaMalloc h (sizeofMsgPtr - sizeofMsg w + len) = (h, 0)) :
    msgPtrMalloc w h len = (h, 0) := by
  have hsize : u16 (sizeofMsgPtr - sizeofMsg w + len) = sizeofMsgPtr - sizeofMsg w + len :=
    Nat.mod_eq_of_lt (by omega)
  unfold msgPtrMalloc
  simp only [hsize]
  rw [heq, if_pos rfl]

/-- The three words of a node are inside its object. -/
theorem outside_node (w : Width) (len : Nat) {p x : Nat}
    (hx : x < p ∨ p + (sizeofMsgPtr - sizeofMsg w + len) ≤ x) : x < p ∨ p + offsetofMsg ≤ x := by
  cases w <;> simp only [sizeofMsgPtr, sizeofMsg, Width.bytes, offsetofMsg] at hx ⊢ <;> omega

/-- `msg_ptr_malloc` refuses without effect, or returns a new object and keeps the
others. -/
theorem HeapHolds.msgPtrMalloc {w : Width} {h : Heap} {objs : List HeapObj}
    (hh : HeapHolds h objs) {len : Nat} (hlen : sizeofMsgPtr - sizeofMsg w + len ≤ 65532)
    (hfits : CbaFits h (sizeofMsgPtr - sizeofMsg w + len)) :
    EmbeddedMx.msgPtrMalloc w h len = (h, 0) ∨
    ∃ h' p, EmbeddedMx.msgPtrMalloc w h len = (h', p) ∧ p ≠ 0 ∧ nodeLength h'.mem p = len ∧
      HeapHolds h' (⟨p, sizeofMsgPtr - sizeofMsg w + len⟩ :: objs) ∧
      (∀ o ∈ objs, o.ptr ≠ p ∧ o.Kept h.mem h'.mem) ∧
      h'.cba.buffer = h.cba.buffer ∧ h'.cba.size = h.cba.size := by
  rcases hh.malloc hfits hlen with heq | ⟨hne, hholds, hkept, hbuf, hsz⟩
  · exact .inl (msgPtrMalloc_null hlen heq)
  · obtain ⟨mem, heq, hlength, hmem⟩ := msgPtrMalloc_of_ne hlen hne
    refine .inr ⟨_, _, heq, hne, hlength, ?_, ?_, hbuf, hsz⟩
    · refine hholds.write fun x hx => hmem x (outside_node w len (hx _ List.mem_cons_self))
    · intro o ho
      have hapart := hholds.apart (List.mem_cons_of_mem _ ho) List.mem_cons_self (hkept o ho).1
      refine ⟨(hkept o ho).1, fun x hx hxn => (hmem x (outside_node w len ?_)).trans
        ((hkept o ho).2 x hx hxn)⟩
      dsimp only [Apart] at hapart
      omega

section Stored

variable {ι : Type}

/-- All messages: those in the lists `is`, and the rest. -/
def stored (is : List ι) (lists : ι → List Msg) (rest : List Msg) : List Msg :=
  is.flatMap lists ++ rest

theorem mem_stored {is : List ι} {lists : ι → List Msg} {rest : List Msg} {m : Msg} :
    m ∈ stored is lists rest ↔ (∃ i ∈ is, m ∈ lists i) ∨ m ∈ rest := by
  simp [stored]

theorem flatMap_update_of_notMem [DecidableEq ι] {is : List ι} {lists : ι → List Msg} {i : ι}
    {xs : List Msg} (hi : i ∉ is) : is.flatMap (Function.update lists i xs) = is.flatMap lists := by
  apply List.flatMap_congr
  intro j hj
  rw [Function.update_of_ne]
  rintro rfl
  exact hi hj

/-- Replacing one list: what it held goes, the new messages come. -/
theorem count_flatMap_update [DecidableEq ι] {is : List ι} (hnodup : is.Nodup)
    (lists : ι → List Msg) {i : ι} (hi : i ∈ is) (xs : List Msg) (a : Msg) :
    (is.flatMap (Function.update lists i xs)).count a + (lists i).count a =
      (is.flatMap lists).count a + xs.count a := by
  induction is with
  | nil => cases hi
  | cons j is ih =>
      obtain ⟨hj, hnodup⟩ := List.nodup_cons.mp hnodup
      rw [List.flatMap_cons, List.flatMap_cons, List.count_append, List.count_append]
      by_cases hij : j = i
      · subst hij
        rw [Function.update_self, flatMap_update_of_notMem hj]
        omega
      · rw [Function.update_of_ne hij]
        have := ih hnodup (by simpa [Ne.symm hij] using hi)
        omega

/-- The first message of a list is taken out. -/
theorem stored_pop_perm [DecidableEq ι] {is : List ι} (hnodup : is.Nodup) {lists : ι → List Msg}
    {i : ι} (hi : i ∈ is) {m : Msg} {ms rest : List Msg} (hcons : lists i = m :: ms) :
    (stored is (Function.update lists i ms) (m :: rest)).Perm (stored is lists rest) := by
  rw [List.perm_iff_count]
  intro a
  have hcount := count_flatMap_update hnodup lists hi ms a
  rw [hcons, List.count_cons] at hcount
  rw [stored, stored, List.count_append, List.count_append, List.count_cons]
  omega

/-- A message is put at the end of a list. -/
theorem stored_push_perm [DecidableEq ι] {is : List ι} (hnodup : is.Nodup) {lists : ι → List Msg}
    {i : ι} (hi : i ∈ is) {m : Msg} {rest : List Msg} :
    (stored is (Function.update lists i (lists i ++ [m])) rest).Perm
      (stored is lists (m :: rest)) := by
  rw [List.perm_iff_count]
  intro a
  have hcount := count_flatMap_update hnodup lists hi (lists i ++ [m]) a
  rw [List.count_append, List.count_singleton] at hcount
  rw [stored, stored, List.count_append, List.count_append, List.count_cons]
  omega

/-- The lists `q i` in the heap hold the messages `lists i`; the messages `rest`
are allocated and in no list. -/
structure StoreRep (w : Width) (n : Nat) (is : List ι) (h : Heap) (q : ι → MsgList)
    (lists : ι → List Msg) (rest : List Msg) : Prop where
  holds : HeapHolds h ((stored is lists rest).map (Msg.obj w))
  size : h.cba.size = n
  addr : h.cba.buffer + n ≤ 256 ^ sizeofPtr
  reps : ∀ i ∈ is, MsgListRep (q i) h.mem ((lists i).map Msg.ptr)
  nodup : ((stored is lists rest).map Msg.ptr).Nodup
  content : ∀ m ∈ stored is lists rest, nodeMsg w h.mem m.ptr = m

namespace StoreRep

variable {w : Width} {n : Nat} {is : List ι} {h : Heap} {q : ι → MsgList} {lists : ι → List Msg}
  {rest : List Msg}

theorem nodePtr (hs : StoreRep w n is h q lists rest) {m : Msg} (hm : m ∈ stored is lists rest) :
    NodePtr m.ptr := by
  have hbounds := hs.holds.bounds (List.mem_map_of_mem hm)
  have haddr := hs.addr
  have hsize := (m.obj_size w).1
  rw [hs.size] at hbounds
  simp only [Msg.obj_ptr, offsetofMsg, cbaHeaderLen, cbaAlignment] at hbounds hsize
  exact ⟨by omega, by omega⟩

/-- A message is determined by its node. -/
theorem ptr_inj (hs : StoreRep w n is h q lists rest) {m m' : Msg}
    (hm : m ∈ stored is lists rest) (hm' : m' ∈ stored is lists rest) (heq : m.ptr = m'.ptr) :
    m = m' := by
  rw [← hs.content m hm, ← hs.content m' hm', heq]

theorem apart (hs : StoreRep w n is h q lists rest) {m m' : Msg}
    (hm : m ∈ stored is lists rest) (hm' : m' ∈ stored is lists rest) (hne : m.ptr ≠ m'.ptr) :
    Apart m.ptr (m.obj w).size m'.ptr (m'.obj w).size :=
  hs.holds.apart (List.mem_map_of_mem hm) (List.mem_map_of_mem hm') hne

/-- The nodes of two messages are apart. -/
theorem node_apart (hs : StoreRep w n is h q lists rest) {m m' : Msg}
    (hm : m ∈ stored is lists rest) (hm' : m' ∈ stored is lists rest) (hne : m.ptr ≠ m'.ptr) :
    Apart m.ptr offsetofMsg m'.ptr offsetofMsg := by
  have hsize := m.obj_size w
  have hsize' := m'.obj_size w
  exact (hs.apart hm hm' hne).mono (Nat.le_refl _) (by omega) (Nat.le_refl _) (by omega)

/-- A message is in one list only. -/
theorem list_unique (hs : StoreRep w n is h q lists rest) {i j : ι} (hi : i ∈ is) (hj : j ∈ is)
    {m : Msg} (hmi : m ∈ lists i) (hmj : m ∈ lists j) : i = j := by
  have hnodup := (List.Nodup.of_map _ hs.nodup)
  rw [stored, List.nodup_append, List.nodup_flatMap] at hnodup
  by_contra hij
  have : Std.Symm (Function.onFun List.Disjoint lists) := ⟨fun _ _ hd x hx hy => hd hy hx⟩
  exact hnodup.1.2.forall hi hj hij hmi hmj

/-- The store after writes to the bodies of objects that keep every message: the
messages may change their places if the new lists are represented. -/
theorem change (hs : StoreRep w n is h q lists rest) {mem : Mem}
    (hmem : ∀ x, (∀ o ∈ stored is lists rest, x < o.ptr ∨ o.ptr + (o.obj w).size ≤ x) →
      mem x = h.mem x)
    (hcontent : ∀ o ∈ stored is lists rest, nodeMsg w mem o.ptr = o)
    {q' : ι → MsgList} {lists' : ι → List Msg} {rest' : List Msg}
    (hperm : (stored is lists' rest').Perm (stored is lists rest))
    (hreps : ∀ i ∈ is, MsgListRep (q' i) mem ((lists' i).map Msg.ptr)) :
    StoreRep w n is { h with mem := mem } q' lists' rest' where
  holds := (hs.holds.write fun x hx => hmem x fun _ ho => hx _ (List.mem_map_of_mem ho)).subset
    fun _ ho => ((hperm.map _).mem_iff).mp ho
  size := hs.size
  addr := hs.addr
  reps := hreps
  nodup := ((hperm.map _).nodup_iff).mpr hs.nodup
  content := fun m hm => hcontent m (hperm.mem_iff.mp hm)

/-! ## Reading a list -/

theorem length_eq (hs : StoreRep w n is h q lists rest) {i : ι} (hi : i ∈ is) :
    msgListLength (q i) = (lists i).length := by
  rw [msgListLength, (hs.reps i hi).length, List.length_map]

theorem peek_cons (hs : StoreRep w n is h q lists rest) {i : ι} (hi : i ∈ is) {m : Msg}
    {ms : List Msg} (hcons : lists i = m :: ms) : msgListPeek (q i) = m.ptr := by
  rw [(hs.reps i hi).peek, hcons]
  rfl

theorem head_mem {i : ι} (hi : i ∈ is) {m : Msg} {ms : List Msg} (hcons : lists i = m :: ms) :
    m ∈ stored is lists rest :=
  mem_stored.mpr (.inl ⟨i, hi, hcons ▸ List.mem_cons_self⟩)

/-! ## The loose messages -/

theorem mem_loose {m : Msg} : m ∈ stored is lists (m :: rest) :=
  mem_stored.mpr (.inr List.mem_cons_self)

theorem mem_of_mem_rest {m o : Msg} (ho : o ∈ stored is lists rest) :
    o ∈ stored is lists (m :: rest) := by
  rcases mem_stored.mp ho with ho | ho
  · exact mem_stored.mpr (.inl ho)
  · exact mem_stored.mpr (.inr (List.mem_cons_of_mem _ ho))

theorem stored_cons_perm {m : Msg} :
    (stored is lists (m :: rest)).Perm (m :: stored is lists rest) :=
  List.perm_middle

/-- The node of a loose message is not the node of another. -/
theorem loose_ne {m : Msg} (hs : StoreRep w n is h q lists (m :: rest)) {o : Msg}
    (ho : o ∈ stored is lists rest) : o.ptr ≠ m.ptr := by
  have hnodup := ((stored_cons_perm.map Msg.ptr).nodup_iff).mp hs.nodup
  rw [List.map_cons, List.nodup_cons] at hnodup
  intro heq
  exact hnodup.1 (List.mem_map.mpr ⟨o, ho, heq⟩)

/-- The store does not need to know of every loose message. -/
theorem sublist (hs : StoreRep w n is h q lists rest) {rest' : List Msg}
    (hsub : rest'.Sublist rest) : StoreRep w n is h q lists rest' where
  holds := hs.holds.subset ((List.Sublist.refl _).append hsub |>.map _).subset
  size := hs.size
  addr := hs.addr
  reps := hs.reps
  nodup := hs.nodup.sublist (((List.Sublist.refl _).append hsub).map _)
  content := fun o ho => hs.content o (((List.Sublist.refl _).append hsub).subset ho)

theorem drop {m : Msg} (hs : StoreRep w n is h q lists (m :: rest)) :
    StoreRep w n is h q lists rest :=
  hs.sublist (List.sublist_cons_self m rest)

/-- A further object holding a message. -/
theorem insert (hs : StoreRep w n is h q lists rest) {m : Msg}
    (hholds : HeapHolds h (m.obj w :: (stored is lists rest).map (Msg.obj w)))
    (hne : ∀ o ∈ stored is lists rest, o.ptr ≠ m.ptr) (hm : nodeMsg w h.mem m.ptr = m) :
    StoreRep w n is h q lists (m :: rest) where
  holds := hholds.subset fun _ ho => by
    rw [← List.map_cons]
    exact ((stored_cons_perm.map _).mem_iff).mp ho
  size := hs.size
  addr := hs.addr
  reps := hs.reps
  nodup := by
    refine ((stored_cons_perm.map Msg.ptr).nodup_iff).mpr (List.nodup_cons.mpr ⟨?_, hs.nodup⟩)
    intro hmem
    obtain ⟨o, ho, heq⟩ := List.mem_map.mp hmem
    exact hne o ho heq
  content := by
    intro o ho
    rcases List.mem_cons.mp (stored_cons_perm.mem_iff.mp ho) with rfl | ho
    · exact hm
    · exact hs.content o ho

/-- The store depends on the heap only through the objects it holds. -/
theorem keep (hs : StoreRep w n is h q lists rest) {h' : Heap}
    (hholds : HeapHolds h' ((stored is lists rest).map (Msg.obj w)))
    (hbuf : h'.cba.buffer = h.cba.buffer) (hsize : h'.cba.size = h.cba.size)
    (hkept : ∀ o ∈ stored is lists rest, (o.obj w).Kept h.mem h'.mem) :
    StoreRep w n is h' q lists rest where
  holds := hholds
  size := hsize.trans hs.size
  addr := by
    rw [hbuf]
    exact hs.addr
  reps := by
    intro i hi
    refine (hs.reps i hi).congr fun p hp => ?_
    obtain ⟨o, ho, rfl⟩ := List.mem_map.mp hp
    have hobj := (o.obj_size w).1
    refine Mem.load_congr fun x hx hxn => hkept o (mem_stored.mpr (.inl ⟨i, hi, ho⟩)) x hx ?_
    simp only [offsetofMsg, sizeofPtr, Msg.obj_ptr] at *
    omega
  nodup := hs.nodup
  content := by
    intro o ho
    have hold := hs.content o ho
    rw [← hold, nodeMsg_ptr]
    refine nodeMsg_congr fun x hx hxn => hkept o ho x (Nat.le_of_add_right_le hx) ?_
    rw [hold] at hxn
    exact hxn

/-! ## Allocating, filling and freeing -/

/-- `msg_ptr_malloc` refuses without effect, or returns the node of a new
message of the given length; what it holds is not determined. -/
theorem malloc (hs : StoreRep w n is h q lists rest) {len : Nat}
    (hlen : sizeofMsgPtr - sizeofMsg w + len ≤ 65532)
    (hfits : CbaFits h (sizeofMsgPtr - sizeofMsg w + len)) :
    msgPtrMalloc w h len = (h, 0) ∨
    ∃ h' m, msgPtrMalloc w h len = (h', m.ptr) ∧ m.ptr ≠ 0 ∧ m.data.length = len ∧
      (∀ o ∈ stored is lists rest, (o.obj w).Kept h.mem h'.mem) ∧
      StoreRep w n is h' q lists (m :: rest) := by
  rcases hs.holds.msgPtrMalloc hlen hfits with
    heq | ⟨h', p, heq, hne, hlength, hholds, hkept, hbuf, hsz⟩
  · exact .inl heq
  · have hdata : (nodeMsg w h'.mem p).data.length = len := by
      rw [length_nodeMsg_data, hlength]
    have hobj : (nodeMsg w h'.mem p).obj w = ⟨p, sizeofMsgPtr - sizeofMsg w + len⟩ := by
      rw [Msg.obj, hdata, nodeMsg_ptr]
    rw [← hobj] at hholds
    have hkept' : ∀ o ∈ stored is lists rest, (o.obj w).Kept h.mem h'.mem :=
      fun o ho => (hkept _ (List.mem_map_of_mem ho)).2
    have hold : StoreRep w n is h' q lists rest :=
      hs.keep (hholds.subset fun o ho => List.mem_cons_of_mem _ ho) hbuf hsz hkept'
    refine .inr ⟨h', nodeMsg w h'.mem p, heq, hne, hdata, hkept', hold.insert hholds ?_ rfl⟩
    intro o ho
    exact (hkept _ (List.mem_map_of_mem ho)).1

/-- Filling a loose message: writes behind its `next` word that keep its length. -/
theorem fill {m : Msg} (hs : StoreRep w n is h q lists (m :: rest)) {mem : Mem}
    (hmem : ∀ x, x < m.ptr + sizeofPtr ∨ m.ptr + (m.obj w).size ≤ x → mem x = h.mem x)
    (hlen : nodeLength mem m.ptr = m.data.length) :
    StoreRep w n is { h with mem := mem } q lists (nodeMsg w mem m.ptr :: rest) := by
  have hobj : (nodeMsg w mem m.ptr).obj w = m.obj w := by
    simp only [Msg.obj, length_nodeMsg_data, hlen, nodeMsg_ptr]
  have hheap : HeapHolds { h with mem := mem }
      ((nodeMsg w mem m.ptr).obj w :: (stored is lists rest).map (Msg.obj w)) := by
    rw [hobj, ← List.map_cons]
    refine (hs.holds.write fun x hx => hmem x ?_).subset
      fun o ho => ((stored_cons_perm.map _).mem_iff).mpr ho
    have hout := hx _ (List.mem_map_of_mem mem_loose)
    rw [Msg.obj_ptr] at hout
    omega
  refine (hs.drop.keep (hheap.subset fun o ho => List.mem_cons_of_mem _ ho) rfl rfl ?_).insert
    hheap (fun o ho => hs.loose_ne ho) rfl
  -- other messages are apart from the written bytes
  intro o ho x hx hxn
  have hapart := hs.apart (mem_of_mem_rest ho) mem_loose (hs.loose_ne ho)
  rw [Msg.obj_ptr] at hx hxn
  unfold Apart at hapart
  exact hmem x (by omega)

/-- Filling a loose message the way its senders do. -/
theorem fill_copy {m : Msg} (hs : StoreRep w n is h q lists (m :: rest)) (msg : Mem)
    (hlen : m.data.length < 2 ^ 16) {mem : Mem}
    (hmem : mem = setNodeLength (h.mem.copy (m.ptr + offsetofMsg) msg 0 m.data.length) m.ptr
      m.data.length) :
    (nodeMsg w mem m.ptr).data = msg.read 0 m.data.length ∧
      StoreRep w n is { h with mem := mem } q lists (nodeMsg w mem m.ptr :: rest) := by
  have hsize := m.obj_size w
  have hlength : nodeLength mem m.ptr = m.data.length := by
    rw [hmem]
    exact nodeLength_setNodeLength _ _ (by simp only [sizeofPtr]; omega)
  refine ⟨?_, hs.fill (fun x hx => ?_) hlength⟩
  · rw [hmem]
    exact nodeMsg_filled w h.mem m.ptr msg hlen
  · simp only [sizeofPtr, offsetofMsg] at hx hsize
    rw [hmem, setNodeLength, Mem.store_of_outside, Mem.copy_of_outside]
    · simp only [offsetofMsg]
      omega
    · simp only [offsetofLength, sizeofPtr]
      omega

/-- `cba_free` of a message in no list. -/
theorem free {m : Msg} (hs : StoreRep w n is h q lists (m :: rest)) :
    StoreRep w n is (cbaFree h m.ptr) q lists rest := by
  have hrest : ∀ o' ∈ (stored is lists rest).map (Msg.obj w),
      o' ∈ (stored is lists (m :: rest)).map (Msg.obj w) ∧ o'.ptr ≠ (m.obj w).ptr := by
    intro o' ho'
    obtain ⟨o, ho, rfl⟩ := List.mem_map.mp ho'
    exact ⟨List.mem_map_of_mem (mem_of_mem_rest ho), hs.loose_ne ho⟩
  obtain ⟨hholds, hkept, hbuf, hsize⟩ := hs.holds.free (List.mem_map_of_mem mem_loose) hrest
  exact hs.drop.keep hholds hbuf hsize
    fun o ho => hkept _ (List.mem_map_of_mem (mem_of_mem_rest ho))

/-! ## Moving messages -/

/-- `msg_list_pop` takes the first message out of its list. -/
theorem pop [DecidableEq ι] (hs : StoreRep w n is h q lists rest) (hnodup : is.Nodup) {i : ι}
    (hi : i ∈ is) {m : Msg} {ms : List Msg} (hcons : lists i = m :: ms) :
    (msgListPop (q i) h.mem).2 = m.ptr ∧
      StoreRep w n is h (Function.update q i (msgListPop (q i) h.mem).1)
        (Function.update lists i ms) (m :: rest) := by
  have hrep := hs.reps i hi
  rw [hcons] at hrep
  obtain ⟨hptr, hpop⟩ := hrep.pop_cons
  refine ⟨hptr, hs.change (fun _ _ => rfl) hs.content (stored_pop_perm hnodup hi hcons) ?_⟩
  intro j hj
  by_cases hij : j = i
  · subst hij
    rw [Function.update_self, Function.update_self]
    exact hpop
  · rw [Function.update_of_ne hij, Function.update_of_ne hij]
    exact hs.reps j hj

/-- `msg_list_push` writes `next` words of listed nodes only. -/
theorem push_frame {m : Msg} (hs : StoreRep w n is h q lists (m :: rest)) {i : ι} (hi : i ∈ is) :
    MsgListRep (msgListPush (q i) h.mem m.ptr).1 (msgListPush (q i) h.mem m.ptr).2
        ((lists i ++ [m]).map Msg.ptr) ∧
      NextFrame ((lists i ++ [m]).map Msg.ptr) h.mem (msgListPush (q i) h.mem m.ptr).2 := by
  have hmem : m ∈ stored is lists (m :: rest) := mem_loose
  have hin : ∀ o ∈ lists i, o ∈ stored is lists rest :=
    fun o ho => mem_stored.mpr (.inl ⟨i, hi, ho⟩)
  rw [List.map_append]
  refine (hs.reps i hi).push (hs.nodePtr hmem) ?_
  intro p hp
  obtain ⟨o, ho, rfl⟩ := List.mem_map.mp hp
  exact hs.node_apart (mem_of_mem_rest (hin o ho)) hmem (hs.loose_ne (hin o ho))

/-- Writes to `next` words of stored messages do not reach the rest of their objects. -/
theorem next_frame (hs : StoreRep w n is h q lists rest) {ms : List Msg} {mem : Mem}
    (hms : ∀ o ∈ ms, o ∈ stored is lists rest) (hframe : NextFrame (ms.map Msg.ptr) h.mem mem) :
    (∀ x, (∀ o ∈ stored is lists rest, x < o.ptr ∨ o.ptr + (o.obj w).size ≤ x) →
      mem x = h.mem x) ∧
    ∀ o ∈ stored is lists rest, ∀ x, o.ptr + sizeofPtr ≤ x → x < o.ptr + (o.obj w).size →
      mem x = h.mem x := by
  refine ⟨fun x hx => hframe x fun p hp => ?_, fun o ho x hx hxn => hframe x fun p hp => ?_⟩
  · obtain ⟨o, ho, rfl⟩ := List.mem_map.mp hp
    have hout := hx o (hms o ho)
    have hsize := (o.obj_size w).1
    simp only [offsetofMsg] at hsize
    simp only [sizeofPtr]
    omega
  · obtain ⟨o', ho', rfl⟩ := List.mem_map.mp hp
    by_cases heq : o'.ptr = o.ptr
    · exact .inr (by omega)
    · have hapart := hs.apart ho (hms o' ho') (Ne.symm heq)
      have hsize := (o'.obj_size w).1
      simp only [offsetofMsg] at hsize
      simp only [Apart, sizeofPtr] at hapart hx ⊢
      omega

/-- `msg_list_push` of a message in no list. -/
theorem push [DecidableEq ι] {m : Msg} (hs : StoreRep w n is h q lists (m :: rest))
    (hnodup : is.Nodup) {i : ι} (hi : i ∈ is) :
    StoreRep w n is { h with mem := (msgListPush (q i) h.mem m.ptr).2 }
      (Function.update q i (msgListPush (q i) h.mem m.ptr).1)
      (Function.update lists i (lists i ++ [m])) rest := by
  obtain ⟨hrep, hframe⟩ := hs.push_frame hi
  have hms : ∀ o ∈ lists i ++ [m], o ∈ stored is lists (m :: rest) := by
    intro o ho
    rcases List.mem_append.mp ho with ho | ho
    · exact mem_stored.mpr (.inl ⟨i, hi, ho⟩)
    · rw [List.mem_singleton.mp ho]
      exact mem_loose
  obtain ⟨hout, hin⟩ := hs.next_frame hms hframe
  refine hs.change hout ?_ (stored_push_perm hnodup hi) ?_
  · intro o ho
    have hold := hs.content o ho
    rw [← hold, nodeMsg_ptr]
    refine nodeMsg_congr fun x hx hxn => hin o ho x hx ?_
    rw [hold] at hxn
    exact hxn
  · intro j hj
    by_cases hij : j = i
    · subst hij
      rw [Function.update_self, Function.update_self]
      exact hrep
    · rw [Function.update_of_ne hij, Function.update_of_ne hij]
      refine (hs.reps j hj).congr fun p hp => hframe.nodeNext fun p' hp' => ?_
      obtain ⟨o, ho, rfl⟩ := List.mem_map.mp hp
      obtain ⟨o', ho', rfl⟩ := List.mem_map.mp hp'
      have hmem : o ∈ stored is lists (m :: rest) := mem_stored.mpr (.inl ⟨j, hj, ho⟩)
      refine hs.node_apart hmem (hms o' ho') fun heq => ?_
      -- a message of another list is not written
      have hsame := hs.ptr_inj hmem (hms o' ho') heq
      rcases List.mem_append.mp ho' with ho' | ho'
      · exact hij (hs.list_unique hj hi ho (hsame ▸ ho'))
      · rw [List.mem_singleton.mp ho'] at hsame
        exact hs.loose_ne (mem_stored.mpr (.inl ⟨j, hj, ho⟩)) (congrArg Msg.ptr hsame)

end StoreRep

end Stored

end EmbeddedMx
