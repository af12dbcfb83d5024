import EmbeddedMx.Cba.Fifo
import EmbeddedMx.Message.Store
import EmbeddedMx.Scheduler.Model

/-!
# The messages of the scheduler in its pool

`MailRep w n h l held queued`: the heap `h` over a pool of `n` bytes holds the
messages `held`, which have been taken and not yet freed, and the messages `queued`
of the list `l`, and nothing else; in the order of their allocation. A message
is posted at the end of the list and freed before any message behind it, so this
order is kept. One lemma for each of post, take and free, which says what becomes of
the letters in the messages.
-/

namespace EmbeddedMx

open EmbeddedMx.Lib

/-- The letters in the messages `ms`. -/
def letters (m : Mem) (ms : List Msg) : List Letter := ms.map fun x => letterAt m x.ptr

theorem letters_append (m : Mem) (xs ys : List Msg) :
    letters m (xs ++ ys) = letters m xs ++ letters m ys := List.map_append

theorem letterAt_eq (w : Width) (m : Mem) (p : Nat) :
    letterAt m p = { receiver := nodePrivate m p, bytes := (nodeMsg w m p).data } := by
  simp only [letterAt, nodeMsg]

/-- The letter in a node does not depend on the `next` word. -/
theorem letterAt_congr {w : Width} {m m' : Mem} {p : Nat}
    (h : ∀ x, p + sizeofPtr ≤ x → x < p + ((nodeMsg w m p).obj w).size → m' x = m x) :
    letterAt m' p = letterAt m p := by
  have hsize := ((nodeMsg w m p).obj_size w).1
  have hprivate : nodePrivate m' p = nodePrivate m p := by
    apply Mem.load_congr
    intro x hx hxn
    simp only [offsetofPrivate, offsetofMsg, sizeofPtr] at h hx hxn hsize
    exact h x (by omega) (by omega)
  rw [letterAt_eq w, letterAt_eq w, nodeMsg_congr h, hprivate]

theorem letters_congr {w : Width} {m m' : Mem} {ms : List Msg}
    (hms : ∀ o ∈ ms, nodeMsg w m o.ptr = o)
    (h : ∀ o ∈ ms, ∀ x, o.ptr + sizeofPtr ≤ x → x < o.ptr + (o.obj w).size → m' x = m x) :
    letters m' ms = letters m ms := by
  apply List.map_congr_left
  intro o ho
  refine letterAt_congr (w := w) fun x hx hxn => h o ho x hx ?_
  rw [hms o ho] at hxn
  exact hxn

/-! ## The buffer of the pool -/

theorem cbaMalloc_buffer (h : Heap) (len : Nat) :
    (cbaMalloc h len).1.cba.buffer = h.cba.buffer := by
  unfold cbaMalloc cbaAllocateChunk
  dsimp only
  split_ifs <;> rfl

theorem msgPtrMalloc_buffer (w : Width) (h : Heap) (len : Nat) :
    (msgPtrMalloc w h len).1.cba.buffer = h.cba.buffer := by
  unfold msgPtrMalloc
  dsimp only
  split
  · exact cbaMalloc_buffer h _
  · exact cbaMalloc_buffer h _

theorem cbaFreeLoop_buffer (turns : Nat) (h : Heap) (idx : Nat) :
    (cbaFreeLoop turns h idx).cba.buffer = h.cba.buffer := by
  induction turns generalizing h idx with
  | zero => rfl
  | succ turns ih =>
      unfold cbaFreeLoop
      split
      · rfl
      · split
        · rfl
        · exact ih _ _

theorem msgPtrFree_buffer (h : Heap) (p : Nat) : (msgPtrFree h p).cba.buffer = h.cba.buffer := by
  unfold msgPtrFree cbaFree
  dsimp only
  split
  · rfl
  · split
    · split
      · exact cbaFreeLoop_buffer _ _ _
      · exact cbaFreeLoop_buffer _ _ _
    · rfl

theorem sendMessage_buffer {σ : Type} (w : Width) (s : Scheduler σ) (self size : Nat)
    (fill : Mem → Nat → Mem) :
    (sendMessage w s self size fill).1.heap.cba.buffer = s.heap.cba.buffer := by
  unfold sendMessage schedulerPostMsg schedulerMalloc
  dsimp only
  split
  · exact msgPtrMalloc_buffer w s.heap _
  · exact msgPtrMalloc_buffer w s.heap _

/-! ## What the pool holds -/

/-- The heap holds the messages `held` and, in the list `l`, the messages `queued`. -/
structure MailRep (w : Width) (n : Nat) (h : Heap) (l : MsgList) (held queued : List Msg) :
    Prop where
  store : StoreRep w n [()] h (fun _ => l) (fun _ => queued) held
  fifo : HeapFifo h ((held ++ queued).map (Msg.obj w))

theorem mailRep_init (w : Width) (m : Mem) {buffer n : Nat} (hn : n < 2 ^ 16)
    (haddr : buffer + n ≤ 256 ^ sizeofPtr) :
    MailRep w n (cbaInit m buffer n) msgListInit [] [] where
  store :=
    { holds := cbaInit_holds m buffer hn
      size := rfl
      addr := haddr
      reps := fun _ _ => msgListInit_rep m
      nodup := List.nodup_nil
      content := by simp [stored] }
  fifo := cbaInit_fifo m buffer hn

namespace MailRep

variable {w : Width} {n : Nat} {h : Heap} {l : MsgList} {held queued : List Msg}

theorem mem_stored_iff {m : Msg} :
    m ∈ stored [()] (fun _ => queued) held ↔ m ∈ held ++ queued := by
  simp [stored, or_comm]

theorem letters_kept (hr : MailRep w n h l held queued) {m' : Mem} {ms : List Msg}
    (hms : ∀ o ∈ ms, o ∈ held ++ queued) (hkept : ∀ o ∈ ms, (o.obj w).Kept h.mem m') :
    letters m' ms = letters h.mem ms := by
  refine letters_congr (w := w) (fun o ho => hr.store.content o (mem_stored_iff.mpr (hms o ho))) ?_
  intro o ho x hx hxn
  exact hkept o ho x (Nat.le_of_add_right_le hx) hxn

theorem length_eq (hr : MailRep w n h l held queued) : msgListLength l = queued.length :=
  hr.store.length_eq List.mem_cons_self

/-! ## Taking and freeing -/

/-- The list is empty. -/
theorem pop_nil (hr : MailRep w n h l held []) : msgListPop l h.mem = (l, 0) :=
  (hr.store.reps () List.mem_cons_self).pop_nil

/-- The oldest message is taken. -/
theorem pop_cons {m : Msg} {ms : List Msg} (hr : MailRep w n h l [] (m :: ms)) :
    (msgListPop l h.mem).2 = m.ptr ∧ m.ptr ≠ 0 ∧ MailRep w n h (msgListPop l h.mem).1 [m] ms := by
  have hmem : m ∈ stored [()] (fun _ => m :: ms) [] := mem_stored_iff.mpr List.mem_cons_self
  have hqueue : (fun _ : Unit => m :: ms) () = m :: ms := rfl
  obtain ⟨hptr, hstore⟩ := hr.store.pop (List.nodup_singleton ()) List.mem_cons_self hqueue
  rw [Function.update_eq_const_of_subsingleton, Function.update_eq_const_of_subsingleton] at hstore
  exact ⟨hptr, (hr.store.nodePtr hmem).ne_zero, hstore, hr.fifo⟩

/-- The message that was taken is freed. -/
theorem free {m : Msg} (hr : MailRep w n h l [m] queued) :
    MailRep w n (msgPtrFree h m.ptr) l [] queued ∧
      letters (msgPtrFree h m.ptr).mem queued = letters h.mem queued := by
  have hnone : ∀ o ∈ ([] : List HeapObj), o ∈ (stored [()] (fun _ => queued) [m]).map (Msg.obj w) ∧
      o.ptr ≠ (m.obj w).ptr := nofun
  obtain ⟨_, hkept, _, _⟩ := hr.store.holds.free
    (List.mem_map_of_mem (StoreRep.mem_loose (m := m))) hnone
  refine ⟨⟨hr.store.free, hr.fifo.free⟩, hr.letters_kept (fun o ho => by simp [ho]) ?_⟩
  intro o ho
  exact hkept _ (List.mem_map_of_mem (mem_stored_iff.mpr (by simp [ho])))

/-- No message is left: the allocator is as `cba_init` left it. -/
theorem reset (hr : MailRep w n h l [] []) :
    h.cba = { buffer := h.cba.buffer, size := n, freeIdx := 0, headIdx := 0, tailIdx := 0 } := by
  obtain ⟨hfree, hhead, htail⟩ := hr.fifo.reset
  have hsize := hr.store.size
  cases hc : h.cba
  simp_all

/-! ## Posting -/

/-- A new node is the youngest object. -/
theorem fifo_malloc {objs : List HeapObj} (hf : HeapFifo h objs) {len : Nat}
    (hlen : sizeofMsgPtr - sizeofMsg w + len ≤ 65532)
    (hfits : CbaFits h (sizeofMsgPtr - sizeofMsg w + len)) (hne : (msgPtrMalloc w h len).2 ≠ 0) :
    HeapFifo (msgPtrMalloc w h len).1
      (objs ++ [⟨(msgPtrMalloc w h len).2, sizeofMsgPtr - sizeofMsg w + len⟩]) := by
  rcases hf.malloc hfits hlen with hnull | hfifo
  · rw [msgPtrMalloc_null hlen hnull] at hne
    exact absurd rfl hne
  · have hptr : (cbaMalloc h (sizeofMsgPtr - sizeofMsg w + len)).2 ≠ 0 := by
      intro hzero
      have hsize : u16 (sizeofMsgPtr - sizeofMsg w + len) = sizeofMsgPtr - sizeofMsg w + len :=
        Nat.mod_eq_of_lt (by omega)
      unfold msgPtrMalloc at hne
      simp only [hsize, hzero, if_true] at hne
      exact hne rfl
    obtain ⟨mem, heq, -, hmem⟩ := msgPtrMalloc_of_ne hlen hptr
    rw [heq]
    refine hfifo.write fun x hx => hmem x (outside_node w len ?_)
    exact hx _ (List.mem_append_right _ (List.mem_singleton.mpr rfl))

theorem fits (hr : MailRep w n h l held queued) (hn : n ≤ 4099) (len : Nat) : CbaFits h len := by
  obtain ⟨bs, hinv, -⟩ := hr.store.holds
  exact hinv.fits_of_size (hr.store.size.trans_le hn) len

/-- A letter is written into a new node: its bytes, and its receiver. -/
theorem written {m : Msg} {rest : List Msg} {q : Unit → MsgList} {lists : Unit → List Msg}
    (hs : StoreRep w n [()] h q lists (m :: rest)) {x : Letter}
    (hlen : m.data.length = x.bytes.length) (hreceiver : x.receiver < 256 ^ sizeofPtr) {mem : Mem}
    (hmem : mem = setNodePrivate (h.mem.write (m.ptr + offsetofMsg) x.bytes) m.ptr x.receiver) :
    letterAt mem m.ptr = x ∧
      StoreRep w n [()] { h with mem := mem } q lists (nodeMsg w mem m.ptr :: rest) ∧
      ∀ a, a < m.ptr + sizeofPtr ∨ m.ptr + (m.obj w).size ≤ a → mem a = h.mem a := by
  have hsize := m.obj_size w
  have hlength : nodeLength mem m.ptr = x.bytes.length := by
    have hold : nodeLength h.mem m.ptr = m.data.length := by
      have hcontent := congrArg (fun o => o.data.length) (hs.content m StoreRep.mem_loose)
      simpa using hcontent
    have hwrite : Apart (m.ptr + offsetofLength) sizeofPtr
        (m.ptr + offsetofMsg) x.bytes.length := by
      simp only [Apart, offsetofLength, sizeofPtr, offsetofMsg]
      omega
    have hstore : Apart (m.ptr + offsetofLength) sizeofPtr (m.ptr + offsetofPrivate) sizeofPtr := by
      simp only [Apart, offsetofLength, sizeofPtr, offsetofPrivate]
      omega
    rw [hmem, ← hlen, ← hold]
    exact (Mem.load_store_apart _ hstore).trans (Mem.load_write_apart _ hwrite)
  have hprivate : nodePrivate mem m.ptr = x.receiver := by
    rw [hmem]
    exact Mem.load_store_same _ _ hreceiver
  have hbytes : mem.read (m.ptr + offsetofMsg) x.bytes.length = x.bytes := by
    have hstore : Apart (m.ptr + offsetofMsg) x.bytes.length
        (m.ptr + offsetofPrivate) sizeofPtr := by
      simp only [Apart, sizeofPtr, offsetofMsg, offsetofPrivate]
      omega
    rw [hmem, setNodePrivate, Mem.read_store_apart _ hstore, Mem.read_write_same]
  have houtside : ∀ a, a < m.ptr + sizeofPtr ∨ m.ptr + (m.obj w).size ≤ a → mem a = h.mem a := by
    intro a ha
    simp only [sizeofPtr, offsetofMsg] at ha hsize
    rw [hmem, setNodePrivate, Mem.store_of_outside, Mem.write_of_outside]
    · simp only [offsetofMsg]
      omega
    · simp only [offsetofPrivate, sizeofPtr]
      omega
  exact ⟨by rw [letterAt, hlength, hprivate, hbytes], hs.fill houtside (hlength.trans hlen.symm),
    houtside⟩

/-- A message in no list is pushed; letters stay as they are. -/
theorem pushed {m : Msg} (hs : StoreRep w n [()] h (fun _ => l) (fun _ => queued) (m :: held))
    (hf : HeapFifo h ((held ++ queued).map (Msg.obj w) ++ [m.obj w])) :
    MailRep w n { h with mem := (msgListPush l h.mem m.ptr).2 } (msgListPush l h.mem m.ptr).1 held
        (queued ++ [m]) ∧
      ∀ o ∈ held ++ queued ++ [m],
        letterAt (msgListPush l h.mem m.ptr).2 o.ptr = letterAt h.mem o.ptr := by
  have hin : ∀ o ∈ held ++ queued ++ [m], o ∈ stored [()] (fun _ => queued) (m :: held) := by
    intro o ho
    rw [mem_stored_iff]
    simp only [List.mem_append, List.mem_cons, List.not_mem_nil, or_false] at ho ⊢
    tauto
  have hout : ∀ o ∈ stored [()] (fun _ => queued) (m :: held), o ∈ held ++ queued ++ [m] := by
    intro o ho
    rw [mem_stored_iff] at ho
    simp only [List.mem_append, List.mem_cons, List.not_mem_nil, or_false] at ho ⊢
    tauto
  obtain ⟨-, hframe⟩ := hs.push_frame List.mem_cons_self
  have hlisted : ∀ o ∈ queued ++ [m], o ∈ stored [()] (fun _ => queued) (m :: held) := by
    intro o ho
    refine hin o ?_
    rw [List.append_assoc]
    exact List.mem_append_right _ ho
  obtain ⟨houtside, hinside⟩ := hs.next_frame hlisted hframe
  have hstore := hs.push (List.nodup_singleton ()) List.mem_cons_self
  rw [Function.update_eq_const_of_subsingleton, Function.update_eq_const_of_subsingleton] at hstore
  refine ⟨⟨hstore, ?_⟩, fun o ho => letterAt_congr (w := w) fun x hx hxn => ?_⟩
  · have hobjs : (held ++ (queued ++ [m])).map (Msg.obj w) =
        (held ++ queued).map (Msg.obj w) ++ [m.obj w] := by
      rw [← List.append_assoc, List.map_append, List.map_singleton]
    rw [hobjs]
    refine hf.write fun x hx => houtside x fun o ho => ?_
    refine hx (o.obj w) ?_
    rw [← hobjs, ← List.append_assoc]
    exact List.mem_map_of_mem (hout o ho)
  · rw [hs.content o (hin o ho)] at hxn
    exact hinside o (hin o ho) x hx hxn

/-- A send is refused without effect, or appends the letter and leaves the others as they
are. -/
theorem send {σ : Type} {s : Scheduler σ} (hr : MailRep w n s.heap s.messages held queued)
    (hn : n ≤ 4099) {x : Letter} (hlen : x.bytes.length ≤ 4096)
    (hreceiver : x.receiver < 256 ^ sizeofPtr) {r : Scheduler σ × Int}
    (hsend : sendMessage w s x.receiver x.bytes.length (fun m p => m.write p x.bytes) = r) :
    r = (s, processErrNoMemory) ∨
    (r.2 = processSuccess ∧ ∃ m, MailRep w n r.1.heap r.1.messages held (queued ++ [m]) ∧
      letterAt r.1.heap.mem m.ptr = x ∧
      ∀ o ∈ held ++ queued, letterAt r.1.heap.mem o.ptr = letterAt s.heap.mem o.ptr) := by
  have hfits := hr.fits hn (sizeofMsgPtr - sizeofMsg w + x.bytes.length)
  have hsize : sizeofMsgPtr - sizeofMsg w + x.bytes.length ≤ 65532 := by
    simp only [sizeofMsgPtr]
    omega
  have huint : x.bytes.length % 2 ^ 32 = x.bytes.length := by
    have hw : sizeofMsg w ≤ sizeofMsgPtr := by cases w <;> decide
    exact Nat.mod_eq_of_lt (by omega)
  rcases hr.store.malloc hsize hfits with hnull | ⟨h', m, hmalloc, hne, hdata, hkept, hstore⟩
  · refine .inl ?_
    rw [← hsend]
    unfold sendMessage schedulerMalloc
    dsimp only
    rw [huint, hnull, if_pos rfl, if_pos rfl]
  · -- the new node is filled and pushed
    obtain ⟨hletter, hfilled, houtside⟩ := written hstore hdata hreceiver rfl
    have hfifo := fifo_malloc hr.fifo hsize hfits (by rw [hmalloc]; exact hne)
    rw [hmalloc] at hfifo
    have hposted : r = ({ s with
        heap := { h' with mem := (msgListPush s.messages (setNodePrivate
          (h'.mem.write (m.ptr + offsetofMsg) x.bytes) m.ptr x.receiver) m.ptr).2 }
        messages := (msgListPush s.messages (setNodePrivate
          (h'.mem.write (m.ptr + offsetofMsg) x.bytes) m.ptr x.receiver) m.ptr).1 },
        processSuccess) := by
      rw [← hsend]
      unfold sendMessage schedulerMalloc schedulerPostMsg
      dsimp only
      rw [huint, hmalloc]
      dsimp only
      rw [if_neg hne, if_neg (Nat.ne_of_gt (Nat.add_pos_right _ (by decide))), Nat.add_sub_cancel]
    generalize hmem : setNodePrivate (h'.mem.write (m.ptr + offsetofMsg) x.bytes) m.ptr x.receiver
      = mem at hletter hfilled houtside hposted
    subst hposted
    have hobj : (nodeMsg w mem m.ptr).obj w =
        ⟨m.ptr, sizeofMsgPtr - sizeofMsg w + x.bytes.length⟩ := by
      have hlength : nodeLength mem m.ptr = x.bytes.length := by
        rw [← hletter]
        simp only [letterAt, Mem.length_read]
      rw [Msg.obj, nodeMsg_ptr, length_nodeMsg_data, hlength]
    have hkeep : ∀ o ∈ held ++ queued, ∀ a, o.ptr ≤ a → a < o.ptr + (o.obj w).size →
        mem a = s.heap.mem a := by
      intro o ho a ha han
      have hstored := mem_stored_iff.mpr ho
      have hapart := hstore.apart (StoreRep.mem_of_mem_rest hstored) StoreRep.mem_loose
        (hstore.loose_ne hstored)
      unfold Apart at hapart
      rw [houtside a (by omega)]
      exact hkept o hstored a ha han
    have hwritten : HeapFifo { h' with mem := mem }
        ((held ++ queued).map (Msg.obj w) ++ [(nodeMsg w mem m.ptr).obj w]) := by
      rw [hobj]
      refine hfifo.write fun a ha => houtside a ?_
      have hnode := ha _ (List.mem_append_right _ (List.mem_singleton.mpr rfl))
      have hmobj : (m.obj w).size = sizeofMsgPtr - sizeofMsg w + x.bytes.length := by
        rw [Msg.obj, hdata]
      dsimp only at hnode
      omega
    obtain ⟨hrep, hletters⟩ := pushed hfilled hwritten
    refine .inr ⟨rfl, nodeMsg w mem m.ptr, hrep, ?_, fun o ho => ?_⟩
    · exact (hletters _ (List.mem_append_right _ (List.mem_singleton.mpr rfl))).trans hletter
    · refine (hletters o (List.mem_append_left _ ho)).trans ?_
      refine letterAt_congr (w := w) fun a ha han => hkeep o ho a (Nat.le_of_add_right_le ha) ?_
      rw [hr.store.content o (mem_stored_iff.mpr ho)] at han
      exact han

end MailRep

end EmbeddedMx
