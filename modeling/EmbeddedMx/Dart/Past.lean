import EmbeddedMx.Cba.Layout
import EmbeddedMx.Dart.Trigger
import EmbeddedMx.Dart.Whole

/-!
# Nothing is left of the past

`dart_init` and `dart_reset` clear no memory: the pool and the receive buffer keep the bytes
they happen to hold. Two endpoints that are set up alike, over any memory, are compared call by
call. They hold the same messages in the same places (`Alike`), and agree on the bytes that
have been received of a frame; whatever else their memories hold is never looked at.
-/

namespace EmbeddedMx

open EmbeddedMx.Lib

/-- A list is determined by the nodes it holds. -/
theorem MsgListRep.unique {l l' : MsgList} {m m' : Mem} {xs : List Nat} (h : MsgListRep l m xs)
    (h' : MsgListRep l' m' xs) : l' = l := by
  obtain ⟨head, tail, length⟩ := l
  obtain ⟨head', tail', length'⟩ := l'
  have hhead : head' = head := h'.head_eq.trans h.head_eq.symm
  have htail : tail' = tail := h'.tail.trans h.tail.symm
  have hlength : length' = length := h'.length.trans h.length.symm
  rw [hhead, htail, hlength]

theorem DartRep.queue_unique {B : Build} {n : Nat} {d d' : Dart} {e : Engine}
    (h : DartRep B n d e) (h' : DartRep B n d' e) : d'.queue = d.queue :=
  funext fun i => (h.store.reps i (mem_prios i)).unique (h'.store.reps i (mem_prios i))

/-- `msg_ptr_malloc` returns the same node, or `NULL` for both. -/
theorem SameChain.msgPtrMalloc {w : Width} {h h' : Heap} (hs : SameChain h h') {len : Nat}
    (hlen : sizeofMsgPtr - sizeofMsg w + len ≤ 65532)
    (hfits : CbaFits h (sizeofMsgPtr - sizeofMsg w + len)) :
    (EmbeddedMx.msgPtrMalloc w h' len).2 = (EmbeddedMx.msgPtrMalloc w h len).2 ∧
      SameChain (EmbeddedMx.msgPtrMalloc w h len).1 (EmbeddedMx.msgPtrMalloc w h' len).1 := by
  obtain ⟨hptr, hchain⟩ := hs.malloc hfits
  have hfits' := hs.fits hfits
  obtain ⟨bs, hinv, hinv'⟩ := hs.chain
  have hnil : HeapHolds h [] := ⟨bs, hinv, by simp⟩
  have hnil' : HeapHolds h' [] := ⟨bs, hinv', by simp⟩
  rcases hnil.malloc hfits hlen with heq | ⟨hne, hholds, -⟩
  · rcases hnil'.malloc hfits' hlen with heq' | ⟨hne', -⟩
    · rw [msgPtrMalloc_null hlen heq, msgPtrMalloc_null hlen heq']
      exact ⟨rfl, hs⟩
    · rw [heq] at hptr
      exact absurd hptr hne'
  · rcases hnil'.malloc hfits' hlen with heq' | ⟨hne', hholds', -⟩
    · rw [heq'] at hptr
      exact absurd hptr.symm hne
    · obtain ⟨mem, hmalloc, -, hmem⟩ := msgPtrMalloc_of_ne hlen hne
      obtain ⟨mem', hmalloc', -, hmem'⟩ := msgPtrMalloc_of_ne hlen hne'
      rw [hmalloc, hmalloc']
      rw [hptr] at hholds' hmem'
      -- what `msg_ptr_malloc` writes stays in the new node, so no header is touched
      refine ⟨hptr, hchain.write hholds hholds' (fun x hx => hmem x ?_) fun x hx => hmem' x ?_⟩
      · exact outside_node w len (hx _ List.mem_cons_self)
      · exact outside_node w len (hx _ List.mem_cons_self)

/-! ## Endpoints that are alike -/

/-- `d` without its messages, its memory and its log: the timers, the counters and the pins. -/
def Dart.bare (d : Dart) : Dart :=
  { d with
    heap := ⟨⟨0, 0, 0, 0, 0⟩, fun _ => 0⟩
    queue := msgQueueInit
    transfering := none
    pendingRequest := 0
    rxBuffer := fun _ => 0
    log := [] }

/-- The endpoints `d` and `d'`, whose logs were `L` and `L'` at the beginning, hold the same
messages and have done the same since. -/
structure Alike (B : Build) (n : Nat) (L L' : List Event) (d d' : Dart) : Prop where
  rep : ∃ e, DartRep B n d e ∧ DartRep B n d' e
  heap : SameChain d.heap d'.heap
  bare : d'.bare = d.bare
  log : ∃ evs, d.log = L ++ evs ∧ d'.log = L' ++ evs

/-- A function that concerns neither the messages nor the log. -/
structure Aside (g : Dart → Dart) : Prop where
  store : ∀ d, SameStore d (g d) := by exact fun _ => ⟨rfl, rfl, rfl, rfl⟩
  log : ∀ d, (g d).log = d.log := by exact fun _ => rfl
  bare : ∀ d, (g d).bare = (g d.bare).bare := by exact fun _ => rfl

section Functions

variable {B : Build} {n : Nat} {L L' : List Event} {d d' : Dart}

namespace Alike

theorem transfering (h : Alike B n L L' d d') : d'.transfering = d.transfering := by
  obtain ⟨e, hrep, hrep'⟩ := h.rep
  exact hrep'.transfering.trans hrep.transfering.symm

theorem pendingRequest (h : Alike B n L L' d d') : d'.pendingRequest = d.pendingRequest := by
  obtain ⟨e, hrep, hrep'⟩ := h.rep
  exact hrep'.pending.trans hrep.pending.symm

theorem queue (h : Alike B n L L' d d') : d'.queue = d.queue := by
  obtain ⟨e, hrep, hrep'⟩ := h.rep
  exact hrep.queue_unique hrep'

/-- The timers, the counters and the pins. -/
theorem field {α : Type} (h : Alike B n L L' d d') (g : Dart → α) (hg : ∀ d, g d.bare = g d) :
    g d' = g d :=
  (hg d').symm.trans ((congrArg g h.bare).trans (hg d))

theorem wrk (h : Alike B n L L' d d') : d'.wrk = d.wrk :=
  h.field _ fun _ => rfl

theorem rxBufferBytes (h : Alike B n L L' d d') : d'.rxBufferBytes = d.rxBufferBytes :=
  h.field _ fun _ => rfl

theorem aside (h : Alike B n L L' d d') {g : Dart → Dart} (hg : Aside g) :
    Alike B n L L' (g d) (g d') where
  rep := by
    obtain ⟨e, hrep, hrep'⟩ := h.rep
    exact ⟨e, hrep.congr (hg.store d), hrep'.congr (hg.store d')⟩
  heap := by
    rw [(hg.store d).heap, (hg.store d').heap]
    exact h.heap
  bare := by rw [hg.bare d', hg.bare d, h.bare]
  log := by
    rw [hg.log, hg.log]
    exact h.log

theorem emit (h : Alike B n L L' d d') (ev : Event) :
    Alike B n L L' (d.emit ev) (d'.emit ev) where
  rep := by
    obtain ⟨e, hrep, hrep'⟩ := h.rep
    exact ⟨e, hrep.congr (sameStore_emit d ev), hrep'.congr (sameStore_emit d' ev)⟩
  heap := h.heap
  bare := h.bare
  log := by
    obtain ⟨evs, hlog, hlog'⟩ := h.log
    exact ⟨evs ++ [ev], by rw [Dart.log_emit, hlog, List.append_assoc],
      by rw [Dart.log_emit, hlog', List.append_assoc]⟩

theorem notify (h : Alike B n L L' d d') (code : Clbk) :
    Alike B n L L' (d.notify code) (d'.notify code) :=
  h.emit _

theorem setWrk (h : Alike B n L L' d d') (state : Bool) :
    Alike B n L L' (d.setWrk state) (d'.setWrk state) :=
  (h.aside (g := fun d => { d with wrk := state }) {}).emit _

end Alike

/-! ## Selecting and sending -/

theorem alike_find (h : Alike B n L L' d d') :
    dartFindNextMessageQueue B d' = dartFindNextMessageQueue B d := by
  obtain ⟨e, hrep, hrep'⟩ := h.rep
  unfold dartFindNextMessageQueue
  rw [h.queue, h.pendingRequest]
  congr 1
  funext i
  dsimp only
  split
  · rename_i hlen
    rw [hrep.store.length_eq (mem_prios i)] at hlen
    obtain ⟨m, ms, hcons⟩ := List.exists_cons_of_ne_nil (List.ne_nil_of_length_pos hlen)
    have hm : m ∈ e.messages := Engine.head_mem hcons
    rw [hrep.peek hcons, hrep.node_type hm, hrep'.node_type hm]
  · rfl

/-- `dart_transfer_msg` for a message of the endpoint. -/
theorem DartRep.transferMsg_eq (env : Env) {e : Engine} (hrep : DartRep B n d e) {m : Msg}
    (hm : m ∈ e.messages) :
    dartTransferMsg B env d m.ptr = d.transferred env (transferOut B env m) := by
  obtain ⟨-, hlog⟩ := dartTransferMsg_spec env hrep hm
  obtain ⟨evs, -, heq⟩ := dartTransferMsg_eq B env d m.ptr
  rw [heq] at hlog ⊢
  rw [List.append_cancel_left hlog]

theorem Alike.transferred (env : Env) (h : Alike B n L L' d d') (evs : List Event) :
    Alike B n L L' (d.transferred env evs) (d'.transferred env evs) where
  rep := by
    obtain ⟨e, hrep, hrep'⟩ := h.rep
    exact ⟨e, hrep.congr ⟨rfl, rfl, rfl, rfl⟩, hrep'.congr ⟨rfl, rfl, rfl, rfl⟩⟩
  heap := h.heap
  bare := congrArg (fun d => (d.transferred env []).bare) h.bare
  log := by
    obtain ⟨evs₀, hlog, hlog'⟩ := h.log
    refine ⟨evs₀ ++ evs, ?_, ?_⟩
    · rw [← List.append_assoc, ← hlog]
      rfl
    · rw [← List.append_assoc, ← hlog']
      rfl

theorem alike_transferMsg (env : Env) (h : Alike B n L L' d d') {e : Engine}
    (hrep : DartRep B n d e) (hrep' : DartRep B n d' e) {m : Msg} (hm : m ∈ e.messages) :
    Alike B n L L' (dartTransferMsg B env d m.ptr) (dartTransferMsg B env d' m.ptr) := by
  rw [hrep.transferMsg_eq env hm, hrep'.transferMsg_eq env hm]
  exact h.transferred env _

theorem alike_wakeup (env : Env) (h : Alike B n L L' d d') :
    Alike B n L L' (dartWakeup env d).1 (dartWakeup env d').1 ∧
      (dartWakeup env d').2 = (dartWakeup env d).2 := by
  have hattempts : d'.wakeupAttempts = d.wakeupAttempts := h.field _ fun _ => rfl
  unfold dartWakeup
  by_cases hwrk : d.wrk
  · rw [if_pos hwrk, if_pos (h.wrk.trans hwrk)]
    exact ⟨h, rfl⟩
  · have hwrk' : ¬ d'.wrk := by rwa [h.wrk]
    rw [if_neg hwrk, if_neg hwrk', hattempts]
    dsimp only
    split
    · have hpin := (h.aside (g := fun x =>
        { x with wakeupAttempts := (d.wakeupAttempts + 1) % 256 }) {}).setWrk true
      generalize Dart.setWrk { d with wakeupAttempts := (d.wakeupAttempts + 1) % 256 } true = x
        at hpin ⊢
      generalize Dart.setWrk { d' with wakeupAttempts := (d.wakeupAttempts + 1) % 256 } true = x'
        at hpin ⊢
      have htimer : x'.wakeupTimer = x.wakeupTimer := hpin.field _ fun _ => rfl
      refine ⟨?_, rfl⟩
      dsimp only
      rw [htimer]
      split
      · exact hpin
      · exact hpin.aside (g := fun x =>
          { x with wakeupTimer := timerStart env.clock timerMs dartWakeupTimerVal }) {}
    · have hreset := h.aside (g := fun x => { x with wakeupAttempts := 0 }) {}
      exact ⟨hreset.notify .transferImpossible, rfl⟩

theorem alike_select (env : Env) (h : Alike B n L L' d d') :
    Alike B n L L' (dartSelect B env d).1 (dartSelect B env d').1 ∧
      (dartSelect B env d').2 = (dartSelect B env d).2 := by
  unfold dartSelect
  rw [alike_find h]
  cases hfind : dartFindNextMessageQueue B d with
  | none =>
      dsimp only
      rw [h.pendingRequest]
      exact ⟨h, rfl⟩
  | some i =>
      obtain ⟨e, hrep, hrep'⟩ := h.rep
      obtain ⟨m, ms, hcons, -⟩ := hrep.find_some hfind
      have hm : m ∈ e.messages := Engine.head_mem hcons
      let g : Dart → Dart := fun x =>
        { x with
          transfering := some i
          txAttempts := 0
          wakeupAttempts := 0
          closingTimer := timerStop
          wakeupTimer := timerStop }
      have hstart : ∀ {x : Dart}, DartRep B n x e →
          DartRep B n (g x) { e with transfering := some i } := by
        intro x hx
        refine ⟨hx.store, rfl, hx.pending, ?_, hx.len⟩
        intro j hj
        cases hj
        rw [hcons]
        exact List.cons_ne_nil m ms
      have hbare := congrArg (fun x => (g x).bare) h.bare
      have hg : Alike B n L L' (g d) (g d') :=
        ⟨⟨_, hstart hrep, hstart hrep'⟩, h.heap, hbare, h.log⟩
      have hmsg : (g d).msgAt B m.ptr = m := hrep.msgAt hm
      have hmsg' : (g d').msgAt B m.ptr = m := hrep'.msgAt hm
      dsimp only
      rw [hrep.peek hcons, hrep'.peek hcons]
      refine ⟨?_, rfl⟩
      -- both nodes hold the message `m` of the engine, so the frames are the same
      show Alike B n L L'
        (dartTransferMsg B env ((g d).emit (.start ((g d).msgAt B m.ptr))) m.ptr)
        (dartTransferMsg B env ((g d').emit (.start ((g d').msgAt B m.ptr))) m.ptr)
      rw [hmsg, hmsg']
      exact alike_transferMsg env (hg.emit _) ((hstart hrep).congr (sameStore_emit _ _))
        ((hstart hrep').congr (sameStore_emit _ _)) hm

/-- `dart_trigger_transfer` -/
theorem alike_trigger (env : Env) (h : Alike B n L L' d d') :
    Alike B n L L' (dartTriggerTransfer B env d).1 (dartTriggerTransfer B env d').1 ∧
      (dartTriggerTransfer B env d').2 = (dartTriggerTransfer B env d).2 := by
  obtain ⟨hwake, hflag⟩ := alike_wakeup env h
  unfold dartTriggerTransfer
  dsimp only
  rw [h.transfering, hflag]
  split
  · exact ⟨h, rfl⟩
  · split
    · split
      · exact alike_select env hwake
      · exact ⟨hwake.notify _, rfl⟩
    · exact ⟨hwake, rfl⟩

/-- `dart_trigger_next_transfer` -/
theorem alike_triggerNext (env : Env) (h : Alike B n L L' d d') :
    Alike B n L L' (dartTriggerNextTransfer B env d) (dartTriggerNextTransfer B env d') := by
  obtain ⟨htrigger, hstatus⟩ := alike_trigger env h
  unfold dartTriggerNextTransfer
  dsimp only
  rw [htrigger.pendingRequest, hstatus]
  split
  · exact htrigger.notify _
  · exact htrigger

/-! ## Finishing messages -/

/-- `dart_finalize_transfer`, for the message in transfer. -/
theorem alike_finalize (h : Alike B n L L' d d') :
    Alike B n L L' (dartFinalizeTransfer d) (dartFinalizeTransfer d') := by
  obtain ⟨e, hrep, hrep'⟩ := h.rep
  cases hi : e.transfering with
  | none =>
      have hidle : d.transfering = none := hrep.transfering.trans hi
      have hidle' : d'.transfering = none := hrep'.transfering.trans hi
      unfold dartFinalizeTransfer
      rw [hidle, hidle']
      exact h
  | some i =>
      obtain ⟨m, ms, hcons⟩ := hrep.current hi
      obtain ⟨hfin, -⟩ := hrep.finalize hi hcons
      obtain ⟨hfin', -⟩ := hrep'.finalize hi hcons
      have hm : m ∈ e.messages := Engine.head_mem hcons
      have hne := hrep.ptr_ne_zero hm
      have heq : ∀ {x : Dart}, DartRep B n x e → dartFinalizeTransfer x =
          { x with
            queue := Function.update x.queue i (msgListPop (x.queue i) x.heap.mem).1
            heap := cbaFree x.heap m.ptr
            transfering := none } := by
        intro x hx
        obtain ⟨hptr, -⟩ := hx.store.pop prios_nodup (mem_prios i) hcons
        unfold dartFinalizeTransfer
        rw [hx.transfering, hi]
        dsimp only
        rw [hptr, if_pos hne]
        rfl
      rw [heq hrep] at hfin ⊢
      rw [heq hrep'] at hfin' ⊢
      exact ⟨⟨_, hfin, hfin'⟩, h.heap.free hrep.store.holds (List.mem_map_of_mem hm), h.bare,
        h.log⟩

theorem DartRep.retry_eq (env : Env) {e : Engine} (hrep : DartRep B n d e)
    {i : Fin msgPrioLength} {m : Msg} {ms : List Msg} (hi : e.transfering = some i)
    (hcons : e.lists i = m :: ms) {x : Dart}
    (hx : x = { d with txAckTimer := timerStop, txAttempts := (d.txAttempts + 1) % 256 }) :
    dartRetryTransfer B env d =
      if x.txAttempts < dartTxAttempts then dartTransferMsg B env (x.emit (.retry m)) m.ptr
      else dartTriggerNextTransfer B env
        (dartFinalizeTransfer (x.callback .transferFailure (.stored m) m.data.length)) := by
  have hm : m ∈ e.messages := Engine.head_mem hcons
  subst hx
  have hrep' : DartRep B n
      { d with txAckTimer := timerStop, txAttempts := (d.txAttempts + 1) % 256 } e :=
    hrep.congr ⟨rfl, rfl, rfl, rfl⟩
  unfold dartRetryTransfer
  split
  · rename_i hidle
    rw [hrep.transfering, hi] at hidle
    cases hidle
  · rename_i j hj
    rw [hrep.transfering, hi] at hj
    cases hj
    dsimp only
    rw [hrep.peek hcons, if_neg (hrep.ptr_ne_zero hm), hrep'.msgAt hm, hrep.node_length hm]

/-- `dart_retry_transfer` -/
theorem alike_retry (env : Env) (h : Alike B n L L' d d') :
    Alike B n L L' (dartRetryTransfer B env d) (dartRetryTransfer B env d') := by
  obtain ⟨e, hrep, hrep'⟩ := h.rep
  cases hi : e.transfering with
  | none =>
      have hidle : d.transfering = none := hrep.transfering.trans hi
      have hidle' : d'.transfering = none := hrep'.transfering.trans hi
      unfold dartRetryTransfer
      rw [hidle, hidle']
      exact h
  | some i =>
      obtain ⟨m, ms, hcons⟩ := hrep.current hi
      have hm : m ∈ e.messages := Engine.head_mem hcons
      have hattempts : d'.txAttempts = d.txAttempts := h.field _ fun _ => rfl
      have hg := h.aside (g := fun x =>
        { x with txAckTimer := timerStop, txAttempts := (d.txAttempts + 1) % 256 }) {}
      rw [hrep.retry_eq env hi hcons rfl, hrep'.retry_eq env hi hcons (by rw [hattempts])]
      split
      · exact alike_transferMsg env (hg.emit _) (hrep.congr ⟨rfl, rfl, rfl, rfl⟩)
          (hrep'.congr ⟨rfl, rfl, rfl, rfl⟩) hm
      · exact alike_triggerNext env (alike_finalize (hg.emit _))

theorem DartRep.acknowledge_eq (env : Env) {e : Engine} (hrep : DartRep B n d e)
    {i : Fin msgPrioLength} {m : Msg} {ms : List Msg} (hi : e.transfering = some i)
    (hcons : e.lists i = m :: ms) {x : Dart} (hx : x = { d with txAckTimer := timerStop }) :
    dartAcknowledgeMsg B env d =
      dartTriggerNextTransfer B env (dartFinalizeTransfer
        (if m.type &&& msgTypeMask B.msgtypeSize = msgRequest B.msgtypeSize then
          dartAwaitResponse env (x.emit (.promote m)) i
        else x.callback .transferDone (.stored m) m.data.length)) := by
  have hm : m ∈ e.messages := Engine.head_mem hcons
  subst hx
  have hrep' : DartRep B n { d with txAckTimer := timerStop } e := hrep.congr ⟨rfl, rfl, rfl, rfl⟩
  unfold dartAcknowledgeMsg
  split
  · rename_i hidle
    rw [hrep.transfering, hi] at hidle
    cases hidle
  · rename_i j hj
    rw [hrep.transfering, hi] at hj
    cases hj
    dsimp only
    rw [hrep.peek hcons, if_neg (hrep.ptr_ne_zero hm), hrep'.msgAt hm, hrep.node_type hm,
      hrep.node_length hm]

theorem alike_awaitResponse (env : Env) (h : Alike B n L L' d d') {e : Engine}
    (hrep : DartRep B n d e) (hrep' : DartRep B n d' e) {i : Fin msgPrioLength} {m : Msg}
    {ms : List Msg} (hcons : e.lists i = m :: ms) :
    Alike B n L L' (dartAwaitResponse env d i) (dartAwaitResponse env d' i) where
  rep := ⟨_, hrep.awaitResponse env hcons, hrep'.awaitResponse env hcons⟩
  heap := h.heap
  bare := by
    have hbare := congrArg (fun x => (dartAwaitResponse env x i).bare) h.bare
    exact hbare
  log := h.log

/-- `dart_acknowledge_msg` -/
theorem alike_acknowledge (env : Env) (h : Alike B n L L' d d') :
    Alike B n L L' (dartAcknowledgeMsg B env d) (dartAcknowledgeMsg B env d') := by
  obtain ⟨e, hrep, hrep'⟩ := h.rep
  cases hi : e.transfering with
  | none =>
      have hidle : d.transfering = none := hrep.transfering.trans hi
      have hidle' : d'.transfering = none := hrep'.transfering.trans hi
      unfold dartAcknowledgeMsg
      rw [hidle, hidle']
      exact h
  | some i =>
      obtain ⟨m, ms, hcons⟩ := hrep.current hi
      have hg := h.aside (g := fun x => { x with txAckTimer := timerStop }) {}
      rw [hrep.acknowledge_eq env hi hcons rfl, hrep'.acknowledge_eq env hi hcons rfl]
      refine alike_triggerNext env (alike_finalize ?_)
      split
      · exact alike_awaitResponse env (hg.emit _) (hrep.congr ⟨rfl, rfl, rfl, rfl⟩)
          (hrep'.congr ⟨rfl, rfl, rfl, rfl⟩) hcons
      · exact hg.emit _

/-! ## Pending requests -/

/-- `dart_finalize_request_msg` -/
theorem alike_finalizeRequest (env : Env) (h : Alike B n L L' d d')
    (hpending : d.pendingRequest ≠ 0) :
    Alike B n L L' (dartFinalizeRequestMsg B env d) (dartFinalizeRequestMsg B env d') := by
  obtain ⟨e, hrep, hrep'⟩ := h.rep
  cases hp : e.pending with
  | none => exact absurd (hrep.pending_eq_zero.mpr hp) hpending
  | some m =>
      have hm : m ∈ e.messages := Engine.pending_mem hp
      have hfree : ∀ {x : Dart}, DartRep B n x e → DartRep B n
          { x with
            txResponseTimer := timerStop
            heap := cbaFree x.heap x.pendingRequest
            pendingRequest := 0 } { e with pending := none } := by
        intro x hx
        have hstore := hx.store
        rw [hp] at hstore
        refine ⟨?_, hx.transfering, rfl, hx.busy, ?_⟩
        · rw [hx.pending_some hp]
          exact hstore.free
        · intro o ho
          exact hx.len o ((Engine.unpend_perm hp).mem_iff.mp (List.mem_cons_of_mem _ ho))
      have hheap := h.heap.free hrep.store.holds (List.mem_map_of_mem hm)
      have hbare := congrArg (fun x => Dart.bare { x with txResponseTimer := timerStop }) h.bare
      refine alike_triggerNext env ⟨⟨_, hfree hrep, hfree hrep'⟩, ?_, hbare, h.log⟩
      show SameChain (cbaFree d.heap d.pendingRequest) (cbaFree d'.heap d'.pendingRequest)
      rw [hrep.pending_some hp, hrep'.pending_some hp]
      exact hheap

/-- `dart_abandon_request_msg` -/
theorem alike_abandon (env : Env) (h : Alike B n L L' d d') :
    Alike B n L L' (dartAbandonRequestMsg B env d) (dartAbandonRequestMsg B env d') := by
  obtain ⟨e, hrep, hrep'⟩ := h.rep
  unfold dartAbandonRequestMsg
  rw [h.pendingRequest]
  split
  · rename_i hpending
    cases hp : e.pending with
    | none => exact absurd (hrep.pending_eq_zero.mpr hp) hpending
    | some m =>
        have hm : m ∈ e.messages := Engine.pending_mem hp
        dsimp only
        rw [hrep.pending_some hp, hrep.msgAt hm, hrep'.msgAt hm, hrep.node_length hm,
          hrep'.node_length hm]
        exact alike_finalizeRequest env (h.emit _) hpending
  · exact h

/-- The check of a received message against the pending request. -/
theorem alike_checkResponse (env : Env) (h : Alike B n L L' d d') (type msgLen : Nat) :
    Alike B n L L' (dartCheckResponse B env d type msgLen)
      (dartCheckResponse B env d' type msgLen) := by
  obtain ⟨e, hrep, hrep'⟩ := h.rep
  unfold dartCheckResponse
  dsimp only
  rw [h.pendingRequest]
  by_cases hpending : d.pendingRequest = 0
  · rw [if_pos hpending, if_pos hpending]
    exact h
  · rw [if_neg hpending, if_neg hpending]
    cases hp : e.pending with
    | none => exact absurd (hrep.pending_eq_zero.mpr hp) hpending
    | some m =>
        have hm : m ∈ e.messages := Engine.pending_mem hp
        rw [hrep.pending_some hp, hrep.msgAt hm, hrep'.msgAt hm, hrep.node_type hm,
          hrep'.node_type hm]
        split
        · exact h
        · split
          · exact h
          · exact alike_finalizeRequest env (h.emit _) hpending

/-! ## Receiving -/

theorem alike_control (env : Env) (h : Alike B n L L' d d') (ch : UInt8) :
    Alike B n L L' (dartHandleControl B env d ch) (dartHandleControl B env d' ch) := by
  unfold dartHandleControl
  split
  · exact alike_acknowledge env (h.emit _)
  · split
    · exact alike_retry env (h.emit _)
    · split
      · exact (alike_trigger env (h.emit _)).1
      · exact h

/-- The receive buffers hold the same bytes of a frame. -/
def RxAgree (d d' : Dart) : Prop :=
  ∀ x, x < d.rxBufferBytes → d'.rxBuffer x = d.rxBuffer x

/-- A field of the frame in the buffer. -/
theorem loadBe_agree {w : Width} {m m' : Mem} {a : Nat}
    (h : ∀ x, x < a + w.bytes → m' x = m x) : loadBe w m' a = loadBe w m a := by
  cases w with
  | one => simp only [loadBe, h a (by simp [Width.bytes])]
  | two => simp only [loadBe, h a (by simp [Width.bytes]), h (a + 1) (by simp [Width.bytes])]

theorem alike_rxTimeout (env : Env) (h : Alike B n L L' d d') (hrx : RxAgree d d') :
    Alike B n L L' (dartRxTimeout env d) (dartRxTimeout env d') ∧
      RxAgree (dartRxTimeout env d) (dartRxTimeout env d') := by
  have htimer : d'.rxByteTimer = d.rxByteTimer := h.field _ fun _ => rfl
  unfold dartRxTimeout
  rw [htimer]
  split
  · exact ⟨(h.notify .transferIncomplete).aside
      (g := fun x => { x with rxByteTimer := timerStop, rxBufferBytes := 0 }) {},
      fun x hx => absurd hx (Nat.not_lt_zero x)⟩
  · exact ⟨h, hrx⟩

theorem alike_rxStore (env : Env) (h : Alike B n L L' d d') (hrx : RxAgree d d') (ch : UInt8) :
    Alike B n L L' (dartRxStore env d ch) (dartRxStore env d' ch) ∧
      RxAgree (dartRxStore env d ch) (dartRxStore env d' ch) := by
  refine ⟨h.aside (g := fun x => dartRxStore env x ch) {}, fun x hx => ?_⟩
  obtain ⟨hnew, hold⟩ := dartRxStore_rxBuffer env d ch
  obtain ⟨hnew', hold'⟩ := dartRxStore_rxBuffer env d' ch
  rw [h.rxBufferBytes] at hnew' hold'
  have hle : (dartRxStore env d ch).rxBufferBytes ≤ d.rxBufferBytes + 1 := Nat.mod_le _ _
  -- the byte that has just been stored, or one that had been received before
  by_cases hlast : x = d.rxBufferBytes
  · rw [hlast, hnew, hnew']
  · rw [hold x hlast, hold' x hlast]
    exact hrx x (by omega)

theorem alike_rxDrop (h : Alike B n L L' d d') :
    Alike B n L L' (dartRxDrop d) (dartRxDrop d') ∧ RxAgree (dartRxDrop d) (dartRxDrop d') :=
  ⟨h.aside (g := dartRxDrop) {},
    fun x hx => absurd hx (Nat.not_lt_zero x)⟩

/-- A frame that reaches to the end of the type. -/
theorem alike_frame (env : Env) (h : Alike B n L L' d d') (dataLen : Nat)
    (hrx : ∀ x, x < B.frameBytes dataLen → d'.rxBuffer x = d.rxBuffer x)
    (htype : sizeofMsg B.msgtypeSize ≤ dataLen + B.crcSize.bytes) :
    Alike B n L L' (dartHandleFrame B env d dataLen) (dartHandleFrame B env d' dataLen) := by
  simp only [Build.frameBytes, Build.lenBytes] at hrx
  have hcrc : dartGetCrcValue B d'.rxBuffer dataLen = dartGetCrcValue B d.rxBuffer dataLen :=
    loadBe_agree fun x hx => hrx x (by simpa only [Build.dataIdx, Build.lenIdx] using hx)
  have hdata : d'.rxBuffer.read B.dataIdx dataLen = d.rxBuffer.read B.dataIdx dataLen :=
    Mem.read_congr fun x _ hx => hrx x (by simp only [Build.dataIdx, Build.lenIdx] at hx; omega)
  -- the type of a frame that is shorter than it is read from the check value
  have hload : d'.rxBuffer.load B.dataIdx B.msgtypeSize.bytes =
      d.rxBuffer.load B.dataIdx B.msgtypeSize.bytes := by
    refine Mem.load_congr fun x _ hx => hrx x ?_
    simp only [Build.dataIdx, Build.lenIdx, sizeofMsg] at hx htype
    omega
  unfold dartHandleFrame
  dsimp only
  rw [hcrc, hdata]
  split
  · exact (h.emit _).notify _
  · unfold dartHandleReceivedMsg
    dsimp only
    have hdata' : (dartPushByte d' dartAck).rxBuffer.read B.dataIdx dataLen =
      (dartPushByte d dartAck).rxBuffer.read B.dataIdx dataLen := hdata
    have hload' : (dartPushByte d' dartAck).rxBuffer.load B.dataIdx B.msgtypeSize.bytes =
      (dartPushByte d dartAck).rxBuffer.load B.dataIdx B.msgtypeSize.bytes := hload
    rw [hdata', hload']
    -- the callback may leave anything in the buffers: it is all dropped with the frame
    have hgiven := ((h.emit (.uart [dartAck])).emit (.callback .messageReceived
      (.rx (d.rxBuffer.load B.dataIdx B.msgtypeSize.bytes)
        (d.rxBuffer.read B.dataIdx dataLen)) dataLen)).aside
      (g := fun x => { x with rxBuffer := env.received x.rxBuffer }) {}
    exact alike_checkResponse env hgiven _ _

/-- The frame that is complete with the byte `ch` reaches to the end of the type. -/
def ReachesType (B : Build) (env : Env) (d : Dart) (ch : UInt8) : Prop :=
  let rx := dartRxStore env (dartRxTimeout env d) ch
  B.frameBytes (dartGetDataLen B rx.rxBuffer) ≤ rx.rxBufferBytes →
    sizeofMsg B.msgtypeSize ≤ dartGetDataLen B rx.rxBuffer + B.crcSize.bytes

instance (B : Build) (env : Env) (d : Dart) (ch : UInt8) : Decidable (ReachesType B env d ch) :=
  inferInstanceAs (Decidable (_ → _))

/-- `dart_handle_received_char` -/
theorem alike_received (env : Env) (h : Alike B n L L' d d') (hrx : RxAgree d d') {ch : UInt8}
    (htype : ReachesType B env d ch) :
    Alike B n L L' (dartHandleReceivedChar B env d ch) (dartHandleReceivedChar B env d' ch) ∧
      RxAgree (dartHandleReceivedChar B env d ch) (dartHandleReceivedChar B env d' ch) := by
  obtain ⟨htimeout, hrx₁⟩ := alike_rxTimeout env h hrx
  obtain ⟨hstore, hrx₂⟩ := alike_rxStore env htimeout hrx₁ ch
  unfold dartHandleReceivedChar
  unfold ReachesType at htype
  -- from here on only the endpoints that have stored the byte count
  generalize dartRxStore env (dartRxTimeout env d) ch = x at *
  generalize dartRxStore env (dartRxTimeout env d') ch = x' at *
  have hsize : x'.rxBufferSize = x.rxBufferSize := hstore.field _ fun _ => rfl
  have hbytes := hstore.rxBufferBytes
  dsimp only at htype ⊢
  by_cases hone : x.rxBufferBytes = 1
  · rw [if_pos hone, if_pos (hbytes.trans hone)]
    have hstart := hstore.aside (g := fun x =>
      { x with rxByteTimer := timerStart env.clock timerMs dartByteTimerVal }) {}
    by_cases hwrk : x.wrk
    · rw [if_pos hwrk, if_pos hwrk, if_pos (hstore.wrk.trans hwrk), if_pos (hstore.wrk.trans hwrk)]
      split
      · exact ⟨hstart, hrx₂⟩
      · exact alike_rxDrop (alike_control env hstore ch)
    · have hwrk' : ¬ x'.wrk := by rwa [hstore.wrk]
      rw [if_neg hwrk, if_neg hwrk, if_neg hwrk', if_neg hwrk']
      split
      · exact ⟨hstart.setWrk true, hrx₂⟩
      · exact alike_rxDrop hstore
  · have hone' : ¬ x'.rxBufferBytes = 1 := by rwa [hbytes]
    rw [if_neg hone, if_neg hone', hbytes]
    split
    · exact ⟨hstore, hrx₂⟩
    · rename_i hlen
      have hdataLen : dartGetDataLen B x'.rxBuffer = dartGetDataLen B x.rxBuffer :=
        loadBe_agree fun a ha => hrx₂ a (by
          simp only [Build.lenIdx, Build.lenBytes] at ha hlen
          omega)
      rw [hdataLen, hsize]
      split
      · exact alike_rxDrop (hstore.notify _)
      · split
        · exact ⟨hstore, hrx₂⟩
        · rename_i hcomplete
          exact alike_rxDrop (alike_frame env hstore _ (fun a ha => hrx₂ a (by omega))
            (htype (by omega)))

/-! ## Time -/

theorem alike_closing (env : Env) (h : Alike B n L L' d d') :
    Alike B n L L' (dartHandleClosing env d).1 (dartHandleClosing env d').1 := by
  have htimer : d'.closingTimer = d.closingTimer := h.field _ fun _ => rfl
  have hset : ∀ {x x' : Dart}, Alike B n L L' x x' → ∀ timer, Alike B n L L'
      { x with closingTimer := timer } { x' with closingTimer := timer } :=
    fun hx timer => hx.aside (g := fun x => { x with closingTimer := timer }) {}
  unfold dartHandleClosing
  by_cases hwrk : d.wrk
  · rw [if_pos hwrk, if_pos (h.wrk.trans hwrk), htimer]
    split
    · split
      · exact hset (h.setWrk false) _
      · exact h
    · exact hset h _
  · have hwrk' : ¬ d'.wrk := by rwa [h.wrk]
    rw [if_neg hwrk, if_neg hwrk', htimer]
    split
    · split
      · dsimp only
        split
        · exact hset h _
        · exact (hset h _).notify .idle
      · exact h
    · split
      · exact h.setWrk true
      · exact h

/-- `dart_handle_time` -/
theorem alike_time (env : Env) (h : Alike B n L L' d d') :
    Alike B n L L' (dartHandleTime B env d).1 (dartHandleTime B env d').1 := by
  have hresponse : d'.txResponseTimer = d.txResponseTimer := h.field _ fun _ => rfl
  unfold dartHandleTime
  rw [h.pendingRequest, hresponse]
  generalize hx : (if d.pendingRequest ≠ 0 ∧ timerExpired d.txResponseTimer env.clock then
    dartAbandonRequestMsg B env d else d) = x
  generalize hx' : (if d.pendingRequest ≠ 0 ∧ timerExpired d.txResponseTimer env.clock then
    dartAbandonRequestMsg B env d' else d') = x'
  have hfirst : Alike B n L L' x x' := by
    rw [← hx, ← hx']
    split
    · exact alike_abandon env h
    · exact h
  have hack : x'.txAckTimer = x.txAckTimer := hfirst.field _ fun _ => rfl
  have hwakeup : x'.wakeupTimer = x.wakeupTimer := hfirst.field _ fun _ => rfl
  dsimp only
  by_cases hbusy : x.transfering.isSome
  · have hbusy' : x'.transfering.isSome := by rwa [hfirst.transfering]
    rw [if_pos hbusy, if_pos hbusy', hack]
    split
    · have hstop := hfirst.aside (g := fun x => { x with txAckTimer := timerStop }) {}
      split
      · exact alike_retry env hstop
      · obtain ⟨e, hrep, hrep'⟩ := hstop.rep
        have hbare := congrArg (fun x => Dart.bare { x with transfering := none }) hstop.bare
        refine ⟨⟨{ e with transfering := none }, ?_, ?_⟩, hstop.heap, hbare, ?_⟩
        · exact ⟨hrep.store, rfl, hrep.pending, by simp, hrep.len⟩
        · exact ⟨hrep'.store, rfl, hrep'.pending, by simp, hrep'.len⟩
        · exact (hstop.emit .abort).log
    · exact hfirst
  · have hbusy' : ¬ x'.transfering.isSome := by rwa [hfirst.transfering]
    rw [if_neg hbusy, if_neg hbusy', alike_find hfirst]
    split
    · rw [hwakeup]
      split
      · exact (hfirst.aside (g := fun x => { x with wakeupTimer := timerStop }) {}).setWrk false
      · exact (alike_trigger env hfirst).1
    · rw [hfirst.pendingRequest, hfirst.rxBufferBytes]
      split
      · exact alike_closing env hfirst
      · exact hfirst

/-! ## Sending -/

/-- The type of a message that is not shorter than it. -/
theorem nodeMsg_type {w : Width} {m : Mem} {p : Nat}
    (hlen : sizeofMsg w ≤ (nodeMsg w m p).data.length) :
    (nodeMsg w m p).type = ofLe ((nodeMsg w m p).data.take w.bytes) := by
  rw [length_nodeMsg_data] at hlen
  have hle : w.bytes ≤ nodeLength m p := hlen
  have htake := Mem.take_read m (p + offsetofMsg) (nodeLength m p) w.bytes
  rw [Nat.min_eq_left hle] at htake
  simp only [nodeMsg, nodeType, Mem.load, htake]

/-- A message is accepted only if it is all right. -/
theorem accept_ok {w : Width} {out : Msg → List Event} {late : Prop} {ok : Msg → Prop}
    {e e' : Engine} {evs : List Event} (h : EngineOut w out late ok e evs e') {prio : Nat} {m : Msg}
    (hevs : evs = [.accept prio m]) : ok m := by
  cases h with
  | accept hok _ =>
      obtain ⟨-, rfl⟩ := Event.accept.inj (List.cons.inj hevs).1
      exact hok
  | quiet hquiet =>
      cases hevs
      cases hquiet
  | _ => cases (List.cons.inj hevs).1

/-- The new message consists of the bytes given. -/
theorem DartRep.enqueue {e : Engine} (h : DartRep B n d e) (msg : Mem) {h' : Heap} {m : Msg}
    (hstore : StoreRep B.msgtypeSize n prios h' d.queue e.lists (m :: e.pending.toList))
    (hlen : m.data.length < 256 ^ B.lenSize.bytes) (i : Fin msgPrioLength)
    (hwhole : sizeofMsg B.msgtypeSize ≤ m.data.length) {m' : Msg}
    (hm' : m' = ⟨m.ptr, msgTypeOf B (msg.read 0 m.data.length), msg.read 0 m.data.length⟩) :
    DartRep B n (dartEnqueue B d i h' m.ptr msg m.data.length) (e.push i m') ∧
      (dartEnqueue B d i h' m.ptr msg m.data.length).log = d.log ++ [.accept i m'] := by
  obtain ⟨m₁, hlog, hstep, hrep⟩ := @tracks_enqueue B n ⟨⟨0, 0, 0⟩, false, none, id⟩ False
    (fun m₁ => m₁.data = msg.read 0 m.data.length) d e h msg h' m hstore hlen i fun _ hm => hm
  have hmark : (dartEnqueue B d i h' m.ptr msg m.data.length).log = d.log ++
      [.accept i (Dart.msgAt B (dartEnqueue B d i h' m.ptr msg m.data.length) m.ptr)] := rfl
  generalize dartEnqueue B d i h' m.ptr msg m.data.length = x at hlog hrep hmark ⊢
  have heq : m₁ = nodeMsg B.msgtypeSize x.heap.mem m.ptr :=
    (Event.accept.inj (List.cons.inj (List.append_cancel_left (hlog.symm.trans hmark))).1).2
  -- the step of the engine tells the data of the new message, and its node tells the rest
  have hdata : m₁.data = msg.read 0 m.data.length := accept_ok hstep rfl
  have htype : m₁.type = msgTypeOf B m₁.data := by
    have hlength : m₁.data.length = m.data.length := by rw [hdata, Mem.length_read]
    rw [heq] at hlength ⊢
    exact nodeMsg_type (by rwa [hlength])
  have hsame : m₁ = m' := by
    rw [hm', ← hdata, ← htype]
    have hptr := congrArg Msg.ptr heq
    rw [nodeMsg_ptr] at hptr
    rw [← hptr]
  rw [← hsame]
  exact ⟨hrep, hlog⟩

/-- What is written for a new message stays in the objects. -/
theorem DartRep.enqueue_frame {e : Engine} (msg : Mem) {h' : Heap} {m : Msg}
    (hstore : StoreRep B.msgtypeSize n prios h' d.queue e.lists (m :: e.pending.toList))
    (hlen : m.data.length < 2 ^ 16) (i : Fin msgPrioLength) :
    ∃ mem, (dartEnqueue B d i h' m.ptr msg m.data.length).heap = { h' with mem := mem } ∧
      ∀ x, (∀ o ∈ (stored prios e.lists (m :: e.pending.toList)).map (Msg.obj B.msgtypeSize),
        x < o.ptr ∨ o.ptr + o.size ≤ x) → mem x = h'.mem x := by
  unfold dartEnqueue
  dsimp only
  generalize hmem : setNodeLength (h'.mem.copy (m.ptr + offsetofMsg) msg 0 m.data.length) m.ptr
    m.data.length = mem
  obtain ⟨-, hfill⟩ := hstore.fill_copy msg hlen hmem.symm
  have hq : msgQueuePush d.queue mem i m.ptr =
      (Function.update d.queue i (msgListPush (d.queue i) mem m.ptr).1,
        (msgListPush (d.queue i) mem m.ptr).2, m.ptr) := dif_pos i.isLt
  rw [hq]
  obtain ⟨-, hframe⟩ := hfill.push_frame (mem_prios i)
  dsimp only at hframe ⊢
  refine ⟨_, rfl, fun x hx => ?_⟩
  -- the copied bytes, the length and the links are all written inside nodes of the store
  have hout : ∀ o ∈ stored prios e.lists (m :: e.pending.toList),
      x < o.ptr ∨ o.ptr + offsetofMsg ≤ x := by
    intro o ho
    have hx := hx _ (List.mem_map_of_mem ho)
    have hsize := (o.obj_size B.msgtypeSize).1
    rw [Msg.obj_ptr] at hx
    omega
  have hpush : (msgListPush (d.queue i) mem m.ptr).2 x = mem x := by
    refine hframe x fun p hp => ?_
    obtain ⟨o, ho, rfl⟩ := List.mem_map.mp hp
    have hx : x < o.ptr ∨ o.ptr + offsetofMsg ≤ x := by
      rcases List.mem_append.mp ho with ho | ho
      · exact hout o (mem_stored.mpr (.inl ⟨i, mem_prios i, ho⟩))
      · rw [List.mem_singleton.mp ho]
        exact hout m StoreRep.mem_loose
    simp only [offsetofMsg, sizeofPtr] at hx ⊢
    omega
  have hx := hx _ (List.mem_map_of_mem StoreRep.mem_loose)
  have hsize := m.obj_size B.msgtypeSize
  rw [Msg.obj_ptr] at hx
  simp only [offsetofMsg] at hsize
  rw [hpush, ← hmem, setNodeLength, Mem.store_of_outside, Mem.copy_of_outside]
  · simp only [offsetofMsg]
    omega
  · simp only [offsetofLength, sizeofPtr]
    omega

theorem alike_enqueue (h : Alike B n L L' d d') {e : Engine} (hrep : DartRep B n d e)
    (hrep' : DartRep B n d' e) (msg : Mem) {h₁ h₁' : Heap} {m m' : Msg}
    (hheap : SameChain h₁ h₁')
    (hstore : StoreRep B.msgtypeSize n prios h₁ d.queue e.lists (m :: e.pending.toList))
    (hstore' : StoreRep B.msgtypeSize n prios h₁' d'.queue e.lists (m' :: e.pending.toList))
    (hptr : m'.ptr = m.ptr) (hlength : m'.data.length = m.data.length)
    (hlen : m.data.length < 256 ^ B.lenSize.bytes) (i : Fin msgPrioLength)
    (hwhole : sizeofMsg B.msgtypeSize ≤ m.data.length) :
    Alike B n L L' (dartEnqueue B d i h₁ m.ptr msg m.data.length)
      (dartEnqueue B d' i h₁' m.ptr msg m.data.length) := by
  obtain ⟨mem, hmem, hframe⟩ := DartRep.enqueue_frame msg hstore (lt_of_lenSize hlen) i
  obtain ⟨mem', hmem', hframe'⟩ :=
    DartRep.enqueue_frame msg hstore' (by rw [hlength]; exact lt_of_lenSize hlen) i
  obtain ⟨hd, hlog⟩ := hrep.enqueue msg hstore hlen i hwhole rfl
  obtain ⟨hd', hlog'⟩ := hrep'.enqueue msg hstore' (by rwa [hlength]) i (by rwa [hlength]) rfl
  have hobj : m'.obj B.msgtypeSize = m.obj B.msgtypeSize := by
    simp only [Msg.obj, hptr, hlength]
  have hobjs : (stored prios e.lists (m' :: e.pending.toList)).map (Msg.obj B.msgtypeSize) =
      (stored prios e.lists (m :: e.pending.toList)).map (Msg.obj B.msgtypeSize) := by
    simp only [stored, List.map_append, List.map_cons, hobj]
  have hholds' := hstore'.holds
  rw [hobjs] at hholds' hframe'
  rw [hptr, hlength] at hd' hlog' hmem'
  refine ⟨⟨_, hd, hd'⟩, ?_, h.bare, ?_⟩
  · rw [hmem, hmem']
    exact hheap.write hstore.holds hholds' hframe hframe'
  · obtain ⟨evs, hL, hL'⟩ := h.log
    refine ⟨evs ++ [.accept i ⟨m.ptr, msgTypeOf B (msg.read 0 m.data.length),
      msg.read 0 m.data.length⟩], ?_, ?_⟩
    · rw [hlog, hL, List.append_assoc]
    · rw [hlog', hL', List.append_assoc]

/-- `dart_send_msg_ex` of a message that is not shorter than its type. -/
theorem alike_send (env : Env) (h : Alike B n L L' d d') (prio : Nat) (msg : Mem) {msgLen : Nat}
    (hlen : msgLen < 256 ^ B.lenSize.bytes) (hfits : SendFits B d msgLen)
    (hwhole : sizeofMsg B.msgtypeSize ≤ msgLen) :
    Alike B n L L' (dartSendMsgEx B env d prio msg msgLen).1
      (dartSendMsgEx B env d' prio msg msgLen).1 := by
  have hrunning : d'.running = d.running := h.field _ fun _ => rfl
  obtain ⟨e, hrep, hrep'⟩ := h.rep
  obtain ⟨hp, hheap⟩ := h.heap.msgPtrMalloc hfits.1 hfits.2
  unfold dartSendMsgEx
  by_cases hoff : (!d.running) = true
  · have hoff' : (!d'.running) = true := by rwa [hrunning]
    rw [if_pos hoff, if_pos hoff']
    exact h
  · have hoff' : ¬ (!d'.running) = true := by rwa [hrunning]
    rw [if_neg hoff, if_neg hoff']
    dsimp only
    generalize (if prio = dartMsgPrioAny then
      dartGuessPriority B (msg.load 0 B.msgtypeSize.bytes) else prio) = prio
    by_cases hprio : prio ≥ msgPrioLength
    · rw [if_pos hprio, if_pos hprio]
      exact h
    · rw [if_neg hprio, if_neg hprio]
      rcases hrep.store.malloc hfits.1 hfits.2 with hnull | ⟨h₁, m, hm, hne, rfl, -, hstore⟩
      · rcases hrep'.store.malloc hfits.1 (h.heap.fits hfits.2) with
          hnull' | ⟨h₁', m', hm', hne', -⟩
        · rw [hnull, hnull', if_pos rfl, if_pos rfl]
          exact h
        · rw [hnull, hm'] at hp
          exact absurd hp hne'
      · rcases hrep'.store.malloc hfits.1 (h.heap.fits hfits.2) with
          hnull' | ⟨h₁', m', hm', hne', hlength, -, hstore'⟩
        · rw [hm, hnull'] at hp
          exact absurd hp.symm hne
        · rw [hm, hm'] at hp hheap
          have hptr : m'.ptr = m.ptr := hp
          rw [hm, hm', if_neg hne, if_neg hne', hptr]
          exact (alike_trigger env (alike_enqueue h hrep hrep' msg hheap hstore hstore' hptr hlength
            hlen ⟨prio, by omega⟩ hwhole)).1

/-! ## Calls -/

/-- The type of every message that the call takes over is written: a message to send is not
shorter than its type, and a received frame reaches to the end of the type. -/
def DartCall.Typed (B : Build) (env : Env) (d : Dart) : DartCall → Prop
  | .send _ _ msgLen => sizeofMsg B.msgtypeSize ≤ msgLen
  | .receive ch => ReachesType B env d ch
  | .time => True

instance (B : Build) (env : Env) (d : Dart) (call : DartCall) : Decidable (call.Typed B env d) :=
  match call with
  | .send _ _ msgLen => inferInstanceAs (Decidable (sizeofMsg B.msgtypeSize ≤ msgLen))
  | .receive ch => inferInstanceAs (Decidable (ReachesType B env d ch))
  | .time => .isTrue trivial

theorem RxAgree.emits {d₁ d₁' : Dart} (hrx : RxAgree d d') (h : Emits d d₁) (h' : Emits d' d₁') :
    RxAgree d₁ d₁' := by
  intro x hx
  rw [h.rxBufferBytes] at hx
  rw [h.rxBuffer, h'.rxBuffer]
  exact hrx x hx

/-- Endpoints that are alike do the same in a call. -/
theorem alike_call (env : Env) (h : Alike B n L L' d d') (hrx : RxAgree d d') {call : DartCall}
    (hvalid : call.Valid B) (hfits : call.Fits B d) (htyped : call.Typed B env d) :
    Alike B n L L' (dartCall B env d call) (dartCall B env d' call) ∧
      RxAgree (dartCall B env d call) (dartCall B env d' call) := by
  cases call with
  | send prio msg msgLen =>
      exact ⟨alike_send env h prio msg hvalid hfits htyped,
        hrx.emits (sends_send B env d prio msg msgLen).toEmits
          (sends_send B env d' prio msg msgLen).toEmits⟩
  | receive ch => exact alike_received env h hrx htyped
  | time => exact ⟨alike_time env h, hrx.emits (emits_time B env d) (emits_time B env d')⟩

end Functions

/-- Calls that lose no bits of a length and only take over messages with a type. -/
def CallsTyped (B : Build) : Dart → List (Env × DartCall) → Prop
  | _, [] => True
  | d, c :: calls =>
      (c.2.Valid B ∧ c.2.Fits B d ∧ c.2.Typed B c.1 d) ∧ CallsTyped B (dartCall B c.1 d c.2) calls

instance CallsTyped.decidable (B : Build) :
    (d : Dart) → (calls : List (Env × DartCall)) → Decidable (CallsTyped B d calls)
  | _, [] => .isTrue trivial
  | d, c :: calls =>
      have := CallsTyped.decidable B (dartCall B c.1 d c.2) calls
      inferInstanceAs (Decidable ((_ ∧ _ ∧ _) ∧ _))

theorem alike_calls {B : Build} {n : Nat} {L L' : List Event} {calls : List (Env × DartCall)}
    {d d' : Dart} (h : Alike B n L L' d d') (hrx : RxAgree d d') (hcalls : CallsTyped B d calls) :
    Alike B n L L' (dartCalls B d calls) (dartCalls B d' calls) := by
  induction calls generalizing d d' with
  | nil => exact h
  | cons c calls ih =>
      obtain ⟨⟨hvalid, hfits, htyped⟩, hcalls⟩ := hcalls
      obtain ⟨h₁, hrx₁⟩ := alike_call c.1 h hrx hvalid hfits htyped
      exact ih h₁ hrx₁ hcalls

/-! ## After a reset -/

/-- The endpoints have been set up in the same way: pools of one size at one address, receive
buffers of one size, both running or not, and the WRK pins on one level. -/
structure SameSetup (d d' : Dart) : Prop where
  buffer : d'.heap.cba.buffer = d.heap.cba.buffer
  size : d'.heap.cba.size = d.heap.cba.size
  rxBufferSize : d'.rxBufferSize = d.rxBufferSize
  running : d'.running = d.running
  wrk : d'.wrk = d.wrk

theorem dartReset_rep (B : Build) (d : Dart) (hsize : d.heap.cba.size < 2 ^ 16)
    (haddr : d.heap.cba.buffer + d.heap.cba.size ≤ 256 ^ sizeofPtr) :
    DartRep B d.heap.cba.size (dartReset d) Engine.init := by
  refine ⟨⟨?_, rfl, haddr, fun _ _ => msgListInit_rep _, List.nodup_nil, ?_⟩, rfl, rfl, ?_, ?_⟩
  · exact cbaInit_holds _ _ hsize
  · intro m hm
    exact absurd hm List.not_mem_nil
  · intro i hi
    cases hi
  · intro m hm
    rw [Engine.messages_init] at hm
    exact absurd hm List.not_mem_nil

theorem alike_reset (B : Build) {d d' : Dart} (hsetup : SameSetup d d')
    (hsize : d.heap.cba.size < 2 ^ 16)
    (haddr : d.heap.cba.buffer + d.heap.cba.size ≤ 256 ^ sizeofPtr) :
    Alike B d.heap.cba.size d.log d'.log (dartReset d) (dartReset d') where
  rep := by
    have hrep' := dartReset_rep B d' (by rwa [hsetup.size])
      (by rwa [hsetup.size, hsetup.buffer])
    rw [hsetup.size] at hrep'
    exact ⟨_, dartReset_rep B d hsize haddr, hrep'⟩
  heap := SameChain.reset hsetup.buffer hsetup.size hsize
  bare := by
    unfold Dart.bare dartReset
    dsimp only
    rw [hsetup.rxBufferSize, hsetup.running, hsetup.wrk]
  log := ⟨[], (List.append_nil _).symm, (List.append_nil _).symm⟩

/-- **A reset forgets everything**: whatever two endpoints that are set up alike have done
before and whatever their memories hold, after `dart_reset` every sequence of calls does the
same on both. What is in the pool or in the receive buffer at the beginning is never used. -/
theorem dart_reset_forgets (B : Build) {d d' : Dart} (hsetup : SameSetup d d')
    (hsize : d.heap.cba.size < 2 ^ 16)
    (haddr : d.heap.cba.buffer + d.heap.cba.size ≤ 256 ^ sizeofPtr)
    {calls : List (Env × DartCall)} (hcalls : CallsTyped B (dartReset d) calls) :
    ∃ evs, (dartCalls B (dartReset d) calls).log = d.log ++ evs ∧
      (dartCalls B (dartReset d') calls).log = d'.log ++ evs :=
  (alike_calls (alike_reset B hsetup hsize haddr) (fun x hx => absurd hx (Nat.not_lt_zero x))
    hcalls).log

/-- An endpoint in the middle of something, with memory full of 0xA5. -/
def dartUsed : Dart :=
  { dartFresh 512 64 with
    heap := ⟨⟨16, 512, 48, 20, 32⟩, fun _ => 0xA5⟩
    transfering := some ⟨1, by decide⟩
    pendingRequest := 40
    rxBuffer := fun _ => 0xA5
    rxBufferBytes := 3
    log := [.abort] }

/-- A request is sent and acknowledged, and its response arrives. -/
def requestCalls : List (Env × DartCall) :=
  (.plain 7 true, .send dartMsgPrioAny (fun k => if k = 0 then 0x41 else 0) 2) ::
    ([dartAck] ++ dartFrame ⟨.one, .one, .one⟩ [0x81, 9]).map fun ch => (.plain 8 true, .receive ch)

theorem dart_reset_forgets_request :
    ∃ evs, (dartCalls ⟨.one, .one, .one⟩ (dartReset (dartFresh 512 64)) requestCalls).log =
        (dartFresh 512 64).log ++ evs ∧
      (dartCalls ⟨.one, .one, .one⟩ (dartReset dartUsed) requestCalls).log = dartUsed.log ++ evs :=
  have hsetup : SameSetup (dartFresh 512 64) dartUsed := ⟨rfl, rfl, rfl, rfl, rfl⟩
  have hcalls : CallsTyped ⟨.one, .one, .one⟩ (dartReset (dartFresh 512 64)) requestCalls := by
    decide +kernel
  dart_reset_forgets _ hsetup (by decide +kernel) (by decide +kernel) hcalls

end EmbeddedMx
