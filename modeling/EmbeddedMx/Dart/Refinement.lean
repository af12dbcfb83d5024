import EmbeddedMx.Dart.Engine

/-!
# The endpoint refines the engine

`DartRep B n d e`: the endpoint `d`, with its message nodes in a pool of `n` bytes of
raw memory, is in the abstract state `e`. Every function of the endpoint, started in a represented
state, appends to the log the label of a run of the engine and ends in the state
represented by the end of that run (`Tracks`). There is one lemma for each
function; callers use the lemmas of what they call.
-/

namespace EmbeddedMx

open EmbeddedMx.Lib

/-! ## Representation -/

/-- The endpoint `d` is in the abstract state `e`. -/
structure DartRep (B : Build) (n : Nat) (d : Dart) (e : Engine) : Prop where
  store : StoreRep B.msgtypeSize n prios d.heap d.queue e.lists e.pending.toList
  transfering : d.transfering = e.transfering
  pending : d.pendingRequest = (e.pending.map Msg.ptr).getD 0
  busy : ∀ i, e.transfering = some i → e.lists i ≠ []
  len : ∀ m ∈ e.messages, m.data.length < 256 ^ B.lenSize.bytes

/-- The fields the representation is about are the same. -/
structure SameStore (d d' : Dart) : Prop where
  heap : d'.heap = d.heap
  queue : d'.queue = d.queue
  transfering : d'.transfering = d.transfering
  pendingRequest : d'.pendingRequest = d.pendingRequest

theorem SameStore.refl (d : Dart) : SameStore d d := ⟨rfl, rfl, rfl, rfl⟩

theorem SameStore.trans {d d' d'' : Dart} (h : SameStore d d') (h' : SameStore d' d'') :
    SameStore d d'' :=
  ⟨h'.heap.trans h.heap, h'.queue.trans h.queue, h'.transfering.trans h.transfering,
    h'.pendingRequest.trans h.pendingRequest⟩

theorem sameStore_emit (d : Dart) (ev : Event) : SameStore d (d.emit ev) := ⟨rfl, rfl, rfl, rfl⟩

namespace DartRep

variable {B : Build} {n : Nat} {d d' : Dart} {e : Engine}

theorem congr (h : DartRep B n d e) (hd : SameStore d d') : DartRep B n d' e where
  store := by
    rw [hd.heap, hd.queue]
    exact h.store
  transfering := hd.transfering.trans h.transfering
  pending := hd.pendingRequest.trans h.pending
  busy := h.busy
  len := h.len

theorem msgAt (h : DartRep B n d e) {m : Msg} (hm : m ∈ e.messages) : d.msgAt B m.ptr = m :=
  h.store.content m hm

theorem node_type (h : DartRep B n d e) {m : Msg} (hm : m ∈ e.messages) :
    nodeType B.msgtypeSize d.heap.mem m.ptr = m.type :=
  congrArg Msg.type (h.msgAt hm)

theorem node_length (h : DartRep B n d e) {m : Msg} (hm : m ∈ e.messages) :
    nodeLength d.heap.mem m.ptr = m.data.length := by
  rw [← length_nodeMsg_data B.msgtypeSize]
  exact congrArg (fun m => m.data.length) (h.msgAt hm)

theorem ptr_ne_zero (h : DartRep B n d e) {m : Msg} (hm : m ∈ e.messages) : m.ptr ≠ 0 :=
  (h.store.nodePtr hm).ne_zero

theorem peek (h : DartRep B n d e) {i : Fin msgPrioLength} {m : Msg} {ms : List Msg}
    (hcons : e.lists i = m :: ms) : msgListPeek (d.queue i) = m.ptr :=
  h.store.peek_cons (mem_prios i) hcons

/-- There is a pending request exactly if the pointer is not `NULL`. -/
theorem pending_eq_zero (h : DartRep B n d e) : d.pendingRequest = 0 ↔ e.pending = none := by
  rw [h.pending]
  cases hp : e.pending with
  | none => simp
  | some m => simpa using h.ptr_ne_zero (Engine.pending_mem hp)

theorem pending_some (h : DartRep B n d e) {m : Msg} (hm : e.pending = some m) :
    d.pendingRequest = m.ptr := by
  rw [h.pending, hm]
  rfl

/-- While a transfer is on, its list has a first message. -/
theorem current (h : DartRep B n d e) {i : Fin msgPrioLength} (hi : e.transfering = some i) :
    ∃ m ms, e.lists i = m :: ms :=
  List.exists_cons_of_ne_nil (h.busy i hi)

end DartRep

/-! ## Tracking -/

/-- The endpoint `d` has got from a state represented by `e₀`, with the log `l₀`,
to where it is by a run of the engine. -/
def Tracks (B : Build) (n : Nat) (R : Engine → List Event → Engine → Prop) (l₀ : List Event)
    (e₀ : Engine)
    (d : Dart) : Prop :=
  ∃ evs e, d.log = l₀ ++ evs ∧ Runs R e₀ evs e ∧ DartRep B n d e

namespace Tracks

variable {B : Build} {n : Nat} {R : Engine → List Event → Engine → Prop} {l₀ : List Event}
  {e₀ e e' : Engine} {d d' : Dart}

theorem stay (h : DartRep B n d e) (hd : SameStore d d') (hlog : d'.log = d.log) :
    Tracks B n R d.log e d' :=
  ⟨[], e, by rw [hlog, List.append_nil], .refl e, h.congr hd⟩

theorem step (evs : List Event) (hlog : d'.log = l₀ ++ evs) (hstep : R e evs e')
    (h' : DartRep B n d' e') : Tracks B n R l₀ e d' :=
  ⟨evs, e', hlog, .single hstep, h'⟩

theorem trans (h : Tracks B n R l₀ e₀ d) (h' : ∀ e, DartRep B n d e → Tracks B n R d.log e d') :
    Tracks B n R l₀ e₀ d' := by
  obtain ⟨evs, e, hlog, hrun, hrep⟩ := h
  obtain ⟨evs', e', hlog', hrun', hrep'⟩ := h' e hrep
  exact ⟨evs ++ evs', e', by rw [hlog', hlog, List.append_assoc], hrun.trans hrun', hrep'⟩

/-- A first step, after which the log is `l`. -/
theorem after {evs l : List Event} (hstep : R e evs e') (hlog : l = l₀ ++ evs)
    (h : Tracks B n R l e' d) : Tracks B n R l₀ e d := by
  obtain ⟨evs', e'', hlog', hrun, hrep⟩ := h
  exact ⟨evs ++ evs', e'', by rw [hlog', hlog, List.append_assoc], (Runs.single hstep).trans hrun,
    hrep⟩

/-- Afterwards only fields change that are not represented. -/
theorem congr (h : Tracks B n R l₀ e₀ d) (hd : SameStore d d') (hlog : d'.log = d.log) :
    Tracks B n R l₀ e₀ d' :=
  h.trans fun _ hrep => .stay hrep hd hlog

theorem mono {R' : Engine → List Event → Engine → Prop} (h : Tracks B n R l₀ e₀ d)
    (hR : ∀ e evs e', R e evs e' → R' e evs e') : Tracks B n R' l₀ e₀ d := by
  obtain ⟨evs, e, hlog, hrun, hrep⟩ := h
  exact ⟨evs, e, hlog, hrun.mono hR, hrep⟩

end Tracks

/-- What the deferred message callback sends for `m`, and whether that replaces
the message. -/
def deferredOut (B : Build) (env : Env) (m : Msg) : List Event × Bool :=
  if m.data.length = sizeofMsg B.msgtypeSize then
    match env.deferred with
    | none => ([], false)
    | some callback =>
        let r := callback m.type
        (r.2.map fun data => .uart (dartFrame B data), r.1)
  else ([], false)

/-- What `dart_transfer_msg` gives to the uart for the message `m`. -/
def transferOut (B : Build) (env : Env) (m : Msg) : List Event :=
  (deferredOut B env m).1 ++
    if (deferredOut B env m).2 then [] else [.uart (dartFrame B m.data)]

/-- Steps of an endpoint by itself during a call with `env`. -/
abbrev OutStep (B : Build) (env : Env) (late : Prop) (ok : Msg → Prop) :
    Engine → List Event → Engine → Prop :=
  EngineOut B.msgtypeSize (transferOut B env) late ok

section Functions

variable {B : Build} {n : Nat} {env : Env} {late : Prop} {ok : Msg → Prop} {d : Dart} {e : Engine}

theorem tracks_quiet (h : DartRep B n d e) {ev : Event} (hev : ev.Quiet) :
    Tracks B n (OutStep B env late ok) d.log e (d.emit ev) :=
  .step [ev] rfl (.quiet hev) (h.congr (sameStore_emit d ev))

/-! ## Selecting and sending -/

theorem foldl_pushFrame (B : Build) (d : Dart) (msgs : List (List UInt8)) :
    SameStore d (msgs.foldl (fun d data => dartPushFrame B d data) d) ∧
      (msgs.foldl (fun d data => dartPushFrame B d data) d).log =
        d.log ++ msgs.map fun data => .uart (dartFrame B data) := by
  induction msgs generalizing d with
  | nil => exact ⟨.refl d, (List.append_nil _).symm⟩
  | cons data msgs ih =>
      obtain ⟨hsame, hlog⟩ := ih (dartPushFrame B d data)
      refine ⟨(sameStore_emit d _).trans hsame, ?_⟩
      rw [List.foldl_cons, hlog, List.map_cons]
      exact List.append_assoc d.log _ _

/-- Pushing a message of the endpoint sends its frame. -/
theorem DartRep.dartPushMsg_eq (h : DartRep B n d e) {m : Msg} (hm : m ∈ e.messages) :
    dartPushMsg B d (m.ptr + offsetofMsg) (nodeLength d.heap.mem m.ptr) =
      d.emit (.uart (dartFrame B m.data)) := by
  have hdata := congrArg Msg.data (h.msgAt hm)
  have hlen : B.toLen m.data.length = m.data.length := Nat.mod_eq_of_lt (h.len m hm)
  simp only [Dart.msgAt, nodeMsg, h.node_length hm] at hdata
  rw [dartPushMsg, h.node_length hm, hlen, hdata]
  rfl

/-- The deferred message callback for a message of the endpoint. -/
theorem DartRep.deferred_spec (h : DartRep B n d e) (env : Env) {m : Msg} (hm : m ∈ e.messages)
    {r : Dart × Bool}
    (hr : r = if nodeLength d.heap.mem m.ptr = sizeofMsg B.msgtypeSize then
      dartDeferredMsgCallback B env d m.ptr else (d, false)) :
    SameStore d r.1 ∧ r.1.log = d.log ++ (deferredOut B env m).1 ∧
      r.2 = (deferredOut B env m).2 := by
  have hstay : d.log = d.log ++ [] := (List.append_nil _).symm
  unfold dartDeferredMsgCallback at hr
  unfold deferredOut
  rw [h.node_length hm, h.node_type hm] at hr
  subst hr
  split
  · cases env.deferred with
    | none => exact ⟨.refl d, hstay, rfl⟩
    | some callback =>
        obtain ⟨hsame, hlog⟩ := foldl_pushFrame B d (callback m.type).2
        exact ⟨hsame, hlog, rfl⟩
  · exact ⟨.refl d, hstay, rfl⟩

/-- `dart_transfer_msg` sends the message and starts the ACK timer. -/
theorem dartTransferMsg_spec (env : Env) (h : DartRep B n d e) {m : Msg} (hm : m ∈ e.messages) :
    SameStore d (dartTransferMsg B env d m.ptr) ∧
      (dartTransferMsg B env d m.ptr).log = d.log ++ transferOut B env m := by
  unfold dartTransferMsg transferOut
  generalize hr : (if nodeLength d.heap.mem m.ptr = sizeofMsg B.msgtypeSize then
    dartDeferredMsgCallback B env d m.ptr else (d, false)) = r
  obtain ⟨hsame, hlog, hflag⟩ := h.deferred_spec env hm hr.symm
  dsimp only
  rw [← hflag, (h.congr hsame).dartPushMsg_eq hm]
  split
  · exact ⟨⟨hsame.heap, hsame.queue, hsame.transfering, hsame.pendingRequest⟩,
      by rw [List.append_nil]; exact hlog⟩
  · refine ⟨⟨hsame.heap, hsame.queue, hsame.transfering, hsame.pendingRequest⟩, ?_⟩
    rw [← List.append_assoc, ← hlog]
    rfl

/-- What `dart_find_next_message_queue` returns: a list whose first message may
be sent now. -/
theorem DartRep.find_some (h : DartRep B n d e) {i : Fin msgPrioLength}
    (hi : dartFindNextMessageQueue B d = some i) :
    ∃ m ms, e.lists i = m :: ms ∧ (e.pending.isSome → ¬ m.IsRequest B.msgtypeSize) := by
  have hfound := List.find?_some hi
  by_cases hlen : msgListLength (d.queue i) > 0
  · have hne : e.lists i ≠ [] := by
      rw [h.store.length_eq (mem_prios i)] at hlen
      exact List.ne_nil_of_length_pos hlen
    obtain ⟨m, ms, hcons⟩ := List.exists_cons_of_ne_nil hne
    refine ⟨m, ms, hcons, ?_⟩
    intro hpending hreq
    have hzero : d.pendingRequest ≠ 0 := by
      rw [Ne, h.pending_eq_zero]
      exact Option.isSome_iff_ne_none.mp hpending
    rw [if_pos hlen, h.peek hcons] at hfound
    dsimp only at hfound
    rw [h.node_type (Engine.head_mem hcons)] at hfound
    simp only [Bool.not_eq_true', decide_eq_false_iff_not] at hfound
    exact hfound ⟨hzero, hreq⟩
  · rw [if_neg hlen] at hfound
    cases hfound

/-- The last block of `dart_trigger_transfer`. -/
theorem tracks_select (h : DartRep B n d e) (hidle : e.transfering = none) :
    Tracks B n (OutStep B env late ok) d.log e (dartSelect B env d).1 := by
  unfold dartSelect
  cases hfind : dartFindNextMessageQueue B d with
  | none => exact .stay h (.refl d) rfl
  | some i =>
      obtain ⟨m, ms, hcons, hreq⟩ := h.find_some hfind
      have hm : m ∈ e.messages := Engine.head_mem hcons
      let d₁ : Dart :=
        { d with
          transfering := some i
          txAttempts := 0
          wakeupAttempts := 0
          closingTimer := timerStop
          wakeupTimer := timerStop }
      have hrep₁ : DartRep B n d₁ { e with transfering := some i } := by
        refine ⟨h.store, rfl, h.pending, ?_, h.len⟩
        intro j hj
        cases hj
        rw [hcons]
        exact List.cons_ne_nil m ms
      have hpeek : msgListPeek (d.queue i) = m.ptr := h.peek hcons
      have hmsg : d₁.msgAt B m.ptr = m := h.msgAt hm
      obtain ⟨hsame, hlog⟩ :=
        dartTransferMsg_spec env (hrep₁.congr (sameStore_emit d₁ (.start m))) hm
      dsimp only
      rw [hpeek]
      show Tracks B n _ d.log e (dartTransferMsg B env (d₁.emit (.start (d₁.msgAt B m.ptr))) m.ptr)
      rw [hmsg]
      refine .step (.start m :: transferOut B env m) ?_ (.start hidle hcons hreq)
        (hrep₁.congr ((sameStore_emit d₁ _).trans hsame))
      rw [hlog]
      exact List.append_assoc d.log _ _

theorem dartWakeup_transfering (env : Env) (d : Dart) :
    (dartWakeup env d).1.transfering = d.transfering := by
  unfold dartWakeup
  dsimp only
  split
  · rfl
  · split
    · split <;> rfl
    · rfl

/-- The first block of `dart_trigger_transfer`. -/
theorem tracks_wakeup (h : DartRep B n d e) :
    Tracks B n (OutStep B env late ok) d.log e (dartWakeup env d).1 := by
  unfold dartWakeup
  by_cases hwrk : d.wrk
  · rw [if_pos hwrk]
    exact .stay h (.refl d) rfl
  · rw [if_neg hwrk]
    dsimp only
    split
    · refine (tracks_quiet h (.pin true)).congr ?_ ?_
      · split <;> exact ⟨rfl, rfl, rfl, rfl⟩
      · split <;> rfl
    · exact (tracks_quiet h (.notify .transferImpossible 0)).congr ⟨rfl, rfl, rfl, rfl⟩ rfl

/-- `dart_trigger_transfer` -/
theorem tracks_trigger (h : DartRep B n d e) :
    Tracks B n (OutStep B env late ok) d.log e (dartTriggerTransfer B env d).1 := by
  unfold dartTriggerTransfer
  by_cases hbusy : d.transfering.isSome
  · rw [if_pos hbusy]
    exact .stay h (.refl d) rfl
  · rw [if_neg hbusy]
    have hwake : Tracks B n (OutStep B env late ok) d.log e (dartWakeup env d).1 := tracks_wakeup h
    dsimp only
    split
    · split
      · refine hwake.trans fun e' h' => tracks_select h' ?_
        rw [← h'.transfering, dartWakeup_transfering]
        simpa using hbusy
      · exact hwake.trans fun e' h' => tracks_quiet h' (.notify .waiting 0)
    · exact hwake

/-- `dart_trigger_next_transfer` -/
theorem tracks_triggerNext (h : DartRep B n d e) :
    Tracks B n (OutStep B env late ok) d.log e (dartTriggerNextTransfer B env d) := by
  unfold dartTriggerNextTransfer
  dsimp only
  split
  · exact (tracks_trigger h).trans fun e' h' => tracks_quiet h' (.notify .transferComplete 0)
  · exact tracks_trigger h

/-! ## Finishing messages -/

/-- `dart_finalize_transfer` frees the message in transfer. -/
theorem DartRep.finalize (h : DartRep B n d e) {i : Fin msgPrioLength} {m : Msg} {ms : List Msg}
    (hi : e.transfering = some i) (hcons : e.lists i = m :: ms) :
    DartRep B n (dartFinalizeTransfer d) (e.close i ms) ∧ (dartFinalizeTransfer d).log = d.log := by
  obtain ⟨hptr, hpop⟩ := h.store.pop prios_nodup (mem_prios i) hcons
  have hne := h.ptr_ne_zero (Engine.head_mem hcons)
  unfold dartFinalizeTransfer
  rw [h.transfering, hi]
  dsimp only
  rw [hptr, if_pos hne]
  refine ⟨⟨hpop.free, rfl, h.pending, by simp [Engine.close], ?_⟩, rfl⟩
  intro o ho
  exact h.len o ((Engine.close_perm hcons).mem_iff.mp (List.mem_cons_of_mem _ ho))

section Current

variable {i : Fin msgPrioLength} {m : Msg} {ms : List Msg}

/-- The message in transfer is sent once more. -/
theorem tracks_resend (h : DartRep B n d e) (hlate : late) (hi : e.transfering = some i)
    (hcons : e.lists i = m :: ms) :
    Tracks B n (OutStep B env late ok) d.log e
      (dartTransferMsg B env (d.emit (.retry (d.msgAt B m.ptr))) m.ptr) := by
  have hm : m ∈ e.messages := Engine.head_mem hcons
  rw [h.msgAt hm]
  obtain ⟨hsame, hlog⟩ :=
    dartTransferMsg_spec env (h.congr (sameStore_emit d (.retry m))) hm
  refine .step (.retry m :: transferOut B env m) ?_ (.retry hlate hi hcons)
    (h.congr ((sameStore_emit d _).trans hsame))
  rw [hlog]
  exact List.append_assoc d.log _ _

/-- The message in transfer is reported as failed. -/
theorem tracks_fail (h : DartRep B n d e) (hlate : late) (hi : e.transfering = some i)
    (hcons : e.lists i = m :: ms) :
    Tracks B n (OutStep B env late ok) d.log e
      (dartTriggerNextTransfer B env (dartFinalizeTransfer
        (d.callback .transferFailure (.stored (d.msgAt B m.ptr))
          (nodeLength d.heap.mem m.ptr)))) := by
  have hm : m ∈ e.messages := Engine.head_mem hcons
  rw [h.msgAt hm, h.node_length hm]
  obtain ⟨hrep, hlog⟩ := DartRep.finalize (h.congr (sameStore_emit d
    (.callback .transferFailure (.stored m) m.data.length))) hi hcons
  refine Tracks.trans (.step [.callback .transferFailure (.stored m) m.data.length] hlog
    (.failure hlate hi hcons) hrep) ?_
  intro e' h'
  exact tracks_triggerNext h'

end Current

/-- `dart_retry_transfer`: nothing without a transfer, otherwise the message is
sent again or reported as failed. -/
theorem tracks_retry (h : DartRep B n d e) (hlate : e.transfering.isSome → late) :
    Tracks B n (OutStep B env late ok) d.log e (dartRetryTransfer B env d) := by
  unfold dartRetryTransfer
  split
  · exact .stay h (.refl d) rfl
  · rename_i i hbusy
    have hi : e.transfering = some i := h.transfering.symm.trans hbusy
    have hlate : late := hlate (by rw [hi]; rfl)
    obtain ⟨m, ms, hcons⟩ := h.current hi
    have h₁ : DartRep B n
        { d with txAckTimer := timerStop, txAttempts := (d.txAttempts + 1) % 256 } e :=
      h.congr ⟨rfl, rfl, rfl, rfl⟩
    dsimp only
    rw [h.peek hcons, if_neg (h.ptr_ne_zero (Engine.head_mem hcons))]
    have hresend : Tracks B n (OutStep B env late ok) _ e _ := tracks_resend h₁ hlate hi hcons
    have hfail : Tracks B n (OutStep B env late ok) _ e _ := tracks_fail h₁ hlate hi hcons
    split
    · exact hresend
    · exact hfail

/-- `dart_finalize_request_msg` after the pending request was reported. -/
theorem tracks_finalizeRequest (h : DartRep B n d e) {m : Msg} (hm : e.pending = some m) :
    Tracks B n (OutStep B env late ok) d.log { e with pending := none }
      (dartFinalizeRequestMsg B env d) := by
  have hstore := h.store
  rw [hm] at hstore
  have hrep : DartRep B n
      { d with
        txResponseTimer := timerStop
        heap := cbaFree d.heap d.pendingRequest
        pendingRequest := 0 } { e with pending := none } := by
    refine ⟨?_, h.transfering, rfl, h.busy, ?_⟩
    · rw [h.pending_some hm]
      exact hstore.free
    · intro o ho
      exact h.len o ((Engine.unpend_perm hm).mem_iff.mp (List.mem_cons_of_mem _ ho))
  exact tracks_triggerNext hrep

/-- `dart_abandon_request_msg` -/
theorem tracks_abandon (h : DartRep B n d e) :
    Tracks B n (OutStep B env late ok) d.log e (dartAbandonRequestMsg B env d) := by
  unfold dartAbandonRequestMsg
  cases hp : e.pending with
  | none =>
      rw [if_neg (by rw [Ne, h.pending_eq_zero, not_not]; exact hp)]
      exact .stay h (.refl d) rfl
  | some m =>
      have hm : m ∈ e.messages := Engine.pending_mem hp
      rw [if_pos (by rw [Ne, h.pending_eq_zero, hp]; exact Option.some_ne_none m)]
      dsimp only
      rw [h.pending_some hp, h.msgAt hm, h.node_length hm]
      have hemit : DartRep B n (d.callback .messageAbandoned (.stored m) m.data.length) e :=
        h.congr ⟨rfl, rfl, rfl, rfl⟩
      have hstep : OutStep B env late ok e [.callback .messageAbandoned (.stored m) m.data.length]
        { e with pending := none } := .abandoned hp
      have hrest : Tracks B n (OutStep B env late ok) _ _ _ := tracks_finalizeRequest hemit hp
      exact .after hstep rfl hrest

/-! ## Acknowledges -/

/-- The endpoint `d` has got from a state represented by `e₀`, with the log `l₀`,
to where it is by one input and then steps by itself. -/
def Responds (B : Build) (n : Nat) (env : Env) (late : Prop) (ok : Msg → Prop) (l₀ : List Event)
    (e₀ : Engine)
    (d : Dart) : Prop :=
  ∃ evs e₁, EngineIn B.msgtypeSize e₀ evs e₁ ∧ Tracks B n (OutStep B env late ok) (l₀ ++ evs) e₁ d

/-- An acknowledged request leaves its list and becomes the pending one. -/
theorem DartRep.awaitResponse (h : DartRep B n d e) (env : Env) {i : Fin msgPrioLength} {m : Msg}
    {ms : List Msg} (hcons : e.lists i = m :: ms) :
    DartRep B n (dartAwaitResponse env d i) { e.close i ms with pending := some m } := by
  obtain ⟨hptr, hpop⟩ := h.store.pop prios_nodup (mem_prios i) hcons
  refine ⟨hpop.sublist (List.cons_sublist_cons.mpr (List.nil_sublist _)), rfl, hptr,
    by simp [Engine.close], ?_⟩
  intro o ho
  have hmem : o ∈ m :: (e.close i ms).messages := by
    rcases mem_stored.mp ho with hlist | hrest
    · exact List.mem_cons_of_mem _ (mem_stored.mpr (.inl hlist))
    · exact List.mem_cons.mpr (.inl (List.mem_singleton.mp hrest))
  exact h.len o ((Engine.close_perm hcons).mem_iff.mp hmem)

/-- The message in transfer is acknowledged: a request is promoted, any other
message is reported done. -/
theorem tracks_acknowledged (env : Env) (late : Prop) (ok : Msg → Prop) (h : DartRep B n d e)
    {i : Fin msgPrioLength} {m : Msg} {ms : List Msg} (hi : e.transfering = some i)
    (hcons : e.lists i = m :: ms) :
    ∃ evs e₁, EngineIn B.msgtypeSize e (.control dartAck :: evs) e₁ ∧
      Tracks B n (OutStep B env late ok) (d.log ++ evs) e₁
        (dartTriggerNextTransfer B env (dartFinalizeTransfer
          (if nodeType B.msgtypeSize d.heap.mem m.ptr &&& msgTypeMask B.msgtypeSize =
              msgRequest B.msgtypeSize then
            dartAwaitResponse env (d.emit (.promote (d.msgAt B m.ptr))) i
          else
            d.callback .transferDone (.stored (d.msgAt B m.ptr))
              (nodeLength d.heap.mem m.ptr)))) := by
  have hm : m ∈ e.messages := Engine.head_mem hcons
  rw [h.msgAt hm, h.node_length hm, h.node_type hm]
  by_cases hreq : m.type &&& msgTypeMask B.msgtypeSize = msgRequest B.msgtypeSize
  · have hrep := (h.congr (sameStore_emit d (.promote m))).awaitResponse env hcons
    refine ⟨[.promote m], _, .promote hi hcons hreq, ?_⟩
    rw [if_pos hreq]
    exact tracks_triggerNext hrep
  · obtain ⟨hrep, hlog⟩ := DartRep.finalize (h.congr (sameStore_emit d
      (.callback .transferDone (.stored m) m.data.length))) hi hcons
    refine ⟨[.callback .transferDone (.stored m) m.data.length], _, .done hi hcons hreq, ?_⟩
    rw [if_neg hreq]
    have hnext : Tracks B n (OutStep B env late ok) _ _ _ := tracks_triggerNext hrep
    rw [hlog] at hnext
    exact hnext

/-- `dart_acknowledge_msg` for a received `DART_ACK`. -/
theorem tracks_acknowledge (env : Env) (late : Prop) (ok : Msg → Prop) (h : DartRep B n d e) :
    ∃ evs e₁, EngineIn B.msgtypeSize e (.control dartAck :: evs) e₁ ∧
      Tracks B n (OutStep B env late ok) (d.log ++ .control dartAck :: evs) e₁
        (dartAcknowledgeMsg B env (d.emit (.control dartAck))) := by
  have hemit : DartRep B n (d.emit (.control dartAck)) e := h.congr (sameStore_emit d _)
  unfold dartAcknowledgeMsg
  split
  · rename_i hidle
    have hnone : e.transfering = none := h.transfering.symm.trans hidle
    exact ⟨[], e, .ignored fun _ => hnone, .stay hemit (.refl _) rfl⟩
  · rename_i i hbusy
    have hi : e.transfering = some i := h.transfering.symm.trans hbusy
    obtain ⟨m, ms, hcons⟩ := h.current hi
    have hstop : DartRep B n { d.emit (.control dartAck) with txAckTimer := timerStop } e :=
      hemit.congr ⟨rfl, rfl, rfl, rfl⟩
    obtain ⟨evs, e₁, hin, htracks⟩ := tracks_acknowledged env late ok hstop hi hcons
    dsimp only
    rw [hemit.peek hcons, if_neg (h.ptr_ne_zero (Engine.head_mem hcons))]
    refine ⟨evs, e₁, hin, ?_⟩
    rw [← List.singleton_append, ← List.append_assoc]
    exact htracks

/-! ## Received frames -/

/-- The check of a received message against the pending request, `evs` being the
events of its reception. -/
theorem tracks_checkResponse (env : Env) (late : Prop) (ok : Msg → Prop) (h : DartRep B n d e)
    (type : Nat)
    (data : List UInt8) :
    ∃ evs e₁, EngineIn B.msgtypeSize e (.uart [dartAck] ::
        .callback .messageReceived (.rx type data) data.length :: evs) e₁ ∧
      Tracks B n (OutStep B env late ok) (d.log ++ evs) e₁
        (dartCheckResponse B env d type data.length) := by
  have hstay : ∃ evs e₁, EngineIn B.msgtypeSize e (.uart [dartAck] ::
        .callback .messageReceived (.rx type data) data.length :: evs) e₁ ∧
      Tracks B n (OutStep B env late ok) (d.log ++ evs) e₁ d :=
    ⟨[], e, .received, [], e, by simp, .refl e, h⟩
  unfold dartCheckResponse
  cases hp : e.pending with
  | none =>
      rw [if_pos (h.pending_eq_zero.mpr hp)]
      exact hstay
  | some m =>
      have hm : m ∈ e.messages := Engine.pending_mem hp
      rw [h.pending_some hp]
      dsimp only
      rw [if_neg (h.ptr_ne_zero hm), h.node_type hm, h.msgAt hm]
      split
      · exact hstay
      · rename_i hkind
        split
        · exact hstay
        · rename_i hid
          rw [ne_eq, not_not] at hkind hid
          have hemit : DartRep B n (d.callback .transferDone (.stored m) data.length) e :=
            h.congr ⟨rfl, rfl, rfl, rfl⟩
          exact ⟨[.callback .transferDone (.stored m) data.length], _,
            .answered hp ⟨hkind, hid⟩, tracks_finalizeRequest hemit hp⟩

/-- `dart_handle_received_msg` after the acknowledge byte was sent: the message is
reported as received, and perhaps the pending request as done. -/
theorem tracks_receivedMsg (env : Env) (late : Prop) (ok : Msg → Prop) (h : DartRep B n d e)
    {data : List UInt8} (hdata : d.rxBuffer.read B.dataIdx data.length = data) :
    ∃ type evs e₁, EngineIn B.msgtypeSize e (.uart [dartAck] ::
        .callback .messageReceived (.rx type data) data.length :: evs) e₁ ∧
      Tracks B n (OutStep B env late ok) (d.log ++ .uart [dartAck] ::
        .callback .messageReceived (.rx type data) data.length :: evs) e₁
        (dartHandleReceivedMsg B env (dartPushByte d dartAck) data.length) := by
  unfold dartHandleReceivedMsg
  have hread : (dartPushByte d dartAck).rxBuffer.read B.dataIdx data.length = data := hdata
  rw [hread]
  generalize (dartPushByte d dartAck).rxBuffer.load B.dataIdx B.msgtypeSize.bytes = type
  have hrep : DartRep B n { (dartPushByte d dartAck).callback .messageReceived (.rx type data)
      data.length with rxBuffer := env.received d.rxBuffer } e := h.congr ⟨rfl, rfl, rfl, rfl⟩
  obtain ⟨evs, e₁, hin, htracks⟩ := tracks_checkResponse env late ok hrep type data
  refine ⟨type, evs, e₁, hin, ?_⟩
  have hlog : d.log ++ .uart [dartAck] ::
      .callback .messageReceived (.rx type data) data.length :: evs =
      d.log ++ [.uart [dartAck]] ++ [.callback .messageReceived (.rx type data) data.length] ++
        evs := by
    simp
  rw [hlog]
  exact htracks

/-- `dart_handle_received_char` on a complete frame. -/
theorem responds_frame (h : DartRep B n d e) (dataLen : Nat) :
    Responds B n env late ok d.log e (dartHandleFrame B env d dataLen) := by
  unfold dartHandleFrame
  dsimp only
  split
  · refine ⟨[.uart [dartBad], .callback .transferCorrupted .null 0], e, .damaged, ?_⟩
    have hrep : DartRep B n ((dartPushByte d dartBad).notify .transferCorrupted) e :=
      h.congr ⟨rfl, rfl, rfl, rfl⟩
    exact ⟨[], e, by simp [Dart.notify, Dart.callback, dartPushByte, dartPush], .refl e, hrep⟩
  · have hlen : (d.rxBuffer.read B.dataIdx dataLen).length = dataLen := Mem.length_read _ _ _
    have hdata : d.rxBuffer.read B.dataIdx (d.rxBuffer.read B.dataIdx dataLen).length =
        d.rxBuffer.read B.dataIdx dataLen := by rw [hlen]
    obtain ⟨type, evs, e₁, hin, htracks⟩ := tracks_receivedMsg env late ok h hdata
    rw [hlen] at hin htracks
    exact ⟨_, e₁, hin, htracks⟩

/-- The control bytes: `late` is only needed for `DART_BAD` during a transfer. -/
theorem responds_control (h : DartRep B n d e) {ch : UInt8}
    (hlate : ch = dartBad → e.transfering.isSome → late) :
    dartHandleControl B env d ch = d ∨
      Responds B n env late ok d.log e (dartHandleControl B env d ch) := by
  have hemit : DartRep B n (d.emit (.control ch)) e := h.congr (sameStore_emit d _)
  unfold dartHandleControl
  split
  · rename_i hack
    subst hack
    obtain ⟨evs, e₁, hin, htracks⟩ := tracks_acknowledge env late ok h
    exact .inr ⟨_, e₁, hin, htracks⟩
  · rename_i hack
    have hin : EngineIn B.msgtypeSize e [.control ch] e := .ignored fun h => absurd h hack
    split
    · rename_i hbad
      exact .inr ⟨_, e, hin, tracks_retry hemit (hlate hbad)⟩
    · split
      · exact .inr ⟨_, e, hin, tracks_trigger hemit⟩
      · exact .inl rfl

/-! ## Time -/

/-- Nothing but selecting a message touches the transfer and its ACK timer, and
a timer just started is not expired. -/
theorem dartTriggerTransfer_ack (B : Build) (env : Env) (d : Dart) :
    ((dartTriggerTransfer B env d).1.transfering = d.transfering ∧
      (dartTriggerTransfer B env d).1.txAckTimer = d.txAckTimer) ∨
    timerExpired (dartTriggerTransfer B env d).1.txAckTimer env.clock = false := by
  have hwake : (dartWakeup env d).1.txAckTimer = d.txAckTimer := by
    unfold dartWakeup
    dsimp only
    split
    · rfl
    · split
      · split <;> rfl
      · rfl
  have htrans := dartWakeup_transfering env d
  unfold dartTriggerTransfer
  split
  · exact .inl ⟨rfl, rfl⟩
  · dsimp only
    split
    · split
      · unfold dartSelect
        split
        · exact .inl ⟨htrans, hwake⟩
        · exact .inr (timerExpired_start env.clock timerMs (by decide))
      · exact .inl ⟨htrans, hwake⟩
    · exact .inl ⟨htrans, hwake⟩

theorem dartTriggerNextTransfer_ack (B : Build) (env : Env) (d : Dart) :
    ((dartTriggerNextTransfer B env d).transfering = d.transfering ∧
      (dartTriggerNextTransfer B env d).txAckTimer = d.txAckTimer) ∨
    timerExpired (dartTriggerNextTransfer B env d).txAckTimer env.clock = false := by
  have h := dartTriggerTransfer_ack B env d
  unfold dartTriggerNextTransfer
  dsimp only
  split <;> exact h

theorem dartAbandonRequestMsg_ack (B : Build) (env : Env) (d : Dart) :
    ((dartAbandonRequestMsg B env d).transfering = d.transfering ∧
      (dartAbandonRequestMsg B env d).txAckTimer = d.txAckTimer) ∨
    timerExpired (dartAbandonRequestMsg B env d).txAckTimer env.clock = false := by
  unfold dartAbandonRequestMsg
  split
  · exact dartTriggerNextTransfer_ack B env _
  · exact .inl ⟨rfl, rfl⟩

/-- The closing part of `dart_handle_time` concerns no message. -/
theorem tracks_closing (h : DartRep B n d e) :
    Tracks B n (OutStep B env late ok) d.log e (dartHandleClosing env d).1 := by
  have hstay : ∀ timer, Tracks B n (OutStep B env late ok) d.log e
      { d with closingTimer := timer } :=
    fun _ => .stay h ⟨rfl, rfl, rfl, rfl⟩ rfl
  unfold dartHandleClosing
  split
  · split
    · split
      · exact (tracks_quiet h (.pin false)).congr ⟨rfl, rfl, rfl, rfl⟩ rfl
      · exact hstay d.closingTimer
    · exact hstay _
  · split
    · split
      · split
        · exact hstay timerStop
        · exact (hstay timerStop).trans fun e' h' => tracks_quiet h' (.notify .idle 0)
      · exact hstay d.closingTimer
    · split
      · exact (tracks_quiet h (.pin true)).congr ⟨rfl, rfl, rfl, rfl⟩ rfl
      · exact hstay d.closingTimer

/-- `dart_handle_time`: `late` is only needed when the ACK timer has expired. -/
theorem tracks_time (h : DartRep B n d e)
    (hlate : d.transfering.isSome → timerExpired d.txAckTimer env.clock → late) :
    Tracks B n (OutStep B env late ok) d.log e (dartHandleTime B env d).1 := by
  unfold dartHandleTime
  generalize hd₁ : (if d.pendingRequest ≠ 0 ∧ timerExpired d.txResponseTimer env.clock then
    dartAbandonRequestMsg B env d else d) = d₁
  -- the response timer first
  have htracks : Tracks B n (OutStep B env late ok) d.log e d₁ := by
    rw [← hd₁]
    split
    · exact tracks_abandon h
    · exact .stay h (.refl d) rfl
  have hlate₁ : d₁.transfering.isSome → timerExpired d₁.txAckTimer env.clock → late := by
    intro hbusy hexp
    rw [← hd₁] at hbusy hexp
    split at hbusy
    · rename_i hcond
      rw [if_pos hcond] at hexp
      rcases dartAbandonRequestMsg_ack B env d with ⟨htrans, hack⟩ | hfresh
      · rw [htrans] at hbusy
        rw [hack] at hexp
        exact hlate hbusy hexp
      · rw [hfresh] at hexp
        cases hexp
    · rename_i hcond
      rw [if_neg hcond] at hexp
      exact hlate hbusy hexp
  refine htracks.trans fun e' h' => ?_
  have hstop : DartRep B n { d₁ with txAckTimer := timerStop } e' := h'.congr ⟨rfl, rfl, rfl, rfl⟩
  dsimp only
  split
  · rename_i hbusy
    split
    · rename_i hexp
      have hl : late := hlate₁ hbusy hexp
      split
      · have hretry : Tracks B n (OutStep B env late ok) _ _ _ := tracks_retry hstop fun _ => hl
        exact hretry
      · refine .step [.abort] rfl (.abort hl) ?_
        exact ⟨h'.store, rfl, h'.pending, by simp, h'.len⟩
    · exact .stay h' (.refl d₁) rfl
  · split
    · split
      · exact (tracks_quiet h' (.pin false)).congr ⟨rfl, rfl, rfl, rfl⟩ rfl
      · exact tracks_trigger h'
    · split
      · exact tracks_closing h'
      · exact .stay h' (.refl d₁) rfl

/-! ## Sending a message -/

/-- The allocation for a message of this length records all lengths unchanged:
neither the 16-bit sizes nor the 12-bit `chunk_len` fields lose bits. -/
def SendFits (B : Build) (d : Dart) (msgLen : Nat) : Prop :=
  sizeofMsgPtr - sizeofMsg B.msgtypeSize + msgLen ≤ 65532 ∧
    CbaFits d.heap (sizeofMsgPtr - sizeofMsg B.msgtypeSize + msgLen)

instance (B : Build) (d : Dart) (msgLen : Nat) : Decidable (SendFits B d msgLen) :=
  inferInstanceAs (Decidable (_ ∧ _))

theorem lt_of_lenSize {B : Build} {len : Nat} (hlen : len < 256 ^ B.lenSize.bytes) :
    len < 2 ^ 16 := by
  cases hw : B.lenSize <;> rw [hw] at hlen <;> simp only [Width.bytes] at hlen <;> omega

/-- The new message is filled and put at the end of its list. -/
theorem tracks_enqueue (h : DartRep B n d e) (msg : Mem) {h' : Heap} {m : Msg}
    (hstore : StoreRep B.msgtypeSize n prios h' d.queue e.lists (m :: e.pending.toList))
    (hlen : m.data.length < 256 ^ B.lenSize.bytes) (i : Fin msgPrioLength)
    (hok : ∀ m' : Msg, m'.data = msg.read 0 m.data.length → ok m') :
    ∃ m', (dartEnqueue B d i h' m.ptr msg m.data.length).log = d.log ++ [.accept i m'] ∧
      OutStep B env late ok e [.accept i m'] (e.push i m') ∧
      DartRep B n (dartEnqueue B d i h' m.ptr msg m.data.length) (e.push i m') := by
  have hlen' : m.data.length < 2 ^ 16 := lt_of_lenSize hlen
  unfold dartEnqueue
  dsimp only
  generalize hmem : setNodeLength (h'.mem.copy (m.ptr + offsetofMsg) msg 0 m.data.length) m.ptr
    m.data.length = mem
  obtain ⟨hdata, hfill⟩ := hstore.fill_copy msg hlen' hmem.symm
  generalize hm' : nodeMsg B.msgtypeSize mem m.ptr = m' at hdata hfill
  have hptr : m'.ptr = m.ptr := hm' ▸ rfl
  have hpush := hfill.push prios_nodup (mem_prios i)
  have hq : msgQueuePush d.queue mem i m.ptr =
      (Function.update d.queue i (msgListPush (d.queue i) mem m.ptr).1,
        (msgListPush (d.queue i) mem m.ptr).2, m.ptr) := dif_pos i.isLt
  rw [hq]
  rw [hptr] at hpush
  have hrep : DartRep B n
      { d with
        heap := { h' with mem := (msgListPush (d.queue i) mem m.ptr).2 }
        queue := Function.update d.queue i (msgListPush (d.queue i) mem m.ptr).1 }
      (e.push i m') := by
    refine ⟨hpush, h.transfering, h.pending, ?_, ?_⟩
    · intro j hj
      show Function.update e.lists _ _ j ≠ []
      by_cases heq : j = i
      · subst heq
        rw [Function.update_self]
        exact List.append_ne_nil_of_right_ne_nil _ (List.cons_ne_nil _ _)
      · rw [Function.update_of_ne heq]
        exact h.busy j hj
    · intro o ho
      rcases List.mem_cons.mp (Engine.push_perm.mem_iff.mp ho) with rfl | ho
      · rw [hdata, Mem.length_read]
        exact hlen
      · exact h.len o ho
  have hmsg := hrep.msgAt (Engine.push_perm.mem_iff.mpr List.mem_cons_self)
  rw [hptr] at hmsg
  rw [hmsg]
  refine ⟨m', rfl, .accept (hok m' hdata) ?_, hrep.congr (sameStore_emit _ _)⟩
  intro hmem'
  obtain ⟨o, ho, heq⟩ := List.mem_map.mp hmem'
  exact hfill.loose_ne ho heq

/-- `dart_send_msg_ex`: nothing is queued, or one message, which consists of the
bytes given. -/
theorem tracks_send (h : DartRep B n d e) {prio msgLen : Nat} {msg : Mem}
    (hlen : msgLen < 256 ^ B.lenSize.bytes) (hfits : SendFits B d msgLen)
    (hok : ∀ m : Msg, m.data = msg.read 0 msgLen → ok m) :
    Tracks B n (OutStep B env late ok) d.log e (dartSendMsgEx B env d prio msg msgLen).1 := by
  unfold dartSendMsgEx
  split
  · exact .stay h (.refl d) rfl
  · dsimp only
    generalize (if prio = dartMsgPrioAny then
      dartGuessPriority B (msg.load 0 B.msgtypeSize.bytes) else prio) = prio
    split
    · exact .stay h (.refl d) rfl
    · rename_i hprio
      rcases h.store.malloc hfits.1 hfits.2 with hnull | ⟨h', m, hptr, hne, rfl, _, hstore⟩
      · rw [hnull, if_pos rfl]
        exact .stay h ⟨rfl, rfl, rfl, rfl⟩ rfl
      · rw [hptr, if_neg hne]
        obtain ⟨m', hlog, hstep, hrep⟩ :=
          tracks_enqueue h msg hstore hlen ⟨prio, by omega⟩ hok
        exact (Tracks.step _ hlog hstep hrep).trans fun e' h' => tracks_trigger h'

end Functions

end EmbeddedMx
