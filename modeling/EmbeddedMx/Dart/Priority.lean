import EmbeddedMx.Dart.Completion
import EmbeddedMx.Dart.Requests

/-!
# The order of messages sent with guessed priorities

`dart_send_msg` and `dart_send_msgtype` leave the priority to
`dart_guess_priority`, whose parameter is a `uint8_t`: with two byte types it sees
none of the bits that tell requests, responses and reports apart. Where the guess
is right, the message started next is the earliest of the highest kind.
-/

namespace EmbeddedMx

open EmbeddedMx.Lib

/-! ## Guessing -/

/-- Send message data, guess priority. -/
def dartSendMsg (B : Build) (env : Env) (self : Dart) (msg : Mem) (msgLen : Nat) :
    Dart × DartStatus :=
  dartSendMsgEx B env self dartMsgPrioAny msg msgLen

/-- Send message type. -/
def dartSendMsgtypeEx (B : Build) (env : Env) (self : Dart) (prio msgtype : Nat) :
    Dart × DartStatus :=
  dartSendMsgEx B env self prio (Mem.write (fun _ => 0) 0 (toLe B.msgtypeSize.bytes msgtype))
    (sizeofMsg B.msgtypeSize)

/-- Send message type, guess priority. -/
def dartSendMsgtype (B : Build) (env : Env) (self : Dart) (msgtype : Nat) : Dart × DartStatus :=
  dartSendMsgtypeEx B env self dartMsgPrioAny msgtype

theorem dartSendMsg_call (B : Build) (env : Env) (d : Dart) (msg : Mem) (msgLen : Nat) :
    (dartSendMsg B env d msg msgLen).1 = dartCall B env d (.send dartMsgPrioAny msg msgLen) := rfl

/-- The priority of the kind of a message, by the type bits of its full type. -/
def kindPriority (w : Width) (type : Nat) : Nat :=
  if type &&& msgTypeMask w = msgResponse w then dartMsgPrioResponse
  else if type &&& msgTypeMask w = msgReport then dartMsgPrioReport
  else if type &&& msgTypeMask w = msgRequest w then dartMsgPrioRequest
  else dartMsgPrioAny

theorem kindPriority_request {w : Width} {m : Msg} (h : m.IsRequest w) :
    kindPriority w m.type = dartMsgPrioRequest := by
  unfold kindPriority
  rw [h]
  cases w <;> rfl

/-- A one byte type is seen as a whole. -/
theorem guess_one {B : Build} (hw : B.msgtypeSize = .one) {type : Nat} (htype : type < 256) :
    dartGuessPriority B type = kindPriority B.msgtypeSize type := by
  unfold dartGuessPriority kindPriority
  rw [hw, Nat.mod_eq_of_lt htype]
  dsimp only
  by_cases hreport : type &&& msgTypeMask .one = msgReport
  · rw [if_pos hreport, hreport]
    rfl
  · rw [if_neg hreport]
    by_cases hrequest : type &&& msgTypeMask .one = msgRequest .one
    · rw [if_pos hrequest, hrequest]
      rfl
    · rw [if_neg hrequest]
      by_cases hresponse : type &&& msgTypeMask .one = msgResponse .one
      · rw [if_pos hresponse, if_pos hresponse]
      · rw [if_neg hresponse, if_neg hresponse, if_neg hreport, if_neg hrequest]

/-- Of a two byte type only the low byte is seen, which has no type bits. -/
theorem guess_two {B : Build} (hw : B.msgtypeSize = .two) (type : Nat) :
    dartGuessPriority B type = dartMsgPrioReport := by
  have hlow : ∀ x < 256, x &&& msgTypeMask .two = msgReport := by decide +kernel
  unfold dartGuessPriority
  rw [hw]
  dsimp only
  rw [if_pos (hlow (type % 256) (Nat.mod_lt _ (by decide)))]

/-- The guess cannot go wrong: types have one byte, or the message is a report. -/
def GuessSound (w : Width) (type : Nat) : Prop := w = .one ∨ type &&& msgTypeMask w = msgReport

instance (w : Width) (type : Nat) : Decidable (GuessSound w type) :=
  inferInstanceAs (Decidable (_ ∨ _))

theorem guess_sound {B : Build} {type : Nat} (h : GuessSound B.msgtypeSize type)
    (htype : type < 256 ^ B.msgtypeSize.bytes) :
    dartGuessPriority B type = kindPriority B.msgtypeSize type := by
  cases hw : B.msgtypeSize with
  | one =>
      rw [hw] at htype
      rw [guess_one hw htype, hw]
  | two =>
      rw [guess_two hw]
      rw [hw] at h
      rcases h with h | hreport
      · cases h
      · unfold kindPriority
        rw [hreport]
        rfl

/-! ## The queue in the log -/

/-- The queued messages after an event, in the order of their sending. -/
def queuedStep (queued : List Msg) : Event → List Msg
  | .accept _ m => queued ++ [m]
  | .promote m => queued.erase m
  | .callback .transferDone (.stored m) _ => queued.erase m
  | .callback .transferFailure (.stored m) _ => queued.erase m
  | _ => queued

/-- The messages sent and not yet transferred, in the order of their sending. -/
def queuedIn (log : List Event) : List Msg := log.foldl queuedStep []

/-- A request may not be sent while one is pending. -/
def MaySend (w : Width) (pending : Option Msg) (m : Msg) : Prop := pending.isSome → ¬ m.IsRequest w

/-- Of the messages `queued` that may be sent, `m` is of the highest kind, and the
earliest of its kind. -/
structure FirstOfKind (w : Width) (queued : List Msg) (pending : Option Msg) (m : Msg) : Prop where
  may : MaySend w pending m
  highest : ∀ o ∈ queued, MaySend w pending o → kindPriority w m.type ≤ kindPriority w o.type
  earliest : (queued.filter fun o => kindPriority w o.type = kindPriority w m.type).head? = some m

/-- A transfer is only started of the right message. -/
def StartOk (w : Width) (pre : List Event) (ev : Event) : Prop :=
  ∀ m, ev = .start m → FirstOfKind w (queuedIn pre) (pendingIn pre) m

/-- Every message was accepted with the priority of its kind. -/
def KindAccepts (w : Width) (log : List Event) : Prop :=
  ∀ prio m, .accept prio m ∈ log → kindPriority w m.type = prio

/-- Events that put no message on the queue and take none off. -/
def Event.Idle (ev : Event) : Prop := ∀ queued, queuedStep queued ev = queued

theorem Event.Quiet.idle {ev : Event} (h : ev.Quiet) : ev.Idle := by
  intro queued
  cases h with
  | pin state => rfl
  | notify code n => cases code <;> rfl

theorem foldl_idle {evs : List Event} (h : ∀ ev ∈ evs, ev.Idle) (queued : List Msg) :
    evs.foldl queuedStep queued = queued := by
  induction evs with
  | nil => rfl
  | cons ev evs ih =>
      rw [List.foldl_cons, h ev List.mem_cons_self]
      exact ih fun ev hev => h ev (List.mem_cons_of_mem _ hev)

theorem queuedIn_append (log evs : List Event) :
    queuedIn (log ++ evs) = evs.foldl queuedStep (queuedIn log) := List.foldl_append

/-- The lists are the queue of the log, sorted by kind. -/
structure QueueInv (w : Width) (e : Engine) (log : List Event) : Prop where
  wf : EngineWf w e
  lists : ∀ i, e.lists i = (queuedIn log).filter fun m => kindPriority w m.type = i.val
  kinds : ∀ m ∈ queuedIn log, kindPriority w m.type < msgPrioLength

namespace QueueInv

variable {w : Width} {e e' : Engine} {log evs : List Event}

theorem init : QueueInv w Engine.init [] := ⟨.init, fun _ => rfl, by intro m hm; cases hm⟩

theorem mem_queued (h : QueueInv w e log) {i : Fin msgPrioLength} {m : Msg} (hm : m ∈ e.lists i) :
    m ∈ queuedIn log ∧ kindPriority w m.type = i.val := by
  rw [h.lists i] at hm
  simpa using List.mem_filter.mp hm

theorem mem_list (h : QueueInv w e log) {m : Msg} (hm : m ∈ queuedIn log) :
    m ∈ e.lists ⟨kindPriority w m.type, h.kinds m hm⟩ := by
  rw [h.lists]
  exact List.mem_filter.mpr ⟨hm, by simp⟩

/-- Steps that do not touch the queue. -/
theorem idle (h : QueueInv w e log) (hwf : EngineWf w e') (hevs : ∀ ev ∈ evs, ev.Idle)
    (hlists : e'.lists = e.lists) : QueueInv w e' (log ++ evs) := by
  have hsame : queuedIn (log ++ evs) = queuedIn log :=
    (queuedIn_append log evs).trans (foldl_idle hevs _)
  refine ⟨hwf, ?_, ?_⟩
  · rw [hsame, hlists]
    exact h.lists
  · rw [hsame]
    exact h.kinds

/-- The first message of a list leaves the queue. -/
theorem close (h : QueueInv w e log) (hwf : EngineWf w e') {i : Fin msgPrioLength} {m : Msg}
    {ms : List Msg} (hcons : e.lists i = m :: ms)
    (hevs : evs.foldl queuedStep (queuedIn log) = (queuedIn log).erase m)
    (hlists : e'.lists = Function.update e.lists i ms) : QueueInv w e' (log ++ evs) := by
  have hrest : queuedIn (log ++ evs) = (queuedIn log).erase m :=
    (queuedIn_append log evs).trans hevs
  have hkind : kindPriority w m.type = i.val := (h.mem_queued (hcons ▸ List.mem_cons_self)).2
  refine ⟨hwf, ?_, ?_⟩
  · intro j
    rw [hrest, ← List.erase_filter, ← h.lists j, hlists]
    by_cases hij : j = i
    · subst hij
      rw [Function.update_self, hcons, List.erase_cons_head]
    · rw [Function.update_of_ne hij, List.erase_of_not_mem]
      intro hm
      exact hij (Fin.ext ((h.mem_queued hm).2.symm.trans hkind))
  · intro o ho
    rw [hrest] at ho
    exact h.kinds o (List.mem_of_mem_erase ho)

/-- A new message. -/
theorem accept (h : QueueInv w e log) {i : Fin msgPrioLength} {m : Msg}
    (hwf : EngineWf w (e.push i m)) (hkind : kindPriority w m.type = i.val) :
    QueueInv w (e.push i m) (log ++ [.accept i m]) := by
  have hnew : queuedIn (log ++ [.accept i m]) = queuedIn log ++ [m] := queuedIn_append log _
  refine ⟨hwf, ?_, ?_⟩
  · intro j
    rw [hnew, List.filter_append, ← h.lists j]
    show Function.update e.lists i (e.lists i ++ [m]) j = _
    by_cases hij : j = i
    · subst hij
      rw [Function.update_self, List.filter_cons_of_pos (by simpa using hkind), List.filter_nil]
    · have hne : kindPriority w m.type ≠ j.val := fun h => hij (Fin.ext (h.symm.trans hkind))
      rw [Function.update_of_ne hij, List.filter_cons_of_neg (by simpa using hne), List.filter_nil,
        List.append_nil]
  · intro o ho
    rw [hnew] at ho
    rcases List.mem_append.mp ho with ho | ho
    · exact h.kinds o ho
    · rw [List.mem_singleton.mp ho, hkind]
      exact i.isLt

/-- A pending request is not queued. -/
theorem erase_pending (h : QueueInv w e log) {m : Msg} (hm : e.pending = some m) :
    (queuedIn log).erase m = queuedIn log := by
  refine List.erase_of_not_mem fun hmem => ?_
  have hnodup := h.wf.nodup
  rw [Engine.messages, stored, hm, List.map_append, List.nodup_append] at hnodup
  refine hnodup.2.2 m.ptr (List.mem_map_of_mem ?_) m.ptr List.mem_cons_self rfl
  exact List.mem_flatMap.mpr ⟨_, mem_prios _, h.mem_list hmem⟩

theorem input (h : QueueInv w e log) (hstep : EngineIn w e evs e') :
    QueueInv w e' (log ++ evs) := by
  have hwf := h.wf.input hstep
  cases hstep with
  | ignored _ => exact h.idle hwf (by simp [Event.Idle, queuedStep]) rfl
  | done _ hcons _ => exact h.close hwf hcons rfl rfl
  | promote _ hcons _ => exact h.close hwf hcons rfl rfl
  | received => exact h.idle hwf (by simp [Event.Idle, queuedStep]) rfl
  | answered hm _ =>
      rename_i m type data _
      have hsame : queuedIn (log ++ [.uart [dartAck],
          .callback .messageReceived (.rx type data) data.length,
          .callback .transferDone (.stored m) data.length]) = queuedIn log :=
        (queuedIn_append log _).trans (h.erase_pending hm)
      refine ⟨hwf, ?_, ?_⟩
      · rw [hsame]
        exact h.lists
      · rw [hsame]
        exact h.kinds
  | damaged => exact h.idle hwf (by simp [Event.Idle, queuedStep]) rfl

theorem output {out : Msg → List Event} {late : Prop} {ok : Msg → Prop} (h : QueueInv w e log)
    (hout : ∀ m, ∀ ev ∈ out m, ∃ bytes, ev = .uart bytes)
    (hstep : EngineOut w out late ok e evs e') (hkinds : KindAccepts w evs) :
    QueueInv w e' (log ++ evs) := by
  have hwf := h.wf.output hstep
  have hsent : ∀ {mark : Event} {m : Msg}, mark.Idle → ∀ ev ∈ mark :: out m, ev.Idle := by
    intro mark m hmark ev hev
    rcases List.mem_cons.mp hev with rfl | hev
    · exact hmark
    · obtain ⟨bytes, rfl⟩ := hout m ev hev
      exact fun _ => rfl
  cases hstep with
  | quiet hev => exact h.idle hwf (by simpa using hev.idle) rfl
  | accept _ _ => exact h.accept hwf (hkinds _ _ (List.mem_singleton_self _))
  | start _ _ _ => exact h.idle hwf (hsent fun _ => rfl) rfl
  | retry _ _ _ => exact h.idle hwf (hsent fun _ => rfl) rfl
  | abort _ => exact h.idle hwf (by simp [Event.Idle, queuedStep]) rfl
  | failure _ _ hcons => exact h.close hwf hcons rfl rfl
  | abandoned _ => exact h.idle hwf (by simp [Event.Idle, queuedStep]) rfl

end QueueInv

/-- In every run of the engine whose messages are accepted by kind, the lists are the
queue of the log. -/
theorem engine_queue {w : Width} {late : Prop} {e : Engine} {log : List Event}
    (h : Runs (EngineStep w late) Engine.init log e) (hkinds : KindAccepts w log) :
    QueueInv w e log := by
  refine h.invariant (P := fun e log => KindAccepts w log → QueueInv w e log) ?_
    (fun _ => .init) hkinds
  clear h hkinds
  intro l₀ e l e' hinv hstep hkinds
  have hold : QueueInv w e l₀ :=
    hinv fun prio m hm => hkinds prio m (List.mem_append_left _ hm)
  cases hstep with
  | input hin => exact hold.input hin
  | output hout hstep =>
      exact hold.output hout hstep fun prio m hm => hkinds prio m (List.mem_append_right _ hm)

/-! ## The endpoint -/

/-- The type of a message that has one is in its bytes. -/
theorem nodeMsg_type_eq {w : Width} {m msg : Mem} {p len : Nat}
    (hdata : (nodeMsg w m p).data = msg.read 0 len) (hlen : sizeofMsg w ≤ len) :
    (nodeMsg w m p).type = msg.load 0 w.bytes := by
  have hread : m.read (p + offsetofMsg) w.bytes = msg.read 0 w.bytes := by
    have hnode : nodeLength m p = len := by
      have hlength := congrArg List.length hdata
      rwa [length_nodeMsg_data, Mem.length_read] at hlength
    have htake := congrArg (List.take w.bytes) hdata
    have hmin : min w.bytes len = w.bytes := Nat.min_eq_left hlen
    rw [nodeMsg, hnode] at htake
    dsimp only at htake
    rw [Mem.take_read, Mem.take_read, hmin] at htake
    exact htake
  show m.load (p + offsetofMsg) w.bytes = msg.load 0 w.bytes
  rw [Mem.load, hread, Mem.load]

/-- What is known of accepted messages holds of every message accepted. -/
theorem runs_accept {w : Width} {out : Msg → List Event} {late : Prop} {ok : Msg → Prop}
    {e e' : Engine} {evs : List Event} (hout : ∀ m, ∀ ev ∈ out m, ∃ bytes, ev = .uart bytes)
    (h : Runs (EngineOut w out late ok) e evs e') {prio : Nat} {m : Msg}
    (hm : .accept prio m ∈ evs) : ok m := by
  have hmark : ∀ {mark : Event} {m' : Msg}, .accept prio m ∈ mark :: out m' →
      .accept prio m = mark := by
    intro mark m' hmem
    rcases List.mem_cons.mp hmem with hmem | hmem
    · exact hmem
    · obtain ⟨bytes, hbytes⟩ := hout m' _ hmem
      cases hbytes
  induction h with
  | refl => cases hm
  | tail _ hstep ih =>
      rcases List.mem_append.mp hm with hm | hm
      · exact ih hm
      · cases hstep with
        | quiet hev =>
            cases List.mem_singleton.mp hm
            cases hev
        | accept hok _ =>
            cases List.mem_singleton.mp hm
            exact hok
        | start _ _ _ => cases hmark hm
        | retry _ _ _ => cases hmark hm
        | abort _ => cases List.mem_singleton.mp hm
        | failure _ _ _ => cases List.mem_singleton.mp hm
        | abandoned _ => cases List.mem_singleton.mp hm

/-- The call sends with a guessed priority a message that has its type, and the guess
cannot go wrong. -/
def DartCall.Guessed (B : Build) : DartCall → Prop
  | .send prio msg msgLen => prio = dartMsgPrioAny ∧ sizeofMsg B.msgtypeSize ≤ msgLen ∧
      GuessSound B.msgtypeSize (msg.load 0 B.msgtypeSize.bytes)
  | _ => True

instance (B : Build) : (call : DartCall) → Decidable (call.Guessed B)
  | .send _ _ _ => inferInstanceAs (Decidable (_ ∧ _ ∧ _))
  | .receive _ => .isTrue trivial
  | .time => .isTrue trivial

/-- `dart_send_msgtype` is such a call. -/
theorem dartSendMsgtype_guessed {B : Build} (env : Env) (d : Dart) {msgtype : Nat}
    (htype : msgtype < 256 ^ B.msgtypeSize.bytes) (hsound : GuessSound B.msgtypeSize msgtype) :
    ∃ call : DartCall, call.Guessed B ∧
    (dartSendMsgtype B env d msgtype).1 = dartCall B env d call := by
  refine ⟨.send dartMsgPrioAny _ _, ⟨rfl, Nat.le_refl _, ?_⟩, rfl⟩
  have hload := Mem.load_store_same (fun _ => 0) 0 htype
  rw [Mem.store] at hload
  rw [hload]
  exact hsound

section Calls

variable {B : Build} {n : Nat} {env : Env} {d : Dart} {e : Engine}

/-- A message sent with a guessed priority is accepted with the priority of its
kind. -/
theorem send_kindAccepts (h : DartRep B n d e) {msg : Mem} {msgLen : Nat}
    (hvalid : (DartCall.send dartMsgPrioAny msg msgLen).Valid B) (hfits : SendFits B d msgLen)
    (hlen : sizeofMsg B.msgtypeSize ≤ msgLen)
    (hsound : GuessSound B.msgtypeSize (msg.load 0 B.msgtypeSize.bytes)) {evs : List Event}
    (hlog : (dartSendMsgEx B env d dartMsgPrioAny msg msgLen).1.log = d.log ++ evs) :
    KindAccepts B.msgtypeSize evs := by
  intro prio m hm
  by_cases haccepts : d.Accepts B dartMsgPrioAny msg msgLen
  · have honce := (accepted_once B d _ msg msgLen haccepts (lt_of_lenSize hvalid)).trigger env
    rw [← send_accepted B env d _ msg msgLen haccepts] at honce
    obtain ⟨i, p, mem, evs', hi, -, -, -, -, hlog', hevs'⟩ := honce
    rw [hlog'] at hlog
    cases List.append_cancel_left hlog
    have hpair : (prio, m) ∈ evs.filterMap Event.accepts := List.mem_filterMap.mpr ⟨_, hm, rfl⟩
    rw [hevs'] at hpair
    obtain ⟨rfl, rfl⟩ := Prod.mk.inj (List.mem_singleton.mp hpair)
    -- its bytes are those given
    have htracks : Tracks B n (OutStep B env True fun m => m.data = msg.read 0 msgLen) d.log e
        (dartSendMsgEx B env d dartMsgPrioAny msg msgLen).1 :=
      tracks_send h hvalid hfits fun _ hdata => hdata
    obtain ⟨evs'', e', hlog'', hrun, -⟩ := htracks
    rw [hlog'] at hlog''
    cases List.append_cancel_left hlog''
    have hdata := runs_accept (transferOut_uart B env) hrun hm
    rw [Dart.msgAt] at hdata ⊢
    rw [nodeMsg_type_eq hdata hlen, hi, sendPriority, if_pos rfl]
    exact (guess_sound hsound (Mem.load_lt _ _ _)).symm
  · have hsame := (send_refused B env d _ msg msgLen haccepts).1
    rw [hsame] at hlog
    rw [List.self_eq_append_right.mp hlog] at hm
    cases hm

theorem Event.minor_kindAccepts {w : Width} {evs : List Event}
    (h : ∀ ev ∈ evs, ev.minor = true ∨ ∃ m, ev = .start m) : KindAccepts w evs := by
  intro prio m hm
  rcases h _ hm with hminor | ⟨m', heq⟩
  · cases hminor
  · cases heq

theorem Proceeds.kindAccepts {d' : Dart} {evs : List Event} (h : Proceeds B d d')
    (hlog : d'.log = d.log ++ evs) : KindAccepts B.msgtypeSize evs := by
  obtain ⟨evs', hlog', hevs'⟩ := h.log
  rw [hlog'] at hlog
  cases List.append_cancel_left hlog
  refine Event.minor_kindAccepts fun ev hev => ?_
  rcases hevs' ev hev with hminor | ⟨i, heq, -⟩
  · exact .inl hminor
  · exact .inr ⟨_, heq⟩

theorem call_kindAccepts (h : DartRep B n d e) {call : DartCall} (hvalid : call.Valid B)
    (hfits : call.Fits B d) (hguessed : call.Guessed B) {evs : List Event}
    (hlog : (dartCall B env d call).log = d.log ++ evs) : KindAccepts B.msgtypeSize evs := by
  cases call with
  | send prio msg msgLen =>
      obtain ⟨rfl, hlen, hsound⟩ := hguessed
      exact send_kindAccepts h hvalid hfits hlen hsound hlog
  | receive ch => exact (proceeds_received B env d ch).kindAccepts hlog
  | time =>
      rcases proceeds_time B env d with hproceeds | hlowers
      · exact hproceeds.kindAccepts hlog
      · obtain ⟨evs', hlog', hevs'⟩ := hlowers.log
        rw [List.append_assoc] at hlog'
        have heq : evs = evs' ++ [.pin false] := List.append_cancel_left (hlog.symm.trans hlog')
        intro prio m hm
        rw [heq] at hm
        rcases List.mem_append.mp hm with hm | hm
        · cases hevs' _ hm
        · cases List.mem_singleton.mp hm

/-- What `dart_find_next_message_queue` passes over are empty lists and, while a request is
pending, lists with a request in front. -/
theorem DartRep.find_passed (h : DartRep B n d e) {i j : Fin msgPrioLength}
    (hi : dartFindNextMessageQueue B d = some i) (hj : j < i) {m : Msg} {ms : List Msg}
    (hcons : e.lists j = m :: ms) : e.pending.isSome ∧ m.IsRequest B.msgtypeSize := by
  obtain ⟨-, k, hk, hik, hbefore⟩ := List.find?_eq_some_iff_getElem.mp hi
  have hki : k = i.val := by
    rw [List.getElem_finRange] at hik
    exact congrArg Fin.val hik
  have hskip := hbefore j.val (hki ▸ hj)
  have hlen : msgListLength (d.queue j) > 0 := by
    rw [h.store.length_eq (mem_prios j), hcons]
    exact Nat.succ_pos _
  simp only [List.getElem_finRange, Fin.cast_mk, Fin.eta] at hskip
  rw [if_pos hlen, h.peek hcons, h.node_type (Engine.head_mem hcons)] at hskip
  simp only [Bool.not_not, decide_eq_true_eq] at hskip
  rw [Ne, h.pending_eq_zero] at hskip
  exact ⟨Option.isSome_iff_ne_none.mpr hskip.1, hskip.2⟩

/-- The message of the transfer that is on was the right one to start. -/
theorem DartRep.firstOfKind (h : DartRep B n d e) (hqueue : QueueInv B.msgtypeSize e d.log)
    {i : Fin msgPrioLength} (hi : dartFindNextMessageQueue B d = some i) :
    FirstOfKind B.msgtypeSize (queuedIn d.log) e.pending
      (d.msgAt B (msgListPeek (d.queue i))) := by
  obtain ⟨m, ms, hcons, hmay⟩ := h.find_some hi
  rw [h.peek hcons, h.msgAt (Engine.head_mem hcons)]
  have hkind := (hqueue.mem_queued (hcons ▸ List.mem_cons_self)).2
  refine ⟨hmay, ?_, ?_⟩
  · intro o ho hmayo
    rw [hkind]
    by_contra hlt
    have hmem := hqueue.mem_list ho
    obtain ⟨o', os, hcons'⟩ := List.exists_cons_of_ne_nil (List.ne_nil_of_mem hmem)
    have hreq := (h.find_passed hi (Nat.lt_of_not_le hlt) hcons').2
    -- a request in front of a list that is not the last
    have hkind' := (hqueue.mem_queued (hcons' ▸ List.mem_cons_self)).2
    rw [kindPriority_request hreq] at hkind'
    dsimp only at hkind'
    have hlast : i.val < 3 := i.isLt
    have htwo : dartMsgPrioRequest = 2 := rfl
    omega
  · rw [hkind, ← hqueue.lists i, hcons, List.head?_cons]

/-- Events that start no transfer. -/
theorem each_startOk {w : Width} {pre evs : List Event} (h : ∀ ev ∈ evs, ∀ m, ev ≠ .start m) :
    Each (fun l x => StartOk w (pre ++ l) x) evs :=
  each_of_forall fun ev hev _ m heq => absurd heq (h ev hev m)

theorem minor_not_start {evs : List Event} (h : ∀ ev ∈ evs, ev.minor = true) :
    ∀ ev ∈ evs, ∀ m, ev ≠ .start m := by
  rintro ev hev m rfl
  cases h _ hev

/-- The start of the transfer that is on. -/
theorem launched_startOk (h : DartRep B n d e) (hqueue : QueueInv B.msgtypeSize e d.log)
    (hpending : pendingIn d.log = e.pending) {pre launch : List Event}
    (hlog : d.log = pre ++ launch)
    (hlaunch : d.Launched B launch) :
    Each (fun l x => StartOk B.msgtypeSize (pre ++ l) x) launch := by
  rcases hlaunch with rfl | ⟨i, uarts, huarts, rfl, -, hi⟩
  · exact each_nil _
  · refine each_cons ?_ ?_
    · rintro m heq
      cases heq
      -- neither the mark nor what is sent for it changes what is queued or pending
      have hidle : ∀ ev ∈ .start (d.msgAt B (msgListPeek (d.queue i))) :: uarts, ev.Idle := by
        intro ev hev
        rcases List.mem_cons.mp hev with rfl | hev
        · exact fun _ => rfl
        · obtain ⟨bytes, rfl⟩ := huarts ev hev
          exact fun _ => rfl
      have hqueued : queuedIn d.log = queuedIn pre := by
        rw [hlog, queuedIn_append, foldl_idle hidle]
      have hsame : pendingIn d.log = pendingIn pre := by
        have hinert : ∀ ev ∈ uarts, ev.Inert := by
          intro ev hev
          obtain ⟨bytes, rfl⟩ := huarts ev hev
          exact inert_uart bytes
        rw [hlog, pendingIn, List.foldl_append, List.foldl_cons, (foldl_inert hinert none _).2]
        rfl
      rw [List.append_nil, ← hqueued, ← hsame, hpending]
      exact h.firstOfKind hqueue hi
    · refine each_of_forall fun ev hev pre' m heq => ?_
      obtain ⟨bytes, hbytes⟩ := huarts ev hev
      rw [heq] at hbytes
      cases hbytes

/-- Every transfer a call starts is of the right message. -/
theorem call_startOk {call : DartCall} (h : DartRep B n (dartCall B env d call) e)
    (hqueue : QueueInv B.msgtypeSize e (dartCall B env d call).log)
    (hpending : pendingIn (dartCall B env d call).log = e.pending) {evs : List Event}
    (hlog : (dartCall B env d call).log = d.log ++ evs) :
    Each (fun l x => StartOk B.msgtypeSize (d.log ++ l) x) evs := by
  rcases proceeds_call B env d call with
      ⟨d₁, henters, evs₁, launch, hlog₁, hevs₁, hlaunch⟩ | hlowers
  · obtain ⟨pre, hpre, haccepts⟩ := henters.log
    have heq : evs = pre ++ evs₁ ++ launch := by
      rw [hlog₁, hpre] at hlog
      simp only [List.append_assoc] at hlog ⊢
      exact (List.append_cancel_left hlog).symm
    have hlaunched := launched_startOk h hqueue hpending hlog₁ hlaunch
    rw [hpre] at hlaunched
    rw [heq]
    refine each_append (each_startOk ?_) ?_
    · intro ev hev m
      rcases List.mem_append.mp hev with hev | hev
      · obtain ⟨prio, m', rfl⟩ := haccepts ev hev
        exact fun h => by cases h
      · exact minor_not_start hevs₁ ev hev m
    · simp only [← List.append_assoc] at hlaunched ⊢
      exact hlaunched
  · obtain ⟨evs₁, hlog₁, hevs₁⟩ := hlowers.log
    rw [List.append_assoc] at hlog₁
    have heq : evs = evs₁ ++ [.pin false] := List.append_cancel_left (hlog.symm.trans hlog₁)
    rw [heq]
    refine each_startOk fun ev hev m => ?_
    rcases List.mem_append.mp hev with hev | hev
    · exact minor_not_start hevs₁ ev hev m
    · rw [List.mem_singleton.mp hev]
      exact fun h => by cases h

end Calls

/-- The runs in which messages are sent with guessed priorities, no guess can go wrong
and no allocation loses bits. -/
def guessSystem (B : Build) (n : Nat) : TSys Dart (Env × DartCall) :=
  (dartSystem B n).restrict fun d i => i.2.Fits B d ∧ i.2.Guessed B

/-- **Guessed priorities order the wire** in every run in which no guess can go wrong:
whenever a transfer is started, it is of the earliest message of the highest kind
among those that may be sent. The queue of the log is the queue of the endpoint. -/
theorem dart_guessed_order (B : Build) (n : Nat) : (guessSystem B n).Invariant fun d =>
    Each (StartOk B.msgtypeSize) d.log ∧
    (∀ i, MsgListRep (d.queue i) d.heap.mem
      (((queuedIn d.log).filter fun m => kindPriority B.msgtypeSize m.type = i.val).map Msg.ptr)) ∧
    d.pendingRequest = ((pendingIn d.log).map Msg.ptr).getD 0 := by
  have hinv : (guessSystem B n).Invariant fun d => ∃ e,
      Runs (EngineStep B.msgtypeSize True) Engine.init d.log e ∧ DartRep B n d e ∧
      KindAccepts B.msgtypeSize d.log ∧ Each (StartOk B.msgtypeSize) d.log := by
    apply TSys.Inductive.invariant
    constructor
    · intro d hinit
      obtain ⟨hrep, hlog⟩ := dartInit_rep (B := B) hinit
      rw [hlog]
      exact ⟨Engine.init, .refl _, hrep, fun _ _ h => (List.not_mem_nil h).elim, each_nil _⟩
    · rintro d ⟨env, call⟩ d' ⟨e, hrun, hrep, hkinds, hstarts⟩ ⟨⟨hfits, hguessed⟩, hvalid, rfl⟩
      obtain ⟨evs, e', hlog, hrun', hrep'⟩ := tracks_call env hrep hvalid hfits
      dsimp only at hlog hrep' ⊢
      have hruns : Runs (EngineStep B.msgtypeSize True) Engine.init
          (dartCall B env d call).log e' :=
        hlog ▸ hrun.trans hrun'
      have hkinds' : KindAccepts B.msgtypeSize (dartCall B env d call).log := by
        intro prio m hm
        rw [hlog] at hm
        rcases List.mem_append.mp hm with hm | hm
        · exact hkinds prio m hm
        · exact call_kindAccepts hrep hvalid hfits hguessed hlog prio m hm
      have hnew := call_startOk hrep' (engine_queue hruns hkinds')
          (engine_requests hruns).pending hlog
      exact ⟨e', hruns, hrep', hkinds', hlog ▸ each_append hstarts hnew⟩
  intro d hd
  obtain ⟨e, hrun, hrep, hkinds, hstarts⟩ := hinv d hd
  refine ⟨hstarts, fun i => ?_, ?_⟩
  · rw [← (engine_queue hrun hkinds).lists i]
    exact hrep.store.reps i (mem_prios i)
  · rw [(engine_requests hrun).pending]
    exact hrep.pending

/-- One byte types: while the peer is not ready a report and then a response are
sent. -/
theorem dart_guessed_order_response :
    let B : Build := ⟨.one, .one, .one⟩
    let d := dartCalls B (dartFresh 512 64)
      [(.plain 7 false, .send dartMsgPrioAny (fun _ => 0x01) 1),
        (.plain 8 false, .send dartMsgPrioAny (fun _ => 0x82) 1), (.plain 9 true, .time)]
    lastSent d.log = some ⟨56, 0x82, [0x82]⟩ ∧ Each (StartOk .one) d.log := by
  intro B d
  have hready : (guessSystem B 512).Reachable d :=
    restrict_calls (.init (dartFresh_initial (by decide) (by decide))) (by decide)
      (by decide +kernel)
  exact ⟨by decide +kernel, (dart_guessed_order B 512 d hready).1⟩

/-- The same with two byte types. The response is queued behind the report, as if it
were one. -/
theorem dart_guessed_order_fails :
    let B : Build := ⟨.two, .one, .one⟩
    let report : Mem := fun a => if a = 0 then 0x01 else 0x00
    let response : Mem := fun a => if a = 0 then 0x02 else 0x80
    let d := dartCalls B (dartFresh 512 64)
      [(.plain 7 false, .send dartMsgPrioAny report 2),
        (.plain 8 false, .send dartMsgPrioAny response 2), (.plain 9 true, .time)]
    (dartSystem B 512).Reachable d ∧ ¬ Each (StartOk .two) d.log := by
  intro B report response d
  refine ⟨dartSystem_calls (dartFresh_reachable B (by decide) (by decide)) (by decide), fun h => ?_⟩
  let pre : List Event := [.accept 1 ⟨20, 0x0001, [0x01, 0x00]⟩, .pin true,
    .callback .waiting .null 0, .accept 1 ⟨56, 0x8002, [0x02, 0x80]⟩, .callback .waiting .null 0]
  have hlog : d.log = pre ++ .start ⟨20, 0x0001, [0x01, 0x00]⟩ ::
      [.uart (dartFrame B [0x01, 0x00])] := by decide +kernel
  have hfirst := h pre _ _ hlog _ rfl
  have hle := hfirst.highest ⟨56, 0x8002, [0x02, 0x80]⟩ (by decide)
      (fun hpending => by cases hpending)
  exact absurd hle (by decide)

end EmbeddedMx
