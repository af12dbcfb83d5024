import EmbeddedMx.Dart.Drain
import EmbeddedMx.Dart.Priority
import EmbeddedMx.Message.Queue

/-!
# What the endpoint says about its messages

The application asks for messages by type: `dart_is_msg_pending`, `dart_get_current_msgtype`
and `dart_is_sending` look at the lists in the pool and at the pending request. A log
determines what they see. `levelIn i` reads from it the messages that wait at priority `i`,
whatever priorities the messages were sent with.

The same lists decide what is sent next (`Selected`): the first message of the first list
whose first message may be sent. A request at the front of a list holds up the messages
behind it while another request is pending.
-/

namespace EmbeddedMx

open EmbeddedMx.Lib

/-! ## The functions -/

/-- Check if given message is pending. -/
def dartIsMsgPending (B : Build) (self : Dart) (prio type : Nat) : Bool :=
  if self.pendingRequest ≠ 0 ∧
      nodeType B.msgtypeSize self.heap.mem self.pendingRequest = type then true
  else (msgQueueFindMsgtype B.msgtypeSize self.queue self.heap.mem (some prio) type).1 ≠ 0

/-- Returns message type that is currently being processed, `none` if there is none. -/
def dartGetCurrentMsgtype (B : Build) (self : Dart) : Option Nat :=
  match self.transfering with
  | some i => some (nodeType B.msgtypeSize self.heap.mem (msgListPeek (self.queue i)))
  | none =>
      if self.pendingRequest ≠ 0 then
        some (nodeType B.msgtypeSize self.heap.mem self.pendingRequest)
      else none

/-! ## The lists in the log -/

/-- The messages that wait at priority `i` after an event. -/
def levelStep (i : Nat) (waiting : List Msg) (ev : Event) : List Msg :=
  match ev with
  | .accept prio m => if prio = i then waiting ++ [m] else waiting
  | ev => queuedStep waiting ev

/-- The messages accepted with priority `i` and not yet transferred. -/
def levelIn (i : Nat) (log : List Event) : List Msg := log.foldl (levelStep i) []

/-- Of the messages that wait, `m` at priority `i` is the next to be sent. -/
structure Selected (w : Width) (waiting : Nat → List Msg) (pending : Option Msg) (i : Nat)
    (m : Msg) : Prop where
  bound : i < msgPrioLength
  first : (waiting i).head? = some m
  may : MaySend w pending m
  passed : ∀ j < i, ∀ o, (waiting j).head? = some o → ¬ MaySend w pending o

/-- A transfer is only started of the message that is next. -/
def SelectOk (w : Width) (pre : List Event) (ev : Event) : Prop :=
  ∀ m, ev = .start m → ∃ i, Selected w (fun j => levelIn j pre) (pendingIn pre) i m

theorem Event.Idle.waiting {ev : Event} (h : ev.Idle) (i : Nat) (waiting : List Msg) :
    levelStep i waiting ev = waiting := by
  cases ev with
  | accept prio m => exact absurd (h []) (List.cons_ne_nil m [])
  | uart bytes => exact h waiting
  | pin state => exact h waiting
  | start m => exact h waiting
  | retry m => exact h waiting
  | abort => exact h waiting
  | promote m => exact h waiting
  | control ch => exact h waiting
  | callback code msg len => exact h waiting

theorem levelIn_append (i : Nat) (log evs : List Event) :
    levelIn i (log ++ evs) = evs.foldl (levelStep i) (levelIn i log) := List.foldl_append

theorem levelIn_idle {i : Nat} {log evs : List Event} (h : ∀ ev ∈ evs, ev.Idle) :
    levelIn i (log ++ evs) = levelIn i log := by
  rw [levelIn_append]
  generalize levelIn i log = waiting
  induction evs with
  | nil => rfl
  | cons ev evs ih =>
      rw [List.foldl_cons, (h ev List.mem_cons_self).waiting]
      exact ih fun ev hev => h ev (List.mem_cons_of_mem _ hev)

/-- A message waits at one priority. -/
theorem EngineWf.level_unique {w : Width} {e : Engine} (h : EngineWf w e)
    {i j : Fin msgPrioLength} {m : Msg} (hi : m ∈ e.lists i) (hj : m ∈ e.lists j) : i = j := by
  have hnodup := h.nodup.of_map
  rw [Engine.messages, stored, List.nodup_append] at hnodup
  have hdisjoint := (List.nodup_flatMap.mp hnodup.1).2
  by_contra hij
  have : Std.Symm (Function.onFun List.Disjoint e.lists) := ⟨fun _ _ hab _ hj hi => hab hi hj⟩
  exact hdisjoint.forall (mem_prios i) (mem_prios j) hij hi hj

/-- The pending request waits nowhere. -/
theorem EngineWf.pending_apart {w : Width} {e : Engine} (h : EngineWf w e)
    {i : Fin msgPrioLength} {m : Msg} (hi : m ∈ e.lists i) : e.pending ≠ some m := by
  intro hm
  have hnodup := h.nodup
  rw [Engine.messages, stored, hm, List.map_append, List.nodup_append] at hnodup
  refine hnodup.2.2 m.ptr (List.mem_map_of_mem ?_) m.ptr List.mem_cons_self rfl
  exact List.mem_flatMap.mpr ⟨i, mem_prios i, hi⟩

/-- The lists are those of the log. -/
structure WaitingInv (w : Width) (e : Engine) (log : List Event) : Prop where
  wf : EngineWf w e
  lists : ∀ i : Fin msgPrioLength, e.lists i = levelIn i log

namespace WaitingInv

variable {w : Width} {e e' : Engine} {log evs : List Event}

theorem init : WaitingInv w Engine.init [] := ⟨.init, fun _ => rfl⟩

/-- Steps that do not touch the lists. -/
theorem idle (h : WaitingInv w e log) (hwf : EngineWf w e') (hevs : ∀ ev ∈ evs, ev.Idle)
    (hlists : e'.lists = e.lists) : WaitingInv w e' (log ++ evs) := by
  refine ⟨hwf, fun i => ?_⟩
  rw [levelIn_idle hevs, hlists]
  exact h.lists i

/-- The first message of a list is over. -/
theorem close (h : WaitingInv w e log) (hwf : EngineWf w e') {i : Fin msgPrioLength} {m : Msg}
    {ms : List Msg} (hcons : e.lists i = m :: ms)
    (hevs : ∀ j, levelIn j (log ++ evs) = (levelIn j log).erase m)
    (hlists : e'.lists = Function.update e.lists i ms) : WaitingInv w e' (log ++ evs) := by
  refine ⟨hwf, fun j => ?_⟩
  rw [hevs, ← h.lists j, hlists]
  -- no other list holds the message
  by_cases hij : j = i
  · subst hij
    rw [Function.update_self, hcons, List.erase_cons_head]
  · rw [Function.update_of_ne hij, List.erase_of_not_mem]
    exact fun hm => hij (h.wf.level_unique hm (hcons ▸ List.mem_cons_self))

/-- A new message. -/
theorem accept (h : WaitingInv w e log) {i : Fin msgPrioLength} {m : Msg}
    (hwf : EngineWf w (e.push i m)) : WaitingInv w (e.push i m) (log ++ [.accept i m]) := by
  refine ⟨hwf, fun j => ?_⟩
  have hnew : levelIn j (log ++ [.accept i m]) =
      if i.val = j.val then levelIn j log ++ [m] else levelIn j log := levelIn_append _ _ _
  rw [hnew, ← h.lists j]
  show Function.update e.lists i (e.lists i ++ [m]) j = _
  by_cases hij : j = i
  · subst hij
    rw [Function.update_self, if_pos rfl]
  · rw [Function.update_of_ne hij, if_neg fun hval => hij (Fin.ext hval.symm)]

theorem input (h : WaitingInv w e log) (hstep : EngineIn w e evs e') :
    WaitingInv w e' (log ++ evs) := by
  have hwf := h.wf.input hstep
  cases hstep with
  | ignored _ => exact h.idle hwf (by simp [Event.Idle, queuedStep]) rfl
  | done _ hcons _ => exact h.close hwf hcons (fun j => levelIn_append j _ _) rfl
  | promote _ hcons _ => exact h.close hwf hcons (fun j => levelIn_append j _ _) rfl
  | received => exact h.idle hwf (by simp [Event.Idle, queuedStep]) rfl
  | answered hm _ =>
      rename_i m type data _
      -- the message that is done is the pending request, which waits nowhere
      refine ⟨hwf, fun j => (h.lists j).trans ?_⟩
      have hnew : levelIn j (log ++ [.uart [dartAck],
          .callback .messageReceived (.rx type data) data.length,
          .callback .transferDone (.stored m) data.length]) = (levelIn j log).erase m :=
        levelIn_append j _ _
      rw [hnew, List.erase_of_not_mem]
      rw [← h.lists j]
      exact fun hmem => h.wf.pending_apart hmem hm
  | damaged => exact h.idle hwf (by simp [Event.Idle, queuedStep]) rfl

theorem output {out : Msg → List Event} {late : Prop} {ok : Msg → Prop} (h : WaitingInv w e log)
    (hout : ∀ m, ∀ ev ∈ out m, ∃ bytes, ev = .uart bytes)
    (hstep : EngineOut w out late ok e evs e') : WaitingInv w e' (log ++ evs) := by
  have hwf := h.wf.output hstep
  have hsent : ∀ {mark : Event} {m : Msg}, mark.Idle → ∀ ev ∈ mark :: out m, ev.Idle := by
    intro mark m hmark ev hev
    rcases List.mem_cons.mp hev with rfl | hev
    · exact hmark
    · obtain ⟨bytes, rfl⟩ := hout m ev hev
      exact fun _ => rfl
  cases hstep with
  | quiet hev => exact h.idle hwf (by simpa using hev.idle) rfl
  | accept _ _ => exact h.accept hwf
  | start _ _ _ => exact h.idle hwf (hsent fun _ => rfl) rfl
  | retry _ _ _ => exact h.idle hwf (hsent fun _ => rfl) rfl
  | abort _ => exact h.idle hwf (by simp [Event.Idle, queuedStep]) rfl
  | failure _ _ hcons => exact h.close hwf hcons (fun j => levelIn_append j _ _) rfl
  | abandoned _ => exact h.idle hwf (by simp [Event.Idle, queuedStep]) rfl

end WaitingInv

/-- In every run of the engine the lists are those of the log. -/
theorem engine_waiting {w : Width} {late : Prop} {e : Engine} {log : List Event}
    (h : Runs (EngineStep w late) Engine.init log e) : WaitingInv w e log := by
  refine h.invariant (P := WaitingInv w) ?_ .init
  intro l₀ e l e' hinv hstep
  cases hstep with
  | input hin => exact hinv.input hin
  | output hout hstep => exact hinv.output hout hstep

/-! ## The endpoint -/

section Endpoint

variable {B : Build} {n : Nat} {env : Env} {d : Dart} {e : Engine}

/-- The list that is sent from next has the message that is next in front. -/
theorem DartRep.selected (h : DartRep B n d e) (hwaiting : WaitingInv B.msgtypeSize e d.log)
    {i : Fin msgPrioLength} (hi : dartFindNextMessageQueue B d = some i) :
    Selected B.msgtypeSize (fun j => levelIn j d.log) e.pending i
      (d.msgAt B (msgListPeek (d.queue i))) := by
  obtain ⟨m, ms, hcons, hmay⟩ := h.find_some hi
  rw [h.peek hcons, h.msgAt (Engine.head_mem hcons)]
  refine ⟨i.isLt, ?_, hmay, ?_⟩
  · rw [← hwaiting.lists i, hcons, List.head?_cons]
  · intro j hj o ho hmayo
    have hlists := hwaiting.lists ⟨j, hj.trans i.isLt⟩
    obtain ⟨os, hcons'⟩ := List.head?_eq_some_iff.mp (hlists ▸ ho)
    obtain ⟨hpending, hreq⟩ := h.find_passed hi hj hcons'
    exact hmayo hpending hreq

/-- A call starts at most one transfer, of the first message of the next list, and then only
pushes bytes. -/
theorem call_start {call : DartCall} {evs l post : List Event} {m : Msg}
    (hlog : (dartCall B env d call).log = d.log ++ evs) (hsplit : evs = l ++ .start m :: post) :
    ∃ i, Uarts post ∧ dartFindNextMessageQueue B (dartCall B env d call) = some i ∧
      m = (dartCall B env d call).msgAt B (msgListPeek ((dartCall B env d call).queue i)) := by
  rcases proceeds_call B env d call with
      ⟨d₁, henters, evs₁, launch, hlog₁, hevs₁, hlaunch⟩ | hlowers
  · obtain ⟨pre, hpre, haccepts⟩ := henters.log
    have heq : l ++ .start m :: post = (pre ++ evs₁) ++ launch := by
      rw [hlog₁, hpre, hsplit] at hlog
      simp only [List.append_assoc] at hlog ⊢
      exact (List.append_cancel_left hlog).symm
    have hbefore : .start m ∉ pre ++ evs₁ := by
      intro hmem
      rcases List.mem_append.mp hmem with hmem | hmem
      · obtain ⟨prio, m', heq⟩ := haccepts _ hmem
        cases heq
      · exact minor_not_start hevs₁ _ hmem m rfl
    -- so the start is the first event of the launch
    rcases List.append_eq_append_iff.mp heq with ⟨mid, hleft, hright⟩ | ⟨mid, hleft, hright⟩
    · cases mid with
      | nil =>
          rcases hlaunch with rfl | ⟨i, uarts, huarts, rfl, -, hi⟩
          · cases hright
          · cases hright
            exact ⟨i, huarts, hi, rfl⟩
      | cons ev mid =>
          cases hright
          exact (hbefore (hleft ▸ List.mem_append_right _ List.mem_cons_self)).elim
    · rcases hlaunch with rfl | ⟨i, uarts, huarts, rfl, -, hi⟩
      · cases mid <;> cases hright
      · cases mid with
        | nil =>
            cases hright
            exact ⟨i, huarts, hi, rfl⟩
        | cons ev mid =>
            cases hright
            obtain ⟨bytes, hbytes⟩ := huarts (.start m) (List.mem_append_right _ List.mem_cons_self)
            cases hbytes
  · obtain ⟨evs₁, hlog₁, hevs₁⟩ := hlowers.log
    rw [List.append_assoc] at hlog₁
    have heq : evs = evs₁ ++ [.pin false] := List.append_cancel_left (hlog.symm.trans hlog₁)
    have hmem : .start m ∈ evs₁ ++ [.pin false] := by
      rw [← heq, hsplit]
      exact List.mem_append_right _ List.mem_cons_self
    rcases List.mem_append.mp hmem with hmem | hmem
    · exact (minor_not_start hevs₁ _ hmem m rfl).elim
    · cases List.mem_singleton.mp hmem

/-- Every transfer that a call starts is of the message that is next. -/
theorem call_selectOk {call : DartCall} (h : DartRep B n (dartCall B env d call) e)
    (hwaiting : WaitingInv B.msgtypeSize e (dartCall B env d call).log)
    (hpending : pendingIn (dartCall B env d call).log = e.pending) {evs : List Event}
    (hlog : (dartCall B env d call).log = d.log ++ evs) :
    Each (fun l x => SelectOk B.msgtypeSize (d.log ++ l) x) evs := by
  rintro l x post hsplit m rfl
  obtain ⟨i, hpost, hi, hm⟩ := call_start hlog hsplit
  have hselected := h.selected hwaiting hi
  rw [← hm, ← hpending, hlog, hsplit, ← List.append_assoc] at hselected
  -- the start and the bytes change neither what waits nor what is pending
  have hidle : ∀ ev ∈ .start m :: post, ev.Idle := by
    intro ev hev
    rcases List.mem_cons.mp hev with rfl | hev
    · exact fun _ => rfl
    · obtain ⟨bytes, rfl⟩ := hpost ev hev
      exact fun _ => rfl
  have hsame : pendingIn (d.log ++ l ++ .start m :: post) = pendingIn (d.log ++ l) := by
    have hinert : ∀ ev ∈ post, ev.Inert := by
      intro ev hev
      obtain ⟨bytes, rfl⟩ := hpost ev hev
      exact inert_uart bytes
    rw [pendingIn, List.foldl_append, List.foldl_cons, (foldl_inert hinert none _).2]
    rfl
  simp only [levelIn_idle hidle, hsame] at hselected
  exact ⟨i, hselected⟩

/-- The search through one list. -/
theorem DartRep.list_find (h : DartRep B n d e) (i : Fin msgPrioLength) (type : Nat) :
    msgListFindMsgtype B.msgtypeSize (d.queue i) d.heap.mem type ≠ 0 ↔
      ∃ m ∈ e.lists i, m.type = type := by
  have hmem : ∀ {m}, m ∈ e.lists i → m ∈ e.messages :=
    fun hm => mem_stored.mpr (.inl ⟨i, mem_prios i, hm⟩)
  rw [(h.store.reps i (mem_prios i)).find, List.find?_map]
  generalize hfind : (e.lists i).find?
    ((fun p => nodeType B.msgtypeSize d.heap.mem p == type) ∘ Msg.ptr) = found
  have hfound : found.isSome ↔ ∃ m ∈ e.lists i, m.type = type := by
    rw [← hfind, List.find?_isSome]
    refine exists_congr fun m => and_congr_right fun hm => ?_
    rw [Function.comp_apply, h.node_type (hmem hm), beq_iff_eq]
  rw [← hfound]
  cases found with
  | none => simp
  | some m => simpa using h.ptr_ne_zero (hmem (List.mem_of_find?_eq_some hfind))

/-- The search through all lists ends at the first in which something is found. -/
theorem lookLoop_ne_zero {look : MsgList → Nat} {q : MsgQueue} {prio : Option Nat}
    {is : List (Fin msgPrioLength)} :
    (msgQueueLookLoop look q prio is).1 ≠ 0 ↔ ∃ i ∈ is, look (q i) ≠ 0 := by
  induction is with
  | nil => simp [msgQueueLookLoop]
  | cons i is ih =>
      rw [msgQueueLookLoop]
      by_cases hi : look (q i) = 0
      · rw [if_neg (not_not.mpr hi), ih]
        simp [hi]
      · rw [if_pos hi]
        simp [hi]

/-- `dart_is_msg_pending` finds the pending request, and what waits at the given priority; at any
if it is not a priority. -/
theorem DartRep.isMsgPending (h : DartRep B n d e) (prio type : Nat) :
    dartIsMsgPending B d prio type = true ↔ ∃ m, m.type = type ∧
      (e.pending = some m ∨
        ∃ i : Fin msgPrioLength, (prio < msgPrioLength → prio = i) ∧ m ∈ e.lists i) := by
  have hpending : (d.pendingRequest ≠ 0 ∧
      nodeType B.msgtypeSize d.heap.mem d.pendingRequest = type) ↔
      ∃ m, m.type = type ∧ e.pending = some m := by
    rw [Ne, h.pending_eq_zero]
    cases hp : e.pending with
    | none => simp
    | some m =>
        rw [h.pending_some hp, h.node_type (Engine.pending_mem hp)]
        simp [eq_comm]
  have hlists : (msgQueueFindMsgtype B.msgtypeSize d.queue d.heap.mem (some prio) type).1 ≠ 0 ↔
      ∃ m, m.type = type ∧
        ∃ i : Fin msgPrioLength, (prio < msgPrioLength → prio = i) ∧ m ∈ e.lists i := by
    unfold msgQueueFindMsgtype
    dsimp only [Option.getD_some]
    split
    · rename_i hlt
      rw [h.list_find]
      constructor
      · rintro ⟨m, hm, htype⟩
        exact ⟨m, htype, _, fun _ => rfl, hm⟩
      · rintro ⟨m, htype, i, hi, hm⟩
        obtain rfl : i = ⟨prio, hlt⟩ := Fin.ext (hi hlt).symm
        exact ⟨m, hm, htype⟩
    · rename_i hge
      rw [lookLoop_ne_zero]
      constructor
      · rintro ⟨i, -, hfound⟩
        obtain ⟨m, hm, htype⟩ := (h.list_find i type).mp hfound
        exact ⟨m, htype, i, fun hlt => absurd hlt hge, hm⟩
      · rintro ⟨m, htype, i, -, hm⟩
        exact ⟨i, mem_prios i, (h.list_find i type).mpr ⟨m, hm, htype⟩⟩
  unfold dartIsMsgPending
  split
  · rename_i hp
    obtain ⟨m, htype, hm⟩ := hpending.mp hp
    exact iff_of_true rfl ⟨m, htype, .inl hm⟩
  · rename_i hp
    rw [decide_eq_true_iff, hlists]
    constructor
    · rintro ⟨m, htype, hm⟩
      exact ⟨m, htype, .inr hm⟩
    · rintro ⟨m, htype, hm | hm⟩
      · exact absurd (hpending.mpr ⟨m, htype, hm⟩) hp
      · exact ⟨m, htype, hm⟩

/-- `dart_get_current_msgtype` looks at the message in transfer, then at the pending request. -/
theorem DartRep.getCurrentMsgtype (h : DartRep B n d e) :
    dartGetCurrentMsgtype B d = (e.current.or e.pending).map Msg.type := by
  unfold dartGetCurrentMsgtype Engine.current
  rw [h.transfering]
  cases hi : e.transfering with
  | some i =>
      obtain ⟨m, ms, hcons⟩ := h.current hi
      dsimp only
      rw [h.peek hcons, h.node_type (Engine.head_mem hcons), Option.bind_some, hcons]
      rfl
  | none =>
      dsimp only
      cases hp : e.pending with
      | none =>
          rw [if_neg (not_not.mpr (h.pending_eq_zero.mpr hp))]
          rfl
      | some m =>
          rw [h.pending_some hp, if_pos (h.ptr_ne_zero (Engine.pending_mem hp)),
            h.node_type (Engine.pending_mem hp)]
          rfl

/-- An endpoint that is not sending has no messages. -/
theorem DartRep.isSending (h : DartRep B n d e) : dartIsSending B d = true ↔ e.messages ≠ [] := by
  constructor
  · intro hsending hempty
    rw [not_sending h hempty] at hsending
    cases hsending
  · intro hmessages
    by_contra hsending
    refine hmessages ?_
    unfold dartIsSending at hsending
    simp only [Bool.or_eq_true, decide_eq_true_eq, not_or, not_not, Option.not_isSome_iff_eq_none]
      at hsending
    exact messages_nil h hsending.2 hsending.1.2

end Endpoint

/-- **The endpoint tells the truth about its messages** in every run in which no allocation loses
bits of a length: it is sending while a message has not been reported, a type is pending if it is
that of the pending request or of a message that waits at the given priority, and the current
type is that of the message in transfer or else of the pending request. -/
theorem dart_queries (B : Build) (n : Nat) : (fittingSystem B n).Invariant fun d =>
    (dartIsSending B d = true ↔ openMessages d.log ≠ some []) ∧
    (∀ prio type, dartIsMsgPending B d prio type = true ↔ ∃ m, m.type = type ∧
      (pendingIn d.log = some m ∨
        ∃ i < msgPrioLength, (prio < msgPrioLength → prio = i) ∧ m ∈ levelIn i d.log)) ∧
    dartGetCurrentMsgtype B d =
      ((transferIn d.log).or (pendingIn d.log)).map Msg.type := by
  intro d hd
  obtain ⟨e, hrun, hrep⟩ := dart_refines_engine B n d hd
  obtain ⟨opened, hopen, hperm⟩ := (engine_ledger hrun).2
  have hrequests := engine_requests hrun
  have hwaiting := engine_waiting hrun
  refine ⟨?_, fun prio type => ?_, ?_⟩
  · rw [hrep.isSending, hopen, Ne, Ne, Option.some.injEq, not_iff_not]
    exact ⟨fun hempty => (hempty ▸ hperm).eq_nil, fun hempty => (hempty ▸ hperm).nil_eq.symm⟩
  · rw [hrep.isMsgPending, hrequests.pending]
    refine exists_congr fun m => and_congr_right fun _ => or_congr_right ?_
    constructor
    · rintro ⟨i, hprio, hm⟩
      exact ⟨i, i.isLt, hprio, hwaiting.lists i ▸ hm⟩
    · rintro ⟨i, hi, hprio, hm⟩
      exact ⟨⟨i, hi⟩, hprio, hwaiting.lists ⟨i, hi⟩ ▸ hm⟩
  · rw [hrep.getCurrentMsgtype, hrequests.transfer, hrequests.pending]

/-- A request is pending, another one and a report wait for the peer. A request is looked for
at the priority of reports, and found, since it is pending. -/
theorem dart_queries_waiting :
    let B : Build := ⟨.one, .one, .one⟩
    let d := dartCalls B (dartFresh 512 64)
      [(.plain 7 true, .send dartMsgPrioAny (fun _ => 0x41) 1), (.plain 8 true, .receive dartAck),
        (.plain 9 false, .send 0 (fun _ => 0x42) 1), (.plain 10 false, .send 1 (fun _ => 0x11) 1)]
    dartGetCurrentMsgtype B d = some 0x41 ∧ dartIsSending B d = true ∧
      dartIsMsgPending B d 1 0x41 = true ∧ dartIsMsgPending B d 0 0x42 = true := by
  intro B d
  have hd : (fittingSystem B 512).Reachable d :=
    dartSystem_fits rfl (by decide)
      (dartSystem_calls (dartFresh_reachable B (by decide) (by decide)) (by decide))
  obtain ⟨hsending, hpending, hcurrent⟩ := dart_queries B 512 d hd
  have hrequest : pendingIn d.log = some ⟨20, 0x41, [0x41]⟩ := by decide +kernel
  have hwaiting : levelIn 0 d.log = [⟨56, 0x42, [0x42]⟩] := by decide +kernel
  have htransfer : transferIn d.log = none := by decide +kernel
  refine ⟨?_, hsending.mpr (by decide +kernel), ?_, ?_⟩
  · rw [hcurrent, htransfer, hrequest]
    rfl
  · exact (hpending 1 0x41).mpr ⟨_, rfl, .inl hrequest⟩
  · exact (hpending 0 0x42).mpr ⟨⟨56, 0x42, [0x42]⟩, rfl,
      .inr ⟨0, by decide, fun _ => rfl, hwaiting ▸ List.mem_singleton_self _⟩⟩

/-- **Priorities order the wire** in every run in which no allocation loses bits of a length,
whatever priorities the messages are sent with: a transfer is only started of the first message
of the first priority whose first message may be sent. Priorities are passed over if nothing
waits there, or if a request is in front and another one is pending. -/
theorem dart_priority_order (B : Build) (n : Nat) :
    (fittingSystem B n).Invariant fun d => Each (SelectOk B.msgtypeSize) d.log := by
  have hinv : (fittingSystem B n).Invariant fun d => ∃ e,
      Runs (EngineStep B.msgtypeSize True) Engine.init d.log e ∧ DartRep B n d e ∧
      Each (SelectOk B.msgtypeSize) d.log := by
    apply TSys.Inductive.invariant
    constructor
    · intro d hinit
      obtain ⟨hrep, hlog⟩ := dartInit_rep (B := B) hinit
      rw [hlog]
      exact ⟨Engine.init, .refl _, hrep, each_nil _⟩
    · rintro d ⟨env, call⟩ d' ⟨e, hrun, hrep, hstarts⟩ ⟨hfits, hvalid, rfl⟩
      obtain ⟨evs, e', hlog, hrun', hrep'⟩ := tracks_call env hrep hvalid hfits
      dsimp only at hlog hrep' ⊢
      have hruns : Runs (EngineStep B.msgtypeSize True) Engine.init
          (dartCall B env d call).log e' :=
        hlog ▸ hrun.trans hrun'
      have hnew := call_selectOk hrep' (engine_waiting hruns) (engine_requests hruns).pending hlog
      exact ⟨e', hruns, hrep', hlog ▸ each_append hstarts hnew⟩
  intro d hd
  obtain ⟨e, -, -, hstarts⟩ := hinv d hd
  exact hstarts

/-- A request waits with the first priority while another one is pending: the report with the
last priority is sent before it. -/
theorem dart_priority_order_held :
    let B : Build := ⟨.one, .one, .one⟩
    let d := dartCalls B (dartFresh 512 64)
      [(.plain 7 true, .send dartMsgPrioAny (fun _ => 0x41) 1), (.plain 8 true, .receive dartAck),
        (.plain 9 false, .send 0 (fun _ => 0x42) 1), (.plain 10 false, .send 2 (fun _ => 0x11) 1),
        (.plain 11 true, .time)]
    lastSent d.log = some ⟨92, 0x11, [0x11]⟩ ∧ Each (SelectOk .one) d.log := by
  intro B d
  have hd : (fittingSystem B 512).Reachable d :=
    dartSystem_fits rfl (by decide)
      (dartSystem_calls (dartFresh_reachable B (by decide) (by decide)) (by decide))
  exact ⟨by decide +kernel, dart_priority_order B 512 d hd⟩

end EmbeddedMx
