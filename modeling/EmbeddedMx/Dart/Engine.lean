import EmbeddedMx.Lib.Trace
import EmbeddedMx.Message.Store
import EmbeddedMx.Dart.Model

/-!
# What the link does with messages

An abstract view of an endpoint: three priority queues, which of them is being
transferred from (its first message is the one in transfer), and the pending
request. A step is one of the few things that can happen to a message; its label
is what the endpoint's log shows of it. No timers, pins, bytes or addresses: when
a step may be taken is the business of `dart.c`.

`EngineIn` are the steps caused by what the receiver has understood, `EngineOut`
all others. Steps that only happen on a line that lost something carry the
premise `late`.
-/

namespace EmbeddedMx

open EmbeddedMx.Lib

/-- The message is a request. -/
def Msg.IsRequest (w : Width) (m : Msg) : Prop := m.type &&& msgTypeMask w = msgRequest w

instance (w : Width) (m : Msg) : Decidable (m.IsRequest w) :=
  inferInstanceAs (Decidable (_ = _))

/-- A received message of type `type` is the response to the request `m`. -/
def Msg.AnsweredBy (w : Width) (m : Msg) (type : Nat) : Prop :=
  type &&& msgTypeMask w = msgResponse w ∧ m.type &&& msgIdMask w = type &&& msgIdMask w

instance (w : Width) (m : Msg) (type : Nat) : Decidable (m.AnsweredBy w type) :=
  inferInstanceAs (Decidable (_ ∧ _))

/-- Events that concern no message. -/
inductive Event.Quiet : Event → Prop
  | pin (state) : Quiet (.pin state)
  | notify (code n) : Quiet (.callback code .null n)

/-- All priorities. -/
abbrev prios : List (Fin msgPrioLength) := List.finRange msgPrioLength

theorem prios_nodup : prios.Nodup := List.nodup_finRange _

theorem mem_prios (i : Fin msgPrioLength) : i ∈ prios := List.mem_finRange i

structure Engine where
  lists : Fin msgPrioLength → List Msg
  transfering : Option (Fin msgPrioLength)
  pending : Option Msg

namespace Engine

def init : Engine := { lists := fun _ => [], transfering := none, pending := none }

/-- All messages the endpoint is responsible for. -/
def messages (e : Engine) : List Msg :=
  stored prios e.lists e.pending.toList

@[simp] theorem messages_init : init.messages = [] := by decide

/-- The message in transfer. -/
def current (e : Engine) : Option Msg :=
  e.transfering.bind fun i => (e.lists i).head?

/-- The transfer from list `i` is over; `ms` is what remains in it. -/
def close (e : Engine) (i : Fin msgPrioLength) (ms : List Msg) : Engine :=
  { e with lists := Function.update e.lists i ms, transfering := none }

/-- A message is put at the end of list `i`. -/
def push (e : Engine) (i : Fin msgPrioLength) (m : Msg) : Engine :=
  { e with lists := Function.update e.lists i (e.lists i ++ [m]) }

variable {e : Engine} {i : Fin msgPrioLength} {m : Msg} {ms : List Msg}

theorem head_mem (hcons : e.lists i = m :: ms) : m ∈ e.messages :=
  mem_stored.mpr (.inl ⟨i, mem_prios i, hcons ▸ List.mem_cons_self⟩)

theorem pending_mem (hm : e.pending = some m) : m ∈ e.messages :=
  mem_stored.mpr (.inr (hm ▸ List.mem_singleton.mpr rfl))

theorem close_perm (hcons : e.lists i = m :: ms) :
    (m :: (e.close i ms).messages).Perm e.messages :=
  (StoreRep.stored_cons_perm.symm).trans (stored_pop_perm prios_nodup (mem_prios i) hcons)

theorem push_perm : (e.push i m).messages.Perm (m :: e.messages) :=
  (stored_push_perm prios_nodup (mem_prios i)).trans StoreRep.stored_cons_perm

theorem unpend_perm (hm : e.pending = some m) :
    (m :: { e with pending := none }.messages).Perm e.messages := by
  refine StoreRep.stored_cons_perm.symm.trans ?_
  rw [messages, hm]
  exact .refl _

theorem promote_perm (hcons : e.lists i = m :: ms) (hnone : e.pending = none) :
    { e.close i ms with pending := some m }.messages.Perm e.messages := by
  have hpop : (stored prios (Function.update e.lists i ms) (m :: e.pending.toList)).Perm _ :=
    stored_pop_perm prios_nodup (mem_prios i) hcons
  rw [hnone] at hpop
  rw [messages, messages, hnone]
  exact hpop

theorem current_eq (hi : e.transfering = some i) (hcons : e.lists i = m :: ms) :
    e.current = some m := by
  rw [current, hi, Option.bind_some, hcons, List.head?_cons]

end Engine

/-- Steps the endpoint takes by itself. `out m` is what it sends for `m`, `ok` what
is known of a message it accepts. -/
inductive EngineOut (w : Width) (out : Msg → List Event) (late : Prop) (ok : Msg → Prop) :
    Engine → List Event → Engine → Prop
  | quiet {e ev} : ev.Quiet → EngineOut w out late ok e [ev] e
  | accept {e} {i : Fin msgPrioLength} {m} : ok m → m.ptr ∉ e.messages.map Msg.ptr →
      EngineOut w out late ok e [.accept i m]
        (e.push i m)
  | start {e i m ms} : e.transfering = none → e.lists i = m :: ms →
      (e.pending.isSome → ¬ m.IsRequest w) →
      EngineOut w out late ok e (.start m :: out m) { e with transfering := some i }
  | retry {e i m ms} : late → e.transfering = some i → e.lists i = m :: ms →
      EngineOut w out late ok e (.retry m :: out m) e
  | abort {e} : late → EngineOut w out late ok e [.abort] { e with transfering := none }
  | failure {e i m ms} : late → e.transfering = some i → e.lists i = m :: ms →
      EngineOut w out late ok e [.callback .transferFailure (.stored m) m.data.length]
        (e.close i ms)
  | abandoned {e m} : e.pending = some m →
      EngineOut w out late ok e [.callback .messageAbandoned (.stored m) m.data.length]
        { e with pending := none }

/-- Steps caused by a control byte or a complete frame. -/
inductive EngineIn (w : Width) : Engine → List Event → Engine → Prop
  | ignored {e ch} : (ch = dartAck → e.transfering = none) → EngineIn w e [.control ch] e
  | done {e i m ms} : e.transfering = some i → e.lists i = m :: ms → ¬ m.IsRequest w →
      EngineIn w e [.control dartAck, .callback .transferDone (.stored m) m.data.length]
        (e.close i ms)
  | promote {e i m ms} : e.transfering = some i → e.lists i = m :: ms → m.IsRequest w →
      EngineIn w e [.control dartAck, .promote m] { e.close i ms with pending := some m }
  | received {e type data} :
      EngineIn w e [.uart [dartAck], .callback .messageReceived (.rx type data) data.length] e
  | answered {e m type data} : e.pending = some m → m.AnsweredBy w type →
      EngineIn w e [.uart [dartAck], .callback .messageReceived (.rx type data) data.length,
        .callback .transferDone (.stored m) data.length] { e with pending := none }
  | damaged {e} : EngineIn w e [.uart [dartBad], .callback .transferCorrupted .null 0] e

/-- A step of either kind, whatever is sent. -/
inductive EngineStep (w : Width) (late : Prop) (e : Engine) (evs : List Event) (e' : Engine) : Prop
  | input : EngineIn w e evs e' → EngineStep w late e evs e'
  | output {out ok} : (∀ m, ∀ ev ∈ out m, ∃ bytes, ev = .uart bytes) →
      EngineOut w out late ok e evs e' → EngineStep w late e evs e'

/-! ## Well-formed states -/

/-- Messages are distinct objects, a list with a transfer is not empty, and a
request is not in transfer while another one is pending. -/
structure EngineWf (w : Width) (e : Engine) : Prop where
  nodup : (e.messages.map Msg.ptr).Nodup
  busy : ∀ i, e.transfering = some i → e.lists i ≠ []
  request : ∀ i m ms, e.transfering = some i → e.lists i = m :: ms → e.pending.isSome →
    ¬ m.IsRequest w

namespace EngineWf

variable {w : Width} {e e' : Engine} {evs : List Event}

theorem init : EngineWf w Engine.init :=
  ⟨List.nodup_nil, by rintro i ⟨⟩, by rintro i m ms ⟨⟩⟩

/-- A request is only promoted when none is pending. -/
theorem pending_none (h : EngineWf w e) {i : Fin msgPrioLength} {m : Msg} {ms : List Msg}
    (hi : e.transfering = some i) (hcons : e.lists i = m :: ms) (hreq : m.IsRequest w) :
    e.pending = none := by
  by_contra hsome
  exact h.request i m ms hi hcons (Option.isSome_iff_ne_none.mpr hsome) hreq

theorem of_perm_sublist {l : List Msg} (h : EngineWf w e)
    (hperm : (l ++ e'.messages).Perm e.messages) :
    (e'.messages.map Msg.ptr).Nodup := by
  have hnodup := ((hperm.map Msg.ptr).nodup_iff).mpr h.nodup
  rw [List.map_append] at hnodup
  exact hnodup.of_append_right

/-- Once no transfer is on, only distinctness is left to show. -/
theorem of_idle {l : List Msg} (h : EngineWf w e) (hperm : (l ++ e'.messages).Perm e.messages)
    (hidle : e'.transfering = none) : EngineWf w e' where
  nodup := h.of_perm_sublist hperm
  busy := by
    intro i hi
    rw [hidle] at hi
    cases hi
  request := by
    intro i m ms hi
    rw [hidle] at hi
    cases hi

/-- Removing the pending request. -/
theorem unpend (h : EngineWf w e) {m : Msg} (hm : e.pending = some m) :
    EngineWf w { e with pending := none } where
  nodup := h.of_perm_sublist (l := [m]) (Engine.unpend_perm hm)
  busy := h.busy
  request := by
    intro i m ms _ _ hpending
    cases hpending

/-- A new message does not become the first of a list with a transfer. -/
theorem current_push (h : EngineWf w e) (i : Fin msgPrioLength) (m : Msg) :
    (e.push i m).current = e.current := by
  unfold Engine.current
  show e.transfering.bind _ = e.transfering.bind _
  cases hj : e.transfering with
  | none => rfl
  | some j =>
      obtain ⟨o, os, hcons⟩ := List.exists_cons_of_ne_nil (h.busy j hj)
      show (Function.update e.lists i (e.lists i ++ [m]) j).head? = (e.lists j).head?
      by_cases hij : j = i
      · subst hij
        rw [Function.update_self, hcons, List.cons_append, List.head?_cons, List.head?_cons]
      · rw [Function.update_of_ne hij]

theorem output {out : Msg → List Event} {late : Prop} {ok : Msg → Prop} (h : EngineWf w e)
    (hstep : EngineOut w out late ok e evs e') : EngineWf w e' := by
  cases hstep with
  | quiet _ => exact h
  | accept hok hfresh =>
      rename_i i m
      refine ⟨?_, ?_, ?_⟩
      · refine ((Engine.push_perm.map Msg.ptr).nodup_iff).mpr ?_
        exact List.nodup_cons.mpr ⟨hfresh, h.nodup⟩
      · intro j hj
        show Function.update e.lists i _ j ≠ []
        by_cases hij : j = i
        · subst hij
          rw [Function.update_self]
          exact List.append_ne_nil_of_right_ne_nil _ (List.cons_ne_nil _ _)
        · rw [Function.update_of_ne hij]
          exact h.busy j hj
      · intro j o os hj hcons
        obtain ⟨o', os', hold⟩ := List.exists_cons_of_ne_nil (h.busy j hj)
        have hcurrent : e.current = some o' := Engine.current_eq hj hold
        have hnew : (e.push i m).current = some o := Engine.current_eq hj hcons
        rw [h.current_push, hcurrent] at hnew
        cases hnew
        exact h.request j o os' hj hold
  | start _ hcons hreq =>
      rename_i i m ms _
      refine ⟨h.nodup, ?_, ?_⟩
      · rintro j ⟨⟩
        rw [hcons]
        exact List.cons_ne_nil m ms
      · rintro j o os ⟨⟩ hcons'
        have heq := hcons.symm.trans hcons'
        exact (List.cons.inj heq).1 ▸ hreq
  | retry _ _ _ => exact h
  | abort _ => exact h.of_idle (l := []) (.refl _) rfl
  | failure _ _ hcons => exact h.of_idle (l := [_]) (Engine.close_perm hcons) rfl
  | abandoned hm => exact h.unpend hm

theorem input (h : EngineWf w e) (hstep : EngineIn w e evs e') : EngineWf w e' := by
  cases hstep with
  | ignored _ => exact h
  | done _ hcons _ => exact h.of_idle (l := [_]) (Engine.close_perm hcons) rfl
  | promote hi hcons hreq =>
      exact h.of_idle (l := []) (Engine.promote_perm hcons (h.pending_none hi hcons hreq)) rfl
  | received => exact h
  | answered hm _ => exact h.unpend hm
  | damaged => exact h

theorem step {late : Prop} (h : EngineWf w e) (hstep : EngineStep w late e evs e') :
    EngineWf w e' := by
  cases hstep with
  | input hin => exact h.input hin
  | output _ hout => exact h.output hout

end EngineWf

end EmbeddedMx
