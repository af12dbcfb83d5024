import EmbeddedMx.Dart.Endpoint

/-!
# Every accepted message has one fate

The ledger replays the log: a message that is accepted is opened, a message that
is reported as done, failed or abandoned is closed. The replay refuses a message
accepted into the node of an open one and a report of a message that is not
open, so a log it accepts reports every message at most once, and after it was
accepted. In every state the open messages are those the endpoint stores.
-/

namespace EmbeddedMx

open EmbeddedMx.Lib

/-- The message whose fate the event reports. -/
def Event.reports : Event → Option Msg
  | .callback .transferDone (.stored m) _ => some m
  | .callback .transferFailure (.stored m) _ => some m
  | .callback .messageAbandoned (.stored m) _ => some m
  | _ => none

/-- The open messages after an event. -/
def ledgerStep (opened : List Msg) (ev : Event) : Option (List Msg) :=
  match ev with
  | .accept _ m => if m.ptr ∈ opened.map Msg.ptr then none else some (m :: opened)
  | ev =>
      match ev.reports with
      | none => some opened
      | some m => if m ∈ opened then some (opened.erase m) else none

/-- The messages accepted and not yet reported. -/
def openMessages (log : List Event) : Option (List Msg) := log.foldlM ledgerStep []

/-- Events that neither open nor close a message. -/
def Event.Neutral (ev : Event) : Prop := ∀ opened, ledgerStep opened ev = some opened

theorem neutral_uart (bytes : List UInt8) : (Event.uart bytes).Neutral := fun _ => rfl

theorem Event.Quiet.neutral {ev : Event} (h : ev.Quiet) : ev.Neutral := by
  intro opened
  cases h with
  | pin state => rfl
  | notify code n => cases code <;> rfl

/-- A report closes the message it is about. -/
theorem ledgerStep_report {opened : List Msg} {ev : Event} {m : Msg} (hev : ev.reports = some m)
    (hm : m ∈ opened) : ledgerStep opened ev = some (opened.erase m) := by
  cases ev with
  | callback code param1 param2 =>
      simp only [ledgerStep, hev]
      rw [if_pos hm]
  | _ => cases hev

/-- The open messages are the messages of the engine. -/
def LedgerOk (e : Engine) (log : List Event) : Prop :=
  ∃ opened, openMessages log = some opened ∧ opened.Perm e.messages

namespace LedgerOk

variable {w : Width} {e e' : Engine} {log evs : List Event}

/-- Events that leave the messages alone. -/
theorem neutral (h : LedgerOk e log) (hevs : ∀ ev ∈ evs, ev.Neutral)
    (hperm : e'.messages.Perm e.messages) : LedgerOk e' (log ++ evs) := by
  obtain ⟨opened, hopen, hsame⟩ := h
  refine ⟨opened, ?_, hsame.trans hperm.symm⟩
  exact (foldlM_resume hopen evs).trans (foldlM_idle hevs opened)

/-- Events of which the last reports the message that goes. -/
theorem report (h : LedgerOk e log) (evs : List Event) {m : Msg} {ev : Event}
    (hevs : ∀ ev ∈ evs, ev.Neutral)
    (hev : ev.reports = some m) (hperm : (m :: e'.messages).Perm e.messages) :
    LedgerOk e' (log ++ (evs ++ [ev])) := by
  obtain ⟨opened, hopen, hsame⟩ := h
  have hm : m ∈ opened := hsame.mem_iff.mpr (hperm.mem_iff.mp List.mem_cons_self)
  refine ⟨opened.erase m, ?_, ?_⟩
  · rw [openMessages, foldlM_resume hopen, foldlM_resume (foldlM_idle hevs opened)]
    show (ledgerStep opened ev).bind some = _
    rw [ledgerStep_report hev hm]
    rfl
  · have herase := (hsame.trans hperm.symm).erase m
    rwa [List.erase_cons_head] at herase

/-- A new message. -/
theorem accept (h : LedgerOk e log) {i : Fin msgPrioLength} {m : Msg}
    (hfresh : m.ptr ∉ e.messages.map Msg.ptr) : LedgerOk (e.push i m) (log ++ [.accept i m]) := by
  obtain ⟨opened, hopen, hsame⟩ := h
  refine ⟨m :: opened, ?_, (hsame.cons m).trans Engine.push_perm.symm⟩
  have hfresh' : m.ptr ∉ opened.map Msg.ptr := fun hmem =>
    hfresh (((hsame.map Msg.ptr).mem_iff).mp hmem)
  rw [openMessages, foldlM_resume hopen]
  show (ledgerStep opened (.accept i m)).bind some = _
  rw [ledgerStep, if_neg hfresh']
  rfl

theorem input (h : LedgerOk e log) (hwf : EngineWf w e) (hstep : EngineIn w e evs e') :
    LedgerOk e' (log ++ evs) := by
  cases hstep with
  | ignored _ => exact h.neutral (by simp [Event.Neutral, ledgerStep, Event.reports]) (.refl _)
  | done _ hcons _ =>
      exact h.report [.control dartAck]
        (by simp [Event.Neutral, ledgerStep, Event.reports]) rfl (Engine.close_perm hcons)
  | promote hi hcons hreq =>
      exact h.neutral (by simp [Event.Neutral, ledgerStep, Event.reports])
        (Engine.promote_perm hcons (hwf.pending_none hi hcons hreq))
  | received => exact h.neutral (by simp [Event.Neutral, ledgerStep, Event.reports]) (.refl _)
  | answered hm _ =>
      exact h.report [.uart [dartAck], .callback .messageReceived _ _]
        (by simp [Event.Neutral, ledgerStep, Event.reports]) rfl (Engine.unpend_perm hm)
  | damaged => exact h.neutral (by simp [Event.Neutral, ledgerStep, Event.reports]) (.refl _)

theorem output {out : Msg → List Event} {late : Prop} {ok : Msg → Prop} (h : LedgerOk e log)
    (hout : ∀ m, ∀ ev ∈ out m, ∃ bytes, ev = .uart bytes)
    (hstep : EngineOut w out late ok e evs e') : LedgerOk e' (log ++ evs) := by
  have hsent : ∀ {mark : Event} {m : Msg}, mark.Neutral → ∀ ev ∈ mark :: out m, ev.Neutral := by
    intro mark m hmark ev hev
    rcases List.mem_cons.mp hev with rfl | hev
    · exact hmark
    · obtain ⟨bytes, rfl⟩ := hout m ev hev
      exact neutral_uart bytes
  cases hstep with
  | quiet hev => exact h.neutral (by simpa using hev.neutral) (.refl _)
  | accept hok hfresh => exact h.accept hfresh
  | start _ _ _ => exact h.neutral (hsent fun _ => rfl) (.refl _)
  | retry _ _ _ => exact h.neutral (hsent fun _ => rfl) (.refl _)
  | abort _ => exact h.neutral (by simp [Event.Neutral, ledgerStep, Event.reports]) (.refl _)
  | failure _ _ hcons =>
      exact h.report [] (by simp) rfl (Engine.close_perm hcons)
  | abandoned hm => exact h.report [] (by simp) rfl (Engine.unpend_perm hm)

end LedgerOk

/-- In every run of the engine the open messages are the stored ones. -/
theorem engine_ledger {w : Width} {late : Prop} {e : Engine} {log : List Event}
    (h : Runs (EngineStep w late) Engine.init log e) : EngineWf w e ∧ LedgerOk e log := by
  have hinit : EngineWf w Engine.init ∧ LedgerOk Engine.init [] :=
    ⟨.init, [], rfl, List.Perm.refl _⟩
  refine h.invariant (P := fun e log => EngineWf w e ∧ LedgerOk e log) ?_ hinit
  rintro l₀ e l e' ⟨hwf, hledger⟩ hstep
  refine ⟨hwf.step hstep, ?_⟩
  cases hstep with
  | input hin => exact hledger.input hwf hin
  | output hout hstep => exact hledger.output hout hstep

/-! ## The endpoint -/

/-- The nodes an endpoint stores, if its lists hold the nodes `lists`. -/
def Dart.nodes (d : Dart) (lists : Fin msgPrioLength → List Nat) : List Nat :=
  prios.flatMap lists ++ if d.pendingRequest = 0 then [] else [d.pendingRequest]

/-- **One fate.** For one byte lengths and a pool of at most 4099 bytes, in every
state of an endpoint: its queue is three well-formed lists of nodes; these nodes
and that of the pending request are all different; and the messages in them are
exactly those accepted and not yet reported, with the type and bytes they were
accepted with. -/
theorem dart_one_fate {B : Build} {n : Nat} (hB : B.lenSize = .one) (hn : n ≤ 4099) {d : Dart}
    (hd : (dartSystem B n).Reachable d) :
    ∃ lists opened, (∀ i, MsgListRep (d.queue i) d.heap.mem (lists i)) ∧
      (d.nodes lists).Nodup ∧ openMessages d.log = some opened ∧
      opened.Perm ((d.nodes lists).map (d.msgAt B)) := by
  obtain ⟨e, hrun, hrep⟩ := dart_refines_engine B n d (dartSystem_fits hB hn hd)
  obtain ⟨hwf, opened, hopen, hperm⟩ := engine_ledger hrun
  have hnodes : d.nodes (fun i => (e.lists i).map Msg.ptr) = e.messages.map Msg.ptr := by
    have hpending : (if d.pendingRequest = 0 then [] else [d.pendingRequest]) =
        e.pending.toList.map Msg.ptr := by
      cases hp : e.pending with
      | none => rw [if_pos (hrep.pending_eq_zero.mpr hp)]; rfl
      | some m =>
          have hne : d.pendingRequest ≠ 0 := by
            rw [Ne, hrep.pending_eq_zero, hp]
            exact Option.some_ne_none m
          rw [if_neg hne, hrep.pending_some hp]
          rfl
    rw [Dart.nodes, hpending, Engine.messages, stored, List.map_append, List.map_flatMap]
  refine ⟨fun i => (e.lists i).map Msg.ptr, opened, fun i => hrep.store.reps i (mem_prios i),
    ?_, hopen, ?_⟩
  · rw [hnodes]
    exact hwf.nodup
  · have hsame : (e.messages.map Msg.ptr).map (d.msgAt B) = e.messages := by
      rw [List.map_map]
      exact (List.map_congr_left fun m hm => hrep.msgAt hm).trans (List.map_id _)
    rw [hnodes, hsame]
    exact hperm

/-- A report of one byte, queued while the peer is not ready. -/
theorem dart_one_fate_queued :
    let B : Build := ⟨.one, .one, .one⟩
    let d := dartCall B (.plain 7 false) (dartFresh 512 64) (.send 1 (fun _ => 0x11) 1)
    ∃ lists, (∀ i, MsgListRep (d.queue i) d.heap.mem (lists i)) ∧ (d.nodes lists).Nodup ∧
      [(⟨20, 0x11, [0x11]⟩ : Msg)].Perm ((d.nodes lists).map (d.msgAt B)) := by
  have hreach := dartSystem_call (.plain 7 false) (.send 1 (fun _ => 0x11) 1)
    (dartFresh_reachable ⟨.one, .one, .one⟩ (by decide : 512 < 2 ^ 16) (by decide : 64 < 2 ^ 16))
    (by decide : 1 < 256)
  obtain ⟨lists, opened, hreps, hnodup, hopen, hperm⟩ := dart_one_fate rfl (by decide) hreach
  have hlog : openMessages (dartCall ⟨.one, .one, .one⟩ (.plain 7 false) (dartFresh 512 64)
      (.send 1 (fun _ => 0x11) 1)).log = some [⟨20, 0x11, [0x11]⟩] := by decide +kernel
  rw [hlog] at hopen
  exact ⟨lists, hreps, hnodup, Option.some.inj hopen ▸ hperm⟩

end EmbeddedMx
