import EmbeddedMx.Dart.Requests

/-!
# The order of transfers

What a log says about the order in which messages are started, pushed on the line
and acknowledged. In every run of the engine an acknowledged message is the one
started last, after whose start nothing else was pushed. While no ACK timer
expires the messages are started once each, in the order in which they are
acknowledged.
-/

namespace EmbeddedMx

open EmbeddedMx.Lib

/-! ## Reading the log -/

namespace Event

/-- The message that is selected for transfer. -/
def starts : Event → List Msg
  | .start m => [m]
  | _ => []

/-- The message that is pushed on the line, for the first time or again. -/
def pushes : Event → List Msg
  | .start m => [m]
  | .retry m => [m]
  | _ => []

/-- The message that is treated as acknowledged: a request is promoted, any other
message is reported done. -/
def acked (w : Width) : Event → List Msg
  | .promote m => [m]
  | .callback .transferDone (.stored m) _ => if m.IsRequest w then [] else [m]
  | _ => []

/-- A byte is taken for `DART_ACK`. -/
def takesAck : Event → Bool
  | .control ch => ch = dartAck
  | _ => false

/-- Events that concern none of these. -/
structure Silent (w : Width) (ev : Event) : Prop where
  starts : ev.starts = []
  pushes : ev.pushes = []
  acked : ev.acked w = []

end Event

/-- An acknowledged message was in transfer when the acknowledge byte was taken,
and since its start nothing else had been pushed. -/
def AckOk (w : Width) (pre : List Event) (ev : Event) : Prop :=
  ∀ m ∈ ev.acked w, ∃ l₁ l₂, pre = l₁ ++ .start m :: l₂ ++ [.control dartAck] ∧
    transferIn (l₁ ++ .start m :: l₂) = some m ∧ ∀ o ∈ l₂.flatMap Event.pushes, o = m

section Silent

variable {w : Width}

theorem silent_uart (bytes : List UInt8) : (Event.uart bytes).Silent w := ⟨rfl, rfl, rfl⟩

theorem silent_control (ch : UInt8) : (Event.control ch).Silent w := ⟨rfl, rfl, rfl⟩

theorem silent_received (type : Nat) (data : List UInt8) (len : Nat) :
    (Event.callback .messageReceived (.rx type data) len).Silent w := ⟨rfl, rfl, rfl⟩

theorem Event.Quiet.silent {ev : Event} (h : ev.Quiet) : ev.Silent w := by
  cases h with
  | pin state => exact ⟨rfl, rfl, rfl⟩
  | notify code n => cases code <;> exact ⟨rfl, rfl, rfl⟩

/-- The report about an answered request is no acknowledge. -/
theorem silent_answered {m : Msg} (hm : m.IsRequest w) (len : Nat) :
    (Event.callback .transferDone (.stored m) len).Silent w :=
  ⟨rfl, rfl, if_pos hm⟩

theorem silent_flatMap {evs : List Event} (h : ∀ ev ∈ evs, ev.Silent w) :
    evs.flatMap Event.starts = [] ∧ evs.flatMap Event.pushes = [] ∧
      evs.flatMap (Event.acked w) = [] := by
  refine ⟨?_, ?_, ?_⟩
  · exact List.flatMap_eq_nil_iff.mpr fun ev hev => (h ev hev).starts
  · exact List.flatMap_eq_nil_iff.mpr fun ev hev => (h ev hev).pushes
  · exact List.flatMap_eq_nil_iff.mpr fun ev hev => (h ev hev).acked

theorem Event.Silent.ackOk {ev : Event} (h : ev.Silent w) (pre : List Event) : AckOk w pre ev := by
  intro m hm
  rw [h.acked] at hm
  exact absurd hm List.not_mem_nil

/-- The steps of the engine with only silent events. -/
theorem sent_silent {out : Msg → List Event} (hout : ∀ m, ∀ ev ∈ out m, ∃ bytes, ev = .uart bytes)
    (m : Msg) : ∀ ev ∈ out m, ev.Silent w := by
  intro ev hev
  obtain ⟨bytes, rfl⟩ := hout m ev hev
  exact silent_uart bytes

end Silent

/-! ## Every run -/

/-- What every log says about acknowledges. -/
structure AckInv (w : Width) (e : Engine) (log : List Event) : Prop where
  requests : RequestInv w e log
  asked : ∀ m, e.pending = some m → m.IsRequest w
  current : ∀ m, e.current = some m → ∃ l₁ l₂, log = l₁ ++ .start m :: l₂ ∧
    ∀ o ∈ l₂.flatMap Event.pushes, o = m
  acked : Each (AckOk w) log
  count : (log.flatMap (Event.acked w)).length ≤ log.countP Event.takesAck

namespace AckInv

variable {w : Width} {e e' : Engine} {log evs : List Event}

theorem init : AckInv w Engine.init [] :=
  ⟨.init, by rintro m ⟨⟩, by rintro m ⟨⟩, each_nil _, Nat.le_refl _⟩

/-- What has to be checked of a step. -/
theorem append (h : AckInv w e log) (hrequests : RequestInv w e' (log ++ evs))
    (hasked : ∀ m, e'.pending = some m → e.pending = some m ∨ m.IsRequest w)
    (hcurrent : ∀ m, e'.current = some m →
      (e.current = some m ∧ ∀ o ∈ evs.flatMap Event.pushes, o = m) ∨
      ∃ rest, evs = .start m :: rest ∧ ∀ o ∈ rest.flatMap Event.pushes, o = m)
    (hacked : Each (fun pre x => AckOk w (log ++ pre) x) evs)
    (hcount : (evs.flatMap (Event.acked w)).length ≤ evs.countP Event.takesAck) :
    AckInv w e' (log ++ evs) where
  requests := hrequests
  asked := by
    intro m hm
    rcases hasked m hm with hold | hnew
    · exact h.asked m hold
    · exact hnew
  current := by
    intro m hm
    rcases hcurrent m hm with ⟨hold, hevs⟩ | ⟨rest, rfl, hrest⟩
    · obtain ⟨l₁, l₂, rfl, hl₂⟩ := h.current m hold
      refine ⟨l₁, l₂ ++ evs, by rw [List.append_assoc, List.cons_append], ?_⟩
      intro o ho
      rw [List.flatMap_append] at ho
      rcases List.mem_append.mp ho with ho | ho
      · exact hl₂ o ho
      · exact hevs o ho
    · exact ⟨log, rest, rfl, hrest⟩
  acked := each_append h.acked hacked
  count := by
    rw [List.flatMap_append, List.length_append, List.countP_append]
    exact Nat.add_le_add h.count hcount

/-- Steps in which no message is started, pushed or acknowledged. -/
theorem silent (h : AckInv w e log) (hrequests : RequestInv w e' (log ++ evs))
    (hevs : ∀ ev ∈ evs, ev.Silent w)
    (hasked : ∀ m, e'.pending = some m → e.pending = some m)
    (hcurrent : ∀ m, e'.current = some m → e.current = some m) : AckInv w e' (log ++ evs) := by
  obtain ⟨-, hpushes, hacked⟩ := silent_flatMap hevs
  refine h.append hrequests (fun m hm => .inl (hasked m hm)) ?_ ?_ ?_
  · intro m hm
    refine .inl ⟨hcurrent m hm, ?_⟩
    rw [hpushes]
    exact fun o ho => absurd ho List.not_mem_nil
  · exact each_of_forall fun ev hev pre => (hevs ev hev).ackOk _
  · rw [hacked]
    exact Nat.zero_le _

/-- The message in transfer is acknowledged. -/
theorem acknowledged (h : AckInv w e log) {m : Msg} {ev : Event}
    (hrequests : RequestInv w e' (log ++ [.control dartAck, ev])) (hm : e.current = some m)
    (hev : ev.acked w = [m]) (hnone : e'.current = none)
    (hasked : ∀ m, e'.pending = some m → e.pending = some m ∨ m.IsRequest w) :
    AckInv w e' (log ++ [.control dartAck, ev]) := by
  refine h.append hrequests hasked ?_ ?_ ?_
  · intro o ho
    rw [hnone] at ho
    cases ho
  · refine each_cons ((silent_control _).ackOk _) (each_cons ?_ (each_nil _))
    intro o ho
    rw [hev, List.mem_singleton] at ho
    subst ho
    obtain ⟨l₁, l₂, hlog, hl₂⟩ := h.current o hm
    exact ⟨l₁, l₂, by rw [hlog], by rw [← hlog, h.requests.transfer, hm], hl₂⟩
  · rw [List.flatMap_cons, List.flatMap_cons, hev]
    simp [Event.acked, Event.takesAck, List.countP_cons]

theorem input (h : AckInv w e log) (hstep : EngineIn w e evs e') : AckInv w e' (log ++ evs) := by
  have hrequests := h.requests.input hstep
  cases hstep with
  | ignored _ => exact h.silent hrequests (by simp [silent_control]) (fun _ hm => hm) fun _ hm => hm
  | done hi hcons hreq =>
      exact h.acknowledged hrequests (Engine.current_eq hi hcons) (if_neg hreq) rfl
        fun _ hm => .inl hm
  | promote hi hcons hreq =>
      refine h.acknowledged hrequests (Engine.current_eq hi hcons) rfl rfl ?_
      intro m hm
      cases hm
      exact .inr hreq
  | received =>
      exact h.silent hrequests (by simp [silent_uart, silent_received]) (fun _ hm => hm)
        fun _ hm => hm
  | answered hm _ =>
      exact h.silent hrequests
        (by simp [silent_uart, silent_received, silent_answered (h.asked _ hm)])
        (fun _ hm' => by cases hm') fun _ hm' => hm'
  | damaged =>
      refine h.silent hrequests ?_ (fun _ hm => hm) fun _ hm => hm
      intro ev hev
      simp only [List.mem_cons, List.not_mem_nil, or_false] at hev
      rcases hev with rfl | rfl
      · exact silent_uart _
      · exact ⟨rfl, rfl, rfl⟩

theorem output {out : Msg → List Event} {late : Prop} {ok : Msg → Prop} (h : AckInv w e log)
    (hout : ∀ m, ∀ ev ∈ out m, ∃ bytes, ev = .uart bytes)
    (hstep : EngineOut w out late ok e evs e') : AckInv w e' (log ++ evs) := by
  have hrequests := h.requests.output hout hstep
  cases hstep with
  | quiet hev =>
      exact h.silent hrequests (by simpa using hev.silent) (fun _ hm => hm) fun _ hm => hm
  | accept hok hfresh =>
      rename_i i m
      refine h.silent hrequests ?_ (fun _ hm => hm) fun o ho => ?_
      · intro ev hev
        rw [List.mem_singleton.mp hev]
        exact ⟨rfl, rfl, rfl⟩
      · rw [← h.requests.wf.current_push i m]
        exact ho
  | start hidle hcons hreq =>
      rename_i i m ms
      obtain ⟨-, hpushes, hacked⟩ := silent_flatMap (w := w) (sent_silent hout m)
      refine h.append hrequests (fun _ hm => .inl hm) ?_ ?_ ?_
      · intro o ho
        rw [Engine.current_eq (e := { e with transfering := some i }) rfl hcons] at ho
        cases ho
        refine .inr ⟨out m, rfl, ?_⟩
        rw [hpushes]
        exact fun o ho => absurd ho List.not_mem_nil
      · refine each_cons (fun o ho => absurd ho List.not_mem_nil) ?_
        exact each_of_forall fun ev hev pre => (sent_silent hout m ev hev).ackOk _
      · rw [List.flatMap_cons, hacked]
        exact Nat.zero_le _
  | retry hlate hi hcons =>
      rename_i i m ms
      obtain ⟨-, hpushes, hacked⟩ := silent_flatMap (w := w) (sent_silent hout m)
      refine h.append hrequests (fun _ hm => .inl hm) ?_ ?_ ?_
      · intro o ho
        refine .inl ⟨ho, ?_⟩
        rw [Engine.current_eq hi hcons] at ho
        cases ho
        rw [List.flatMap_cons, hpushes]
        exact fun o ho => List.mem_singleton.mp ho
      · refine each_cons (fun o ho => absurd ho List.not_mem_nil) ?_
        exact each_of_forall fun ev hev pre => (sent_silent hout m ev hev).ackOk _
      · rw [List.flatMap_cons, hacked]
        exact Nat.zero_le _
  | abort _ =>
      exact h.silent hrequests (by simpa using ⟨rfl, rfl, rfl⟩) (fun _ hm => hm)
        fun _ hm => by cases hm
  | failure _ _ _ =>
      exact h.silent hrequests (by simpa using ⟨rfl, rfl, rfl⟩) (fun _ hm => hm)
        fun _ hm => by cases hm
  | abandoned _ =>
      exact h.silent hrequests (by simpa using ⟨rfl, rfl, rfl⟩) (fun _ hm => by cases hm)
        fun _ hm => hm

end AckInv

/-- In every run of the engine an acknowledge is for the message started last. -/
theorem engine_acks {w : Width} {late : Prop} {e : Engine} {log : List Event}
    (h : Runs (EngineStep w late) Engine.init log e) : AckInv w e log := by
  refine h.invariant (P := AckInv w) ?_ .init
  intro l₀ e l e' hinv hstep
  cases hstep with
  | input hin => exact hinv.input hin
  | output hout hstep => exact hinv.output hout hstep

/-! ## Punctual runs -/

/-- The replay of what waits to be started: a message has to be accepted for each
of its starts. -/
def waitingStep (waiting : List Msg) : Event → Option (List Msg)
  | .accept _ m => some (m :: waiting)
  | .start m => if m ∈ waiting then some (waiting.erase m) else none
  | _ => some waiting

/-- The messages accepted and not yet started. -/
def waitingMessages (log : List Event) : Option (List Msg) := log.foldlM waitingStep []

/-- Events that make no message wait or start. -/
def Event.Still (ev : Event) : Prop := ∀ waiting, waitingStep waiting ev = some waiting

theorem still_uart (bytes : List UInt8) : (Event.uart bytes).Still := fun _ => rfl

theorem Event.Quiet.still {ev : Event} (h : ev.Quiet) : ev.Still := by
  intro waiting
  cases h with
  | pin state => rfl
  | notify code n => cases code <;> rfl

/-- What every log of a run says in which no ACK timer has expired. -/
structure OrderInv (w : Width) (e : Engine) (log : List Event) : Prop where
  acks : AckInv w e log
  order : log.flatMap Event.starts = log.flatMap (Event.acked w) ++ e.current.toList
  pushes : log.flatMap Event.pushes = log.flatMap Event.starts
  waiting : ∃ waiting, waitingMessages log = some waiting ∧
    (waiting ++ (e.current.toList ++ e.pending.toList)).Perm e.messages

namespace OrderInv

variable {w : Width} {e e' : Engine} {log evs : List Event}

/-- What has to be checked of a step. -/
theorem append (h : OrderInv w e log) (hacks : AckInv w e' (log ++ evs))
    (horder : e.current.toList ++ evs.flatMap Event.starts =
      evs.flatMap (Event.acked w) ++ e'.current.toList)
    (hpushes : evs.flatMap Event.pushes = evs.flatMap Event.starts)
    (hwaiting : ∀ waiting, (waiting ++ (e.current.toList ++ e.pending.toList)).Perm e.messages →
      ∃ waiting', evs.foldlM waitingStep waiting = some waiting' ∧
        (waiting' ++ (e'.current.toList ++ e'.pending.toList)).Perm e'.messages) :
    OrderInv w e' (log ++ evs) where
  acks := hacks
  order := by
    rw [List.flatMap_append, h.order, List.append_assoc, horder, ← List.append_assoc,
      ← List.flatMap_append]
  pushes := by rw [List.flatMap_append, List.flatMap_append, h.pushes, hpushes]
  waiting := by
    obtain ⟨waiting, hlog, hperm⟩ := h.waiting
    obtain ⟨waiting', hevs, hperm'⟩ := hwaiting waiting hperm
    exact ⟨waiting', (foldlM_resume hlog evs).trans hevs, hperm'⟩

/-- Steps with silent and still events, which at most end a pending request. -/
theorem silent (h : OrderInv w e log) (hacks : AckInv w e' (log ++ evs))
    (hsilent : ∀ ev ∈ evs, ev.Silent w) (hstill : ∀ ev ∈ evs, ev.Still)
    (hcurrent : e'.current = e.current)
    (hperm : ∀ waiting, (waiting ++ (e.current.toList ++ e.pending.toList)).Perm e.messages →
      (waiting ++ (e'.current.toList ++ e'.pending.toList)).Perm e'.messages) :
    OrderInv w e' (log ++ evs) := by
  obtain ⟨hstarts, hpushes, hacked⟩ := silent_flatMap hsilent
  refine h.append hacks ?_ (hpushes.trans hstarts.symm) ?_
  · rw [hstarts, hacked, hcurrent, List.append_nil, List.nil_append]
  · intro waiting hwaiting
    exact ⟨waiting, foldlM_idle hstill waiting, hperm waiting hwaiting⟩

/-- A pending request goes. -/
theorem unpend_perm {waiting : List Msg} {m : Msg} (hm : e.pending = some m)
    (h : (waiting ++ (e.current.toList ++ e.pending.toList)).Perm e.messages) :
    (waiting ++ (e.current.toList ++ [])).Perm { e with pending := none }.messages := by
  rw [hm, ← List.append_assoc] at h
  have hgone := (h.trans (Engine.unpend_perm hm).symm)
  rw [List.append_nil]
  exact (List.perm_cons m).mp ((List.perm_append_singleton m _).symm.trans hgone)

theorem input (h : OrderInv w e log) (hstep : EngineIn w e evs e') :
    OrderInv w e' (log ++ evs) := by
  have hacks := h.acks.input hstep
  cases hstep with
  | ignored _ =>
      exact h.silent hacks (by simp [silent_control]) (by simp [Event.Still, waitingStep]) rfl
        fun _ hw => hw
  | done hi hcons hreq =>
      rename_i i m ms
      have hcurrent := Engine.current_eq hi hcons
      refine h.append hacks ?_ rfl ?_
      · rw [hcurrent]
        simp [Event.starts, Event.acked, hreq, Engine.close, Engine.current]
      · intro waiting hw
        refine ⟨waiting, rfl, ?_⟩
        rw [hcurrent] at hw
        have hgone := hw.trans (Engine.close_perm hcons).symm
        exact (List.perm_cons m).mp (List.perm_middle.symm.trans hgone)
  | promote hi hcons hreq =>
      rename_i i m ms
      have hcurrent := Engine.current_eq hi hcons
      have hnone := h.acks.requests.wf.pending_none hi hcons hreq
      refine h.append hacks ?_ rfl ?_
      · rw [hcurrent]
        rfl
      · intro waiting hw
        refine ⟨waiting, rfl, ?_⟩
        rw [hcurrent, hnone] at hw
        exact hw.trans (Engine.promote_perm hcons hnone).symm
  | received =>
      exact h.silent hacks (by simp [silent_uart, silent_received])
        (by simp [Event.Still, waitingStep]) rfl fun _ hw => hw
  | answered hm _ =>
      refine h.silent hacks
          (by simp [silent_uart, silent_received, silent_answered (h.acks.asked _ hm)])
        (by simp [Event.Still, waitingStep]) rfl ?_
      intro waiting hw
      have hgone := unpend_perm (e := e) hm hw
      exact hgone
  | damaged =>
      refine h.silent hacks ?_ (by simp [Event.Still, waitingStep]) rfl fun _ hw => hw
      intro ev hev
      simp only [List.mem_cons, List.not_mem_nil, or_false] at hev
      rcases hev with rfl | rfl
      · exact silent_uart _
      · exact ⟨rfl, rfl, rfl⟩

theorem output {out : Msg → List Event} {ok : Msg → Prop} (h : OrderInv w e log)
    (hout : ∀ m, ∀ ev ∈ out m, ∃ bytes, ev = .uart bytes)
    (hstep : EngineOut w out False ok e evs e') : OrderInv w e' (log ++ evs) := by
  have hacks := h.acks.output hout hstep
  cases hstep with
  | quiet hev =>
      exact h.silent hacks (by simpa using hev.silent) (by simpa using hev.still) rfl fun _ hw => hw
  | accept hok hfresh =>
      rename_i i m
      refine h.append hacks ?_ rfl ?_
      · rw [h.acks.requests.wf.current_push i m]
        exact List.append_nil _
      · intro waiting hw
        refine ⟨m :: waiting, rfl, ?_⟩
        rw [h.acks.requests.wf.current_push i m]
        exact (hw.cons m).trans Engine.push_perm.symm
  | start hidle hcons hreq =>
      rename_i i m ms
      have hnone : e.current = none := by
        rw [Engine.current, hidle]
        rfl
      have hcurrent : { e with transfering := some i }.current = some m :=
        Engine.current_eq rfl hcons
      obtain ⟨hstarts, hpushes, hacked⟩ := silent_flatMap (w := w) (sent_silent hout m)
      refine h.append hacks ?_ ?_ ?_
      · rw [hnone, hcurrent, List.flatMap_cons, List.flatMap_cons, hstarts, hacked]
        rfl
      · rw [List.flatMap_cons, List.flatMap_cons, hpushes, hstarts]
        rfl
      · intro waiting hw
        rw [hnone] at hw
        have hm : m ∈ waiting := by
          have hmem := hw.mem_iff.mpr (Engine.head_mem hcons)
          rcases List.mem_append.mp hmem with hmem | hmem
          · exact hmem
          · -- the message in a list is not the pending one
            have hpending : e.pending = some m := by simpa using hmem
            exact absurd rfl (h.acks.requests.wf.current_ne_pending hcons hpending)
        refine ⟨waiting.erase m, ?_, ?_⟩
        · have hstill : ∀ ev ∈ out m, ev.Still := by
            intro ev hev
            obtain ⟨bytes, rfl⟩ := hout m ev hev
            exact still_uart bytes
          rw [List.foldlM_cons]
          show (if m ∈ waiting then some (waiting.erase m) else none).bind _ = _
          rw [if_pos hm]
          exact foldlM_idle hstill _
        · rw [hcurrent]
          show (waiting.erase m ++ m :: e.pending.toList).Perm _
          refine List.perm_middle.trans ?_
          exact ((List.perm_cons_erase hm).append_right _).symm.trans hw
  | retry hlate _ _ => exact hlate.elim
  | abort hlate => exact hlate.elim
  | failure hlate _ _ => exact hlate.elim
  | abandoned hm =>
      refine h.silent hacks (by simpa using ⟨rfl, rfl, rfl⟩)
          (by simp [Event.Still, waitingStep]) rfl ?_
      intro waiting hw
      have hgone := unpend_perm (e := e) hm hw
      exact hgone

end OrderInv

/-- In every punctual run of the engine the messages are started in the order in
which they are acknowledged, each as often as it was accepted. -/
theorem engine_order {w : Width} {e : Engine} {log : List Event}
    (h : Runs (EngineStep w False) Engine.init log e) : OrderInv w e log := by
  have hinit : OrderInv w Engine.init [] := ⟨.init, rfl, rfl, [], rfl, List.Perm.refl _⟩
  refine h.invariant (P := OrderInv w) ?_ hinit
  intro l₀ e l e' hinv hstep
  cases hstep with
  | input hin => exact hinv.input hin
  | output hout hstep => exact hinv.output hout hstep

end EmbeddedMx
