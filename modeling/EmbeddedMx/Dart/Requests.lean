import EmbeddedMx.Dart.Decoder
import EmbeddedMx.Dart.Endpoint

/-!
# One outstanding request

`transferIn` and `pendingIn` read from a log which message is in transfer and
which request is pending; in every state they agree with the endpoint. A request
in transfer and a pending one never meet, and a request is reported done only
after an acknowledge byte during its transfer and, while it was pending, a
received response with its id.

All this rests on the message nodes staying intact, so it holds in the runs in
which no allocation loses bits of a length. With two byte lengths and a large
pool there are others, see `dart_one_request_fails`.
-/

namespace EmbeddedMx

open EmbeddedMx.Lib

/-! ## Reading the log -/

def transferStep (current : Option Msg) : Event → Option Msg
  | .start m => some m
  | .abort => none
  | .promote _ => none
  | .callback .transferFailure (.stored _) _ => none
  | .callback .transferDone (.stored m) _ => if current = some m then none else current
  | _ => current

/-- The message in transfer after the log. -/
def transferIn (log : List Event) : Option Msg := log.foldl transferStep none

def pendingStep (pending : Option Msg) : Event → Option Msg
  | .promote m => some m
  | .callback .messageAbandoned (.stored _) _ => none
  | .callback .transferDone (.stored m) _ => if pending = some m then none else pending
  | _ => pending

/-- The pending request after the log. -/
def pendingIn (log : List Event) : Option Msg := log.foldl pendingStep none

/-- If the event reports a request as done, then before it an acknowledge byte
was taken while the request was in transfer, and just now, with the request
pending, a response with its id was received. -/
def DoneOk (w : Width) (pre : List Event) (ev : Event) : Prop :=
  ∀ m len, ev = .callback .transferDone (.stored m) len → m.IsRequest w →
    ∃ l₁ l₂ type data,
      pre = l₁ ++ [.control dartAck, .promote m] ++ l₂ ++
        [.uart [dartAck], .callback .messageReceived (.rx type data) data.length] ∧
      transferIn l₁ = some m ∧
      pendingIn (l₁ ++ [.control dartAck, .promote m] ++ l₂) = some m ∧
      m.AnsweredBy w type

/-- Events that say nothing about the message in transfer or the pending one. -/
structure Event.Inert (ev : Event) : Prop where
  transfer : ∀ current, transferStep current ev = current
  pending : ∀ pending, pendingStep pending ev = pending
  done : ∀ m len, ev ≠ .callback .transferDone (.stored m) len

theorem inert_uart (bytes : List UInt8) : (Event.uart bytes).Inert :=
  ⟨fun _ => rfl, fun _ => rfl, fun _ _ h => by cases h⟩

theorem inert_control (ch : UInt8) : (Event.control ch).Inert :=
  ⟨fun _ => rfl, fun _ => rfl, fun _ _ h => by cases h⟩

theorem inert_received (type : Nat) (data : List UInt8) (n : Nat) :
    (Event.callback .messageReceived (.rx type data) n).Inert :=
  ⟨fun _ => rfl, fun _ => rfl, fun _ _ h => by cases h⟩

theorem Event.Quiet.inert {ev : Event} (h : ev.Quiet) : ev.Inert := by
  cases h with
  | pin state => exact ⟨fun _ => rfl, fun _ => rfl, fun _ _ h => by cases h⟩
  | notify code n =>
      cases code <;> exact ⟨fun _ => rfl, fun _ => rfl, fun _ _ h => by cases h⟩

theorem foldl_inert {evs : List Event} (h : ∀ ev ∈ evs, ev.Inert) (current pending : Option Msg) :
    evs.foldl transferStep current = current ∧ evs.foldl pendingStep pending = pending := by
  induction evs with
  | nil => exact ⟨rfl, rfl⟩
  | cons ev evs ih =>
      have hev := h ev List.mem_cons_self
      rw [List.foldl_cons, List.foldl_cons, hev.transfer, hev.pending]
      exact ih fun ev hev => h ev (List.mem_cons_of_mem _ hev)

theorem Event.Inert.doneOk {w : Width} {ev : Event} (h : ev.Inert) (pre : List Event) :
    DoneOk w pre ev :=
  fun m len heq => absurd heq (h.done m len)

/-- A report about another kind of message. -/
theorem doneOk_of_not_request {w : Width} {m : Msg} (hm : ¬ m.IsRequest w) (pre : List Event)
    (len : Nat) : DoneOk w pre (.callback .transferDone (.stored m) len) := by
  intro m' len' heq hreq
  cases heq
  exact absurd hreq hm

/-! ## The engine -/

/-- The message in transfer is not the pending one. -/
theorem EngineWf.current_ne_pending {w : Width} {e : Engine} (h : EngineWf w e)
    {i : Fin msgPrioLength} {m m' : Msg} {ms : List Msg} (hcons : e.lists i = m :: ms)
    (hm' : e.pending = some m') : m ≠ m' := by
  rintro rfl
  have hnodup := h.nodup
  rw [Engine.messages, stored, hm', List.map_append, List.nodup_append] at hnodup
  refine hnodup.2.2 m.ptr (List.mem_map_of_mem ?_) m.ptr List.mem_cons_self rfl
  exact List.mem_flatMap.mpr ⟨i, mem_prios i, hcons ▸ List.mem_cons_self⟩

/-- What a log says about requests. -/
structure RequestInv (w : Width) (e : Engine) (log : List Event) : Prop where
  wf : EngineWf w e
  transfer : transferIn log = e.current
  pending : pendingIn log = e.pending
  promoted : ∀ m, e.pending = some m → ∃ l₁ l₂,
    log = l₁ ++ [.control dartAck, .promote m] ++ l₂ ∧ transferIn l₁ = some m
  done : Each (DoneOk w) log

namespace RequestInv

variable {w : Width} {e e' : Engine} {log evs : List Event}

theorem init : RequestInv w Engine.init [] :=
  ⟨.init, rfl, rfl, by rintro m ⟨⟩, each_nil _⟩

/-- What has to be checked of a step. -/
theorem append (h : RequestInv w e log) (hwf : EngineWf w e')
    (htransfer : evs.foldl transferStep e.current = e'.current)
    (hpending : evs.foldl pendingStep e.pending = e'.pending)
    (hpromoted : ∀ m, e'.pending = some m →
      e.pending = some m ∨ (evs = [.control dartAck, .promote m] ∧ e.current = some m))
    (hdone : Each (fun pre x => DoneOk w (log ++ pre) x) evs) :
    RequestInv w e' (log ++ evs) where
  wf := hwf
  transfer := by rw [transferIn, List.foldl_append, ← transferIn, h.transfer, htransfer]
  pending := by rw [pendingIn, List.foldl_append, ← pendingIn, h.pending, hpending]
  promoted := by
    intro m hm
    rcases hpromoted m hm with hold | ⟨rfl, hcurrent⟩
    · obtain ⟨l₁, l₂, rfl, hl₁⟩ := h.promoted m hold
      exact ⟨l₁, l₂ ++ evs, by simp only [List.append_assoc], hl₁⟩
    · exact ⟨log, [], by simp, h.transfer.trans hcurrent⟩
  done := each_append h.done hdone

/-- Steps that concern neither the message in transfer nor the pending one. -/
theorem inert (h : RequestInv w e log) (hwf : EngineWf w e') (hevs : ∀ ev ∈ evs, ev.Inert)
    (hcurrent : e'.current = e.current) (hpending : e'.pending = e.pending) :
    RequestInv w e' (log ++ evs) := by
  obtain ⟨ht, hp⟩ := foldl_inert hevs e.current e.pending
  refine h.append hwf (ht.trans hcurrent.symm) (hp.trans hpending.symm) ?_ ?_
  · intro m hm
    exact .inl (hpending ▸ hm)
  · exact each_of_forall fun ev hev pre => (hevs ev hev).doneOk _

theorem input (h : RequestInv w e log) (hstep : EngineIn w e evs e') :
    RequestInv w e' (log ++ evs) := by
  have hwf := h.wf.input hstep
  cases hstep with
  | ignored _ => exact h.inert hwf (by simp [inert_control]) rfl rfl
  | done hi hcons hreq =>
      rename_i i m ms
      have hcurrent := Engine.current_eq hi hcons
      refine h.append hwf ?_ ?_ (fun _ hm => .inl hm) ?_
      · rw [hcurrent]
        simp [transferStep, Engine.close, Engine.current]
      · -- the pending request is another message
        have hne : e.pending ≠ some m :=
          fun hm => h.wf.current_ne_pending hcons hm rfl
        simp [pendingStep, hne, Engine.close]
      · exact each_cons ((inert_control _).doneOk _)
          (each_cons (doneOk_of_not_request hreq _ _) (each_nil _))
  | promote hi hcons hreq =>
      rename_i i m ms
      have hcurrent := Engine.current_eq hi hcons
      refine h.append hwf ?_ rfl ?_ ?_
      · simp [transferStep, Engine.close, Engine.current]
      · intro m' hm'
        cases hm'
        exact .inr ⟨rfl, hcurrent⟩
      · refine each_cons ((inert_control _).doneOk _) (each_cons ?_ (each_nil _))
        intro m' len heq
        cases heq
  | received => exact h.inert hwf (by simp [inert_uart, inert_received]) rfl rfl
  | answered hm hans =>
      rename_i m type data
      refine h.append hwf ?_ ?_ (fun m' hm' => by cases hm') ?_
      · -- the message in transfer is another one
        have hne : e.current ≠ some m := by
          intro hcurrent
          obtain ⟨i, hi, hhead⟩ := Option.bind_eq_some_iff.mp hcurrent
          obtain ⟨ms, hcons⟩ := List.head?_eq_some_iff.mp hhead
          exact h.wf.current_ne_pending hcons hm rfl
        have hsame : { e with pending := none }.current = e.current := rfl
        simp [transferStep, hne, hsame]
      · simp [pendingStep, hm]
      · refine each_cons ((inert_uart _).doneOk _)
          (each_cons ((inert_received _ _ _).doneOk _) (each_cons ?_ (each_nil _)))
        intro m' len heq _
        cases heq
        obtain ⟨l₁, l₂, hlog, hl₁⟩ := h.promoted m hm
        refine ⟨l₁, l₂, type, data, by rw [hlog], hl₁, ?_, hans⟩
        rw [← hlog, h.pending, hm]
  | damaged => exact h.inert hwf (by
      intro ev hev
      simp only [List.mem_cons, List.not_mem_nil, or_false] at hev
      rcases hev with rfl | rfl
      · exact inert_uart _
      · exact (Event.Quiet.notify .transferCorrupted 0).inert) rfl rfl

theorem output {out : Msg → List Event} {late : Prop} {ok : Msg → Prop} (h : RequestInv w e log)
    (hout : ∀ m, ∀ ev ∈ out m, ∃ bytes, ev = .uart bytes)
    (hstep : EngineOut w out late ok e evs e') : RequestInv w e' (log ++ evs) := by
  have hwf := h.wf.output hstep
  have hsent : ∀ m, ∀ ev ∈ out m, ev.Inert := by
    intro m ev hev
    obtain ⟨bytes, rfl⟩ := hout m ev hev
    exact inert_uart bytes
  cases hstep with
  | quiet hev => exact h.inert hwf (by simpa using hev.inert) rfl rfl
  | accept hok hfresh =>
      rename_i i m
      refine h.inert hwf ?_ ?_ rfl
      · intro ev hev
        rw [List.mem_singleton.mp hev]
        exact ⟨fun _ => rfl, fun _ => rfl, fun _ _ h => by cases h⟩
      · exact h.wf.current_push i m
  | start hidle hcons hreq =>
      rename_i i m ms
      obtain ⟨ht, hp⟩ := foldl_inert (hsent m) (some m) e.pending
      refine h.append hwf ?_ hp (fun _ hm => .inl hm) ?_
      · exact ht.trans (Engine.current_eq (e := { e with transfering := some i }) rfl hcons).symm
      · refine each_cons ?_ (each_of_forall fun ev hev pre => (hsent m ev hev).doneOk _)
        intro m' len heq
        cases heq
  | retry hlate hi hcons =>
      rename_i i m ms
      refine h.inert hwf ?_ rfl rfl
      intro ev hev
      rcases List.mem_cons.mp hev with rfl | hev
      · exact ⟨fun _ => rfl, fun _ => rfl, fun _ _ h => by cases h⟩
      · exact hsent m ev hev
  | abort _ =>
      refine h.append hwf rfl rfl (fun _ hm => .inl hm) (each_cons ?_ (each_nil _))
      intro m' len heq
      cases heq
  | failure _ _ hcons =>
      refine h.append hwf rfl rfl (fun _ hm => .inl hm) (each_cons ?_ (each_nil _))
      intro m' len heq
      cases heq
  | abandoned hm =>
      refine h.append hwf rfl rfl (fun _ hm => by cases hm) (each_cons ?_ (each_nil _))
      intro m' len heq
      cases heq

end RequestInv

/-- Every run of the engine respects the discipline of requests. -/
theorem engine_requests {w : Width} {late : Prop} {e : Engine} {log : List Event}
    (h : Runs (EngineStep w late) Engine.init log e) : RequestInv w e log := by
  refine h.invariant (P := RequestInv w) ?_ .init
  intro l₀ e l e' hinv hstep
  cases hstep with
  | input hin => exact hinv.input hin
  | output hout hstep => exact hinv.output hout hstep

/-! ## The endpoint -/

section Pending

variable (B : Build) (env : Env) (d : Dart)

theorem dartTransferMsg_pending (p : Nat) :
    (dartTransferMsg B env d p).pendingRequest = d.pendingRequest := by
  have hdeferred : (dartDeferredMsgCallback B env d p).1.pendingRequest = d.pendingRequest := by
    unfold dartDeferredMsgCallback
    split
    · rfl
    · exact (foldl_pushFrame B d _).1.pendingRequest
  unfold dartTransferMsg
  dsimp only
  split
  · split <;> exact hdeferred
  · rfl

theorem dartTriggerTransfer_pending :
    (dartTriggerTransfer B env d).1.pendingRequest = d.pendingRequest := by
  have hwake : (dartWakeup env d).1.pendingRequest = d.pendingRequest := by
    unfold dartWakeup
    dsimp only
    split
    · rfl
    · split
      · split <;> rfl
      · rfl
  have hselect : (dartSelect B env (dartWakeup env d).1).1.pendingRequest = d.pendingRequest := by
    unfold dartSelect
    split
    · exact hwake
    · exact (dartTransferMsg_pending B env _ _).trans hwake
  unfold dartTriggerTransfer
  dsimp only
  split
  · rfl
  · split
    · split
      · exact hselect
      · exact hwake
    · exact hwake

theorem dartTriggerNextTransfer_pending :
    (dartTriggerNextTransfer B env d).pendingRequest = d.pendingRequest := by
  have htrigger := dartTriggerTransfer_pending B env d
  unfold dartTriggerNextTransfer
  dsimp only
  split <;> exact htrigger

theorem dartFinalizeTransfer_pending :
    (dartFinalizeTransfer d).pendingRequest = d.pendingRequest := by
  unfold dartFinalizeTransfer
  split
  · rfl
  · dsimp only
    split <;> rfl

/-- An acknowledge only sets the pending request when a request is in transfer. -/
theorem dartAcknowledgeMsg_pending
    (h : ∀ i, d.transfering = some i →
      ¬ (d.msgAt B (msgListPeek (d.queue i))).IsRequest B.msgtypeSize) :
    (dartAcknowledgeMsg B env d).pendingRequest = d.pendingRequest := by
  unfold dartAcknowledgeMsg
  split
  · rfl
  · rename_i i hi
    dsimp only
    split
    · rfl
    · have htype : ¬ nodeType B.msgtypeSize d.heap.mem (msgListPeek (d.queue i)) &&&
          msgTypeMask B.msgtypeSize = msgRequest B.msgtypeSize := h i hi
      rw [if_neg htype, dartTriggerNextTransfer_pending, dartFinalizeTransfer_pending]
      rfl

end Pending

/-- What holds of requests in a state of an endpoint. -/
structure RequestDiscipline (B : Build) (d : Dart) : Prop where
  /-- While a request is pending, the message in transfer is not a request. -/
  exclusive : ∀ i, d.transfering = some i → d.pendingRequest ≠ 0 →
    ¬ (d.msgAt B (msgListPeek (d.queue i))).IsRequest B.msgtypeSize
  /-- An acknowledge does not overwrite a pending request. -/
  kept : ∀ env, d.pendingRequest ≠ 0 →
    (dartAcknowledgeMsg B env d).pendingRequest = d.pendingRequest
  /-- The log tells which message is in transfer and which request is pending. -/
  transfer : transferIn d.log = d.transfering.map fun i => d.msgAt B (msgListPeek (d.queue i))
  pending : pendingIn d.log =
    if d.pendingRequest = 0 then none else some (d.msgAt B d.pendingRequest)
  /-- A request is only reported done after its acknowledge and its response. -/
  done : Each (DoneOk B.msgtypeSize) d.log
  /-- Whenever a call reports a message as received, a byte has just completed a frame of it
  with a valid checksum. -/
  checked : ∀ env call, ∃ evs, (dartCall B env d call).log = d.log ++ evs ∧ ∀ type data len,
    .callback .messageReceived (.rx type data) len ∈ evs →
      ∃ ch, call = .receive ch ∧ FrameIn B (dartRxStore env (dartRxTimeout env d) ch) type data

/-- Messages are only reported as received while a byte is handled. -/
theorem dartCall_checked (B : Build) (env : Env) (d : Dart) (call : DartCall) :
    ∃ evs, (dartCall B env d call).log = d.log ++ evs ∧ ∀ type data len,
      .callback .messageReceived (.rx type data) len ∈ evs →
        ∃ ch, call = .receive ch ∧
          FrameIn B (dartRxStore env (dartRxTimeout env d) ch) type data := by
  have hsilent : ∀ d', Emits d d' → ∃ evs, d'.log = d.log ++ evs ∧
      ∀ type data len, .callback .messageReceived (.rx type data) len ∉ evs := by
    intro d' h
    obtain ⟨evs, hlog, hevs⟩ := h.log
    refine ⟨evs, hlog, fun type data len hmem => ?_⟩
    cases hevs _ hmem
  cases call with
  | send prio msg msgLen =>
      obtain ⟨evs, hlog, hevs⟩ := hsilent _ (sends_send B env d prio msg msgLen).toEmits
      exact ⟨evs, hlog, fun type data len hmem => absurd hmem (hevs type data len)⟩
  | time =>
      obtain ⟨evs, hlog, hevs⟩ := hsilent _ (emits_time B env d)
      exact ⟨evs, hlog, fun type data len hmem => absurd hmem (hevs type data len)⟩
  | receive ch =>
      obtain ⟨evs, hlog, hevs⟩ := received_checks B env d ch
      exact ⟨evs, hlog, fun type data len hmem => ⟨ch, rfl, hevs type data len hmem⟩⟩

/-- **One outstanding request.** The discipline of requests holds in every state
of every run in which no allocation loses bits of a length. -/
theorem dart_one_request {B : Build} {n : Nat} {d : Dart}
    (hd : (fittingSystem B n).Reachable d) : RequestDiscipline B d := by
  obtain ⟨e, hrun, hrep⟩ := dart_refines_engine B n d hd
  have hinv := engine_requests hrun
  have hcurrent : ∀ {i}, d.transfering = some i → ∃ m ms, e.transfering = some i ∧
      e.lists i = m :: ms ∧ d.msgAt B (msgListPeek (d.queue i)) = m := by
    intro i hi
    have hi' : e.transfering = some i := hrep.transfering.symm.trans hi
    obtain ⟨m, ms, hcons⟩ := hrep.current hi'
    exact ⟨m, ms, hi', hcons, by rw [hrep.peek hcons, hrep.msgAt (Engine.head_mem hcons)]⟩
  have hexclusive : ∀ i, d.transfering = some i → d.pendingRequest ≠ 0 →
      ¬ (d.msgAt B (msgListPeek (d.queue i))).IsRequest B.msgtypeSize := by
    intro i hi hpending
    obtain ⟨m, ms, hi', hcons, hmsg⟩ := hcurrent hi
    rw [hmsg]
    rw [Ne, hrep.pending_eq_zero] at hpending
    exact hinv.wf.request i m ms hi' hcons (Option.isSome_iff_ne_none.mpr hpending)
  refine ⟨hexclusive, ?_, ?_, ?_, hinv.done, fun env call => dartCall_checked B env d call⟩
  · intro env hpending
    exact dartAcknowledgeMsg_pending B env d fun i hi => hexclusive i hi hpending
  · rw [hinv.transfer]
    cases hi : d.transfering with
    | none =>
        rw [Engine.current, ← hrep.transfering, hi]
        rfl
    | some i =>
        obtain ⟨m, ms, hi', hcons, hmsg⟩ := hcurrent hi
        rw [Engine.current_eq hi' hcons, Option.map_some, hmsg]
  · rw [hinv.pending]
    cases hp : e.pending with
    | none => rw [if_pos (hrep.pending_eq_zero.mpr hp)]
    | some m =>
        have hne : d.pendingRequest ≠ 0 := by
          rw [Ne, hrep.pending_eq_zero, hp]
          exact Option.some_ne_none m
        rw [if_neg hne, hrep.pending_some hp, hrep.msgAt (Engine.pending_mem hp)]

/-- A request of one byte was acknowledged and is pending. -/
theorem dart_one_request_pending :
    let B : Build := ⟨.one, .one, .one⟩
    let d := dartCall B (.plain 7 true) (dartCall B (.plain 7 true) (dartFresh 512 64)
      (.send 2 (fun _ => 0x41) 1)) (.receive dartAck)
    d.pendingRequest ≠ 0 ∧ RequestDiscipline B d := by
  intro B d
  have hsent := dartSystem_call (.plain 7 true) (.send 2 (fun _ => 0x41) 1)
    (dartFresh_reachable B (by decide : 512 < 2 ^ 16) (by decide : 64 < 2 ^ 16))
    (by decide : 1 < 256)
  have hacked : (dartSystem B 512).Reachable d :=
    dartSystem_call (.plain 7 true) (.receive dartAck) hsent trivial
  exact ⟨by decide +kernel, dart_one_request (dartSystem_fits rfl (by decide) hacked)⟩

/-- Two byte lengths and a pool of 8192 bytes. A request is pending and a report
of 4069 bytes is in transfer, whose chunk has lost the high bit of its length. The
node of the next message overlaps the report, and its length lands in the type
field of the report: what is in transfer has become a request. -/
theorem dart_one_request_fails :
    let B : Build := ⟨.one, .two, .one⟩
    ∃ d i, (dartSystem B 8192).Reachable d ∧ d.transfering = some i ∧ d.pendingRequest ≠ 0 ∧
      (d.msgAt B (msgListPeek (d.queue i))).IsRequest B.msgtypeSize := by
  intro B
  let report : Mem := fun a => if a = 0 then 0x01 else 0x40
  let calls : List DartCall :=
    [.send 1 (fun _ => 0x41) 1, .receive dartAck, .send 1 report 4069,
      .send 0 (fun _ => 0x11) 64]
  have hreach : ∀ (calls : List DartCall) (d : Dart), (∀ call ∈ calls, call.Valid B) →
      (dartSystem B 8192).Reachable d →
      (dartSystem B 8192).Reachable (calls.foldl (dartCall B (.plain 7 true)) d) := by
    intro calls
    induction calls with
    | nil => exact fun d _ hd => hd
    | cons call calls ih =>
        intro d hvalid hd
        exact ih _ (fun c hc => hvalid c (List.mem_cons_of_mem _ hc))
          (dartSystem_call (.plain 7 true) call hd (hvalid call List.mem_cons_self))
  have hvalid : ∀ call ∈ calls, call.Valid B := by
    intro call hcall
    simp only [calls, List.mem_cons, List.not_mem_nil, or_false] at hcall
    rcases hcall with rfl | rfl | rfl | rfl
    · exact (by decide : 1 < 256 ^ 2)
    · trivial
    · exact (by decide : 4069 < 256 ^ 2)
    · exact (by decide : 64 < 256 ^ 2)
  refine ⟨calls.foldl (dartCall B (.plain 7 true)) (dartFresh 8192 64), ⟨1, by decide⟩,
    hreach calls _ hvalid (dartFresh_reachable B (by decide) (by decide)), ?_, ?_, ?_⟩
  · decide +kernel
  · decide +kernel
  · decide +kernel

end EmbeddedMx
