import EmbeddedMx.Dart.Fate
import EmbeddedMx.Dart.Reception

/-!
# What the callbacks say about a message

The callbacks that finish a message pass it where it is stored, with its length. There
are four places that make such a callback, and one of them, the completion of a request,
passes the length of the response instead.
-/

namespace EmbeddedMx

open EmbeddedMx.Lib

/-- The callbacks that finish a message. -/
def Clbk.finishes : Clbk → Bool
  | .transferDone => true
  | .transferFailure => true
  | .messageAbandoned => true
  | _ => false

/-- A callback that finishes a message passes the message and the length of the message. -/
def Event.Exact (ev : Event) : Prop :=
  ∀ code param len, ev = .callback code param len → code.finishes →
    ∃ m, param = .stored m ∧ len = m.data.length

/-- Between `d` and `d'` the callbacks are exact, and the messages accepted meet `ok`. -/
def Tells (ok : Msg → Prop) (d d' : Dart) : Prop :=
  ∃ evs, d'.log = d.log ++ evs ∧ ∀ ev ∈ evs, ev.Exact ∧ ∀ i m, ev = .accept i m → ok m

/-- Bytes, pin levels and marks other than those of an accepted message. -/
def Event.plain : Event → Bool
  | .callback _ _ _ => false
  | .accept _ _ => false
  | _ => true

theorem exact_plain {ok : Msg → Prop} {ev : Event} (h : ev.plain = true) :
    ev.Exact ∧ ∀ i m, ev = .accept i m → ok m := by
  constructor
  · rintro code param len rfl
    cases h
  · rintro i m rfl
    cases h

/-- A callback. -/
theorem exact_callback {ok : Msg → Prop} {code : Clbk} {param : Param} {len : Nat}
    (h : code.finishes → ∃ m, param = .stored m ∧ len = m.data.length) :
    (Event.callback code param len).Exact ∧ ∀ i m, Event.callback code param len = .accept i m →
    ok m := by
  constructor
  · intro code' param' len' heq hfinishes
    injection heq with hcode hparam hlen
    subst hcode hparam hlen
    exact h hfinishes
  · intro i m heq
    cases heq

namespace Tells

variable {ok : Msg → Prop} {d d' d'' : Dart}

theorem same (h : d'.log = d.log) : Tells ok d d' := by
  refine ⟨[], by rw [h, List.append_nil], ?_⟩
  intro ev hev
  exact absurd hev List.not_mem_nil

theorem refl (d : Dart) : Tells ok d d := .same rfl

theorem trans (h : Tells ok d d') (h' : Tells ok d' d'') : Tells ok d d'' := by
  obtain ⟨evs, hlog, hevs⟩ := h
  obtain ⟨evs', hlog', hevs'⟩ := h'
  refine ⟨evs ++ evs', by rw [hlog', hlog, List.append_assoc], ?_⟩
  intro ev hev
  rcases List.mem_append.mp hev with hev | hev
  · exact hevs ev hev
  · exact hevs' ev hev

theorem emit (d : Dart) {ev : Event} (hev : ev.Exact ∧ ∀ i m, ev = .accept i m → ok m) :
    Tells ok d (d.emit ev) := by
  refine ⟨[ev], rfl, ?_⟩
  intro ev' hev'
  rw [List.mem_singleton.mp hev']
  exact hev

theorem mark (d : Dart) {ev : Event} (hev : ev.plain = true) : Tells ok d (d.emit ev) :=
  .emit d (exact_plain hev)

/-- A callback that finishes no message. -/
theorem callback (d : Dart) {code : Clbk} (hcode : code.finishes = false) (param : Param)
    (len : Nat) :
    Tells ok d (d.callback code param len) := by
  refine .emit d (exact_callback fun hfinishes => ?_)
  rw [hcode] at hfinishes
  cases hfinishes

/-- A callback that passes a node and its length field. -/
theorem stored (B : Build) (d : Dart) (code : Clbk) (p : Nat) :
    Tells ok d (d.callback code (.stored (d.msgAt B p)) (nodeLength d.heap.mem p)) := by
  refine .emit d (exact_callback fun _ => ⟨d.msgAt B p, rfl, ?_⟩)
  exact (length_nodeMsg_data B.msgtypeSize d.heap.mem p).symm

end Tells

section Functions

variable {ok : Msg → Prop} (B : Build) (env : Env) (d : Dart)

theorem tells_pushFrames (msgs : List (List UInt8)) :
    Tells ok d (msgs.foldl (fun d data => dartPushFrame B d data) d) := by
  induction msgs generalizing d with
  | nil => exact .refl d
  | cons data msgs ih => exact (Tells.mark d rfl).trans (ih _)

theorem tells_transferMsg (p : Nat) : Tells ok d (dartTransferMsg B env d p) := by
  have hdeferred : Tells ok d (dartDeferredMsgCallback B env d p).1 := by
    unfold dartDeferredMsgCallback
    split
    · exact .refl d
    · exact tells_pushFrames B d _
  have hpush : ∀ d₁ : Dart, Tells ok d d₁ →
      Tells ok d (dartPushMsg B d₁ (p + offsetofMsg) (nodeLength d₁.heap.mem p)) :=
    fun d₁ h => h.trans (.mark d₁ rfl)
  unfold dartTransferMsg
  dsimp only
  refine Tells.trans ?_ (.same rfl)
  split
  · split
    · exact hdeferred
    · exact hpush _ hdeferred
  · exact hpush _ (.refl d)

theorem tells_wakeup : Tells ok d (dartWakeup env d).1 := by
  unfold dartWakeup
  dsimp only
  split
  · exact .refl d
  · split
    · have hset : Tells ok d
          ({ d with wakeupAttempts := (d.wakeupAttempts + 1) % 256 }.setWrk true) :=
        Tells.trans (.same rfl) (.mark _ rfl)
      split
      · exact hset
      · exact hset.trans (.same rfl)
    · exact Tells.trans (.same rfl) (.callback _ rfl _ _)

theorem tells_select : Tells ok d (dartSelect B env d).1 := by
  unfold dartSelect
  split
  · exact .refl d
  · refine Tells.trans ?_ (tells_transferMsg B env _ _)
    refine Tells.trans ?_ (.mark _ rfl)
    exact .same rfl

theorem tells_trigger : Tells ok d (dartTriggerTransfer B env d).1 := by
  have hwake : Tells ok d (dartWakeup env d).1 := tells_wakeup env d
  unfold dartTriggerTransfer
  dsimp only
  split
  · exact .refl d
  · split
    · split
      · exact hwake.trans (tells_select B env _)
      · exact hwake.trans (.callback _ rfl _ _)
    · exact hwake

theorem tells_triggerNext : Tells ok d (dartTriggerNextTransfer B env d) := by
  unfold dartTriggerNextTransfer
  dsimp only
  split
  · exact (tells_trigger B env d).trans (.callback _ rfl _ _)
  · exact tells_trigger B env d

theorem tells_finalize : Tells ok d (dartFinalizeTransfer d) := by
  unfold dartFinalizeTransfer
  split
  · exact .refl d
  · dsimp only
    split <;> exact .same rfl

theorem tells_retry : Tells ok d (dartRetryTransfer B env d) := by
  unfold dartRetryTransfer
  split
  · exact .refl d
  · dsimp only
    split
    · exact .refl d
    · have hcount : Tells ok d
          { d with txAckTimer := timerStop, txAttempts := (d.txAttempts + 1) % 256 } := .same rfl
      refine hcount.trans ?_
      split
      · exact (Tells.mark _ rfl).trans (tells_transferMsg B env _ _)
      · refine Tells.trans ?_ ((tells_finalize _).trans (tells_triggerNext B env _))
        exact .stored B _ _ _

theorem tells_acknowledge : Tells ok d (dartAcknowledgeMsg B env d) := by
  unfold dartAcknowledgeMsg
  split
  · exact .refl d
  · dsimp only
    split
    · exact .refl d
    · refine Tells.trans ?_ ((tells_finalize _).trans (tells_triggerNext B env _))
      split
      · exact (Tells.same rfl).trans ((Tells.mark _ rfl).trans (.same rfl))
      · exact (Tells.same rfl).trans (.stored B _ _ _)

theorem tells_finalizeRequest : Tells ok d (dartFinalizeRequestMsg B env d) :=
  (Tells.same rfl).trans (tells_triggerNext B env _)

theorem tells_abandon : Tells ok d (dartAbandonRequestMsg B env d) := by
  unfold dartAbandonRequestMsg
  split
  · exact (Tells.stored B d _ _).trans (tells_finalizeRequest B env _)
  · exact .refl d

theorem tells_control (ch : UInt8) : Tells ok d (dartHandleControl B env d ch) := by
  have hmark : Tells ok d (d.emit (.control ch)) := .mark d rfl
  unfold dartHandleControl
  split
  · exact hmark.trans (tells_acknowledge B env _)
  · split
    · exact hmark.trans (tells_retry B env _)
    · split
      · exact hmark.trans (tells_trigger B env _)
      · exact .refl d

theorem tells_closing : Tells ok d (dartHandleClosing env d).1 := by
  unfold dartHandleClosing
  split
  · split
    · split
      · exact (Tells.mark d rfl).trans (.same rfl)
      · exact .refl d
    · exact .same rfl
  · split
    · split
      · dsimp only
        split
        · exact .same rfl
        · exact (Tells.same rfl).trans (.callback _ rfl _ _)
      · exact .refl d
    · split
      · exact .mark d rfl
      · exact .refl d

theorem tells_time : Tells ok d (dartHandleTime B env d).1 := by
  have habandon : Tells ok d
      (if d.pendingRequest ≠ 0 ∧ timerExpired d.txResponseTimer env.clock then
      dartAbandonRequestMsg B env d else d) := by
    split
    · exact tells_abandon B env d
    · exact .refl d
  unfold dartHandleTime
  refine habandon.trans ?_
  generalize (if d.pendingRequest ≠ 0 ∧ timerExpired d.txResponseTimer env.clock then
    dartAbandonRequestMsg B env d else d) = d₁
  dsimp only
  split
  · split
    · split
      · exact (Tells.same rfl).trans (tells_retry B env _)
      · exact (Tells.same rfl).trans ((Tells.mark _ rfl).trans (.same rfl))
    · exact .refl d₁
  · split
    · split
      · exact (Tells.same rfl).trans (.mark _ rfl)
      · exact tells_trigger B env d₁
    · split
      · exact tells_closing env d₁
      · exact .refl d₁

/-- The completion of a request is exact if the response is as long as the request. -/
theorem tells_checkResponse (type msgLen : Nat)
    (h : d.pendingRequest ≠ 0 → (d.msgAt B d.pendingRequest).AnsweredBy B.msgtypeSize type →
      msgLen = nodeLength d.heap.mem d.pendingRequest) :
    Tells ok d (dartCheckResponse B env d type msgLen) := by
  unfold dartCheckResponse
  dsimp only
  split
  · exact .refl d
  · rename_i hpending
    split
    · exact .refl d
    · rename_i hkind
      split
      · exact .refl d
      · rename_i hid
        rw [h hpending ⟨not_not.mp hkind, not_not.mp hid⟩]
        exact (Tells.stored B d _ _).trans (tells_finalizeRequest B env _)

theorem tells_enqueue (prio : Nat) (heap : Heap) (p : Nat) (msg : Mem) (msgLen : Nat) :
    Tells (fun _ => True) d (dartEnqueue B d prio heap p msg msgLen) := by
  unfold dartEnqueue
  dsimp only
  refine Tells.trans (.same rfl) (.emit _ ⟨?_, fun _ _ _ => trivial⟩)
  intro code param len h
  cases h

theorem tells_send (prio : Nat) (msg : Mem) (msgLen : Nat) :
    Tells (fun _ => True) d (dartSendMsgEx B env d prio msg msgLen).1 := by
  unfold dartSendMsgEx
  split
  · exact .refl d
  · dsimp only
    generalize (if prio = dartMsgPrioAny then
      dartGuessPriority B (msg.load 0 B.msgtypeSize.bytes) else prio) = prio
    split
    · exact .refl d
    · split
      · exact .same rfl
      · exact (tells_enqueue B d _ _ _ _ _).trans (tells_trigger B env _)

end Functions

/-! ## A received byte -/

/-- A frame that the byte completes, and that is taken for the response to the pending
request, is as long as the request. -/
def SameLength (B : Build) (env : Env) (d : Dart) (ch : UInt8) : Prop :=
  ∀ data, CompletesFrame B env d ch data → d.pendingRequest ≠ 0 →
    (d.msgAt B d.pendingRequest).AnsweredBy B.msgtypeSize
      ((dartRxStore env (dartRxTimeout env d) ch).rxBuffer.load B.dataIdx B.msgtypeSize.bytes) →
    data.length = nodeLength d.heap.mem d.pendingRequest

instance (B : Build) (env : Env) (d : Dart) (ch : UInt8) : Decidable (SameLength B env d ch) :=
  decidable_of_iff _ (forall_completes rfl).symm

theorem dartRxTimeout_same (env : Env) (d : Dart) : SameStore d (dartRxTimeout env d) := by
  unfold dartRxTimeout
  split <;> exact ⟨rfl, rfl, rfl, rfl⟩

theorem tells_received {ok : Msg → Prop} {B : Build} {env : Env} {d : Dart} {ch : UInt8}
    {pre : List UInt8} (h : RxPart B d pre) (hsize : d.rxBufferSize < 2 ^ 16)
    (hlength : SameLength B env d ch) : Tells ok d (dartHandleReceivedChar B env d ch) := by
  obtain ⟨pre', hpart, htakes⟩ := received_takes_timeout h hsize env ch
  have hread : (dartRxTimeout env d).rxBuffer.read 0
      (dartRxTimeout env d).rxBufferBytes = pre' := by
    rw [hpart.holds.bytes]
    exact hpart.holds.content
  have htimeout : Tells ok d (dartRxTimeout env d) := by
    unfold dartRxTimeout
    split
    · exact Tells.trans (.callback d rfl .null 0) (.same rfl)
    · exact .refl d
  have hstored : Tells ok d (dartRxStore env (dartRxTimeout env d) ch) := htimeout.trans (.same rfl)
  have hsame := (dartRxTimeout_same env d).trans (dartRxStore_same env (dartRxTimeout env d) ch)
  have hbuffer : (dartRxStore env (dartRxTimeout env d) ch).rxBufferSize = d.rxBufferSize :=
    (dartRxTimeout_bytes env d).1
  unfold SameLength CompletesFrame Dart.msgAt at hlength
  rw [hread, ← hsame.pendingRequest, ← hsame.heap, ← hbuffer] at hlength
  refine hstored.trans ?_
  generalize hresult : dartHandleReceivedChar B env d ch = d' at htakes
  generalize dartRxStore env (dartRxTimeout env d) ch = d₁ at htakes hlength ⊢
  cases htakes with
  | kept _ hcollects =>
      rcases hcollects.log with ⟨hlog, -⟩ | ⟨hlog, -, -⟩
      · exact .same hlog
      · have hpin : Tells ok d₁ (d₁.emit (.pin true)) := .mark d₁ rfl
        exact hpin.trans (.same hlog)
  | single _ _ =>
      refine Tells.trans ?_ (.same rfl)
      split
      · exact tells_control B env d₁ ch
      · exact .refl d₁
  | unsupported _ _ => exact (Tells.callback d₁ rfl _ _).trans (.same rfl)
  | damaged _ => exact (Tells.mark d₁ rfl).trans ((Tells.callback _ rfl _ _).trans (.same rfl))
  | @frame data hframe hfits _ _ =>
      have hreported : Tells ok d₁
          { (dartPushByte d₁ dartAck).callback .messageReceived
              (.rx (d₁.rxBuffer.load B.dataIdx B.msgtypeSize.bytes)
                (d₁.rxBuffer.read B.dataIdx data.length)) data.length with
            rxBuffer := env.received d₁.rxBuffer } :=
        (Tells.mark d₁ rfl).trans ((Tells.callback _ rfl _ _).trans (.same rfl))
      refine (hreported.trans ?_).trans (.same rfl)
      exact tells_checkResponse B env _ _ data.length (hlength data ⟨hframe, hfits⟩)

/-! ## Accepted messages -/

/-- What an endpoint accepts by a step of its own meets `ok`. -/
theorem outStep_accepts {B : Build} {env : Env} {late : Prop} {ok : Msg → Prop} {e e' : Engine}
    {evs : List Event} (h : OutStep B env late ok e evs e') {i : Nat} {m : Msg}
    (hmem : .accept i m ∈ evs) : ok m := by
  have hsent : ∀ m', .accept i m ∉ transferOut B env m' := by
    intro m' hmem
    obtain ⟨bytes, heq⟩ := transferOut_uart B env m' _ hmem
    cases heq
  cases h with
  | quiet hev =>
      rw [List.mem_singleton] at hmem
      subst hmem
      cases hev
  | accept hok _ =>
      rw [List.mem_singleton] at hmem
      injection hmem with _ hm
      exact hm ▸ hok
  | start _ _ _ => exact absurd hmem (by simp [hsent])
  | retry _ _ _ => exact absurd hmem (by simp [hsent])
  | abort _ => exact absurd hmem (by simp)
  | failure _ _ _ => exact absurd hmem (by simp)
  | abandoned _ => exact absurd hmem (by simp)

theorem runs_accepts {B : Build} {env : Env} {late : Prop} {ok : Msg → Prop} {e e' : Engine}
    {evs : List Event} (h : Runs (OutStep B env late ok) e evs e') {i : Nat} {m : Msg}
    (hmem : .accept i m ∈ evs) : ok m := by
  induction h with
  | refl => exact absurd hmem List.not_mem_nil
  | tail _ hstep ih =>
      rcases List.mem_append.mp hmem with hmem | hmem
      · exact ih hmem
      · exact outStep_accepts hstep hmem

theorem ledgerStep_mem {ev : Event} {opened opened' : List Msg}
    (h : ledgerStep opened ev = some opened') {m : Msg} (hm : m ∈ opened') :
    m ∈ opened ∨ ∃ i, ev = .accept i m := by
  unfold ledgerStep at h
  split at h
  · split at h
    · cases h
    · injection h with h
      rw [← h] at hm
      rcases List.mem_cons.mp hm with rfl | hm
      · exact .inr ⟨_, rfl⟩
      · exact .inl hm
  · split at h
    · injection h with h
      exact .inl (h ▸ hm)
    · split at h
      · injection h with h
        rw [← h] at hm
        exact .inl (List.mem_of_mem_erase hm)
      · cases h

/-- An open message has been accepted. -/
theorem ledger_accepted {log : List Event} {opened opened' : List Msg}
    (h : log.foldlM ledgerStep opened = some opened') {m : Msg} (hm : m ∈ opened') :
    m ∈ opened ∨ ∃ i, .accept i m ∈ log := by
  induction log generalizing opened with
  | nil =>
      injection h with h
      exact .inl (h ▸ hm)
  | cons ev log ih =>
      rw [List.foldlM_cons] at h
      obtain ⟨opened₁, hstep, h⟩ := Option.bind_eq_some_iff.mp h
      rcases ih h with hm | ⟨i, hm⟩
      · rcases ledgerStep_mem hstep hm with hm | ⟨i, rfl⟩
        · exact .inl hm
        · exact .inr ⟨i, List.mem_cons_self⟩
      · exact .inr ⟨i, List.mem_cons_of_mem _ hm⟩

/-- A message is open when it is reported. -/
theorem reported_open {l₁ l₂ : List Event} {ev : Event} {m : Msg} {opened : List Msg}
    (h : openMessages (l₁ ++ ev :: l₂) = some opened) (hev : ev.reports = some m) :
    ∃ opened₁, openMessages l₁ = some opened₁ ∧ m ∈ opened₁ := by
  unfold openMessages at h
  rw [List.foldlM_append] at h
  obtain ⟨opened₁, hfirst, h⟩ := Option.bind_eq_some_iff.mp h
  rw [List.foldlM_cons] at h
  obtain ⟨opened₂, hstep, -⟩ := Option.bind_eq_some_iff.mp h
  refine ⟨opened₁, hfirst, ?_⟩
  by_contra hclosed
  cases ev with
  | callback code param len =>
      unfold ledgerStep at hstep
      simp only [hev] at hstep
      rw [if_neg hclosed] at hstep
      cases hstep
  | _ => cases hev

/-! ## Runs -/

/-- A request is completed only by a response of its length. -/
def DartCall.SameLength (B : Build) (env : Env) (d : Dart) : DartCall → Prop
  | .receive ch => EmbeddedMx.SameLength B env d ch
  | _ => True

instance (B : Build) (env : Env) (d : Dart) :
    (call : DartCall) → Decidable (call.SameLength B env d)
  | .receive ch => inferInstanceAs (Decidable (EmbeddedMx.SameLength B env d ch))
  | .send _ _ _ => .isTrue trivial
  | .time => .isTrue trivial

/-- The runs in which no allocation loses bits of a length, and requests are completed only
by responses of their length. -/
def describingSystem (B : Build) (n : Nat) : TSys Dart (Env × DartCall) :=
  (dartSystem B n).restrict fun d i => i.2.Fits B d ∧ i.2.SameLength B i.1 d

/-- The message `m` was queued by a call of `dart_send_msg_ex` that was given its bytes. -/
def QueuedBy (B : Build) (history : List (Dart × (Env × DartCall))) (m : Msg) : Prop :=
  ∃ d env prio msg msgLen evs i, (d, (env, .send prio msg msgLen)) ∈ history ∧
    (dartCall B env d (.send prio msg msgLen)).log = d.log ++ evs ∧ .accept i m ∈ evs ∧
    m.data = msg.read 0 msgLen

theorem QueuedBy.mono {B : Build} {history history' : List (Dart × (Env × DartCall))} {m : Msg}
    (h : QueuedBy B history m) (hsub : history ⊆ history') : QueuedBy B history' m := by
  obtain ⟨d, env, prio, msg, msgLen, evs, i, hmem, hrest⟩ := h
  exact ⟨d, env, prio, msg, msgLen, evs, i, hsub hmem, hrest⟩

/-- What a log says about its callbacks and accepted messages. -/
structure Described (B : Build) (x : Dart × List (Dart × (Env × DartCall))) : Prop where
  exact : ∀ ev ∈ x.1.log, ev.Exact
  queued : ∀ i m, .accept i m ∈ x.1.log → QueuedBy B x.2 m

/-- A call that accepts nothing. -/
theorem Described.tells {B : Build} {x x' : Dart × List (Dart × (Env × DartCall))}
    (h : Described B x) (hsub : x.2 ⊆ x'.2) (htells : Tells (fun _ => False) x.1 x'.1) :
    Described B x' := by
  obtain ⟨evs, hlog, hevs⟩ := htells
  constructor
  · intro ev hev
    rw [hlog] at hev
    rcases List.mem_append.mp hev with hev | hev
    · exact h.exact ev hev
    · exact (hevs ev hev).1
  · intro i m hm
    rw [hlog] at hm
    rcases List.mem_append.mp hm with hm | hm
    · exact (h.queued i m hm).mono hsub
    · exact ((hevs _ hm).2 i m rfl).elim

theorem described_invariant (B : Build) (n : Nat) :
    (describingSystem B n).recorded.Invariant (Described B) := by
  intro x hx
  induction hx with
  | init hinit =>
      obtain ⟨⟨d₀, mpool, rxBuffer, rxBufferSize, -, -, -, heq⟩, -⟩ := hinit
      constructor
      · rw [heq]
        exact fun ev hev => absurd hev List.not_mem_nil
      · rw [heq]
        exact fun i m hm => absurd hm List.not_mem_nil
  | @step x i x' hreach hstep ih =>
      obtain ⟨env, call⟩ := i
      obtain ⟨⟨⟨hfits, hlength⟩, hvalid, hcall⟩, hhistory⟩ := hstep
      have hrun := hreach.of_recorded
      have hsub : x.2 ⊆ x'.2 := by
        rw [hhistory]
        exact List.subset_append_left _ _
      cases call with
      | time =>
          refine ih.tells hsub ?_
          rw [hcall]
          exact tells_time B env x.1
      | receive ch =>
          obtain ⟨hsize, pre, hpart⟩ := dartSystem_rxPart B n x.1 hrun.of_restrict
          refine ih.tells hsub ?_
          rw [hcall]
          exact tells_received hpart hsize hlength
      | send prio msg msgLen =>
          obtain ⟨e, -, hrep⟩ := dart_refines_engine B n x.1 (hrun.mono fun _ _ h => h.1)
          have htracks : Tracks B n
              (OutStep B env True fun m => m.data = msg.read 0 msgLen) x.1.log e
              (dartSendMsgEx B env x.1 prio msg msgLen).1 :=
            tracks_send hrep hvalid hfits fun _ h => h
          obtain ⟨evs, e', hlog, hruns, -⟩ := htracks
          obtain ⟨evs', hlog', hevs⟩ := tells_send B env x.1 prio msg msgLen
          rw [List.append_cancel_left (hlog'.symm.trans hlog)] at hevs
          have hgrown : x'.1.log = x.1.log ++ evs := by
            rw [hcall]
            exact hlog
          constructor
          · intro ev hev
            rw [hgrown] at hev
            rcases List.mem_append.mp hev with hev | hev
            · exact ih.exact ev hev
            · exact (hevs ev hev).1
          · intro i m hm
            rw [hgrown] at hm
            rcases List.mem_append.mp hm with hm | hm
            · exact (ih.queued i m hm).mono hsub
            · refine ⟨x.1, env, prio, msg, msgLen, evs, i, ?_, hlog, hm, runs_accepts hruns hm⟩
              rw [hhistory]
              exact List.mem_append_right _ List.mem_cons_self

/-- **Callbacks describe the message that was sent**, in every run in which no allocation
loses bits of a length and requests are completed only by responses of their length: a
callback that finishes a message passes a message that is accepted and not yet reported,
and its length; it was queued by a call of `dart_send_msg_ex` that was given these bytes. -/
theorem dart_callbacks_describe (B : Build) (n : Nat) :
    (describingSystem B n).recorded.Invariant fun x =>
      ∀ (l₁ : List Event) (code : Clbk) (param : Param) (len : Nat) (l₂ : List Event),
        x.1.log = l₁ ++ .callback code param len :: l₂ → code.finishes →
        ∃ (m : Msg) (opened : List Msg), param = .stored m ∧ len = m.data.length ∧
          openMessages l₁ = some opened ∧ m ∈ opened ∧ QueuedBy B x.2 m := by
  intro x hx l₁ code param len l₂ hlog hfinishes
  have hdescribed := described_invariant B n x hx
  obtain ⟨e, hrun, -⟩ := dart_refines_engine B n x.1 (hx.of_recorded.mono fun _ _ h => h.1)
  obtain ⟨-, opened, hopen, -⟩ := engine_ledger hrun
  have hmem : .callback code param len ∈ x.1.log := by
    rw [hlog]
    exact List.mem_append_right _ List.mem_cons_self
  obtain ⟨m, rfl, hlen⟩ := hdescribed.exact _ hmem code param len rfl hfinishes
  have hreports : (Event.callback code (.stored m) len).reports = some m := by
    cases code <;> first | rfl | cases hfinishes
  rw [hlog] at hopen
  obtain ⟨opened₁, hopen₁, hm⟩ := reported_open hopen hreports
  refine ⟨m, opened₁, rfl, hlen, hopen₁, hm, ?_⟩
  rcases ledger_accepted hopen₁ hm with hm | ⟨i, hi⟩
  · exact absurd hm List.not_mem_nil
  · refine hdescribed.queued i m ?_
    rw [hlog]
    exact List.mem_append_left _ hi

/-- A request of one byte is acknowledged and completed by a response of one byte. -/
theorem dart_callbacks_describe_answered :
    let B : Build := ⟨.one, .one, .one⟩
    let calls : List (Env × DartCall) := (.plain 7 true, .send 2 (fun _ => 0x41) 1) ::
      (dartAck :: dartFrame B [0x81]).map fun ch => (.plain 8 true, .receive ch)
    let d := dartCalls B (dartFresh 512 64) calls
    ∃ history, (describingSystem B 512).recorded.Reachable (d, history) ∧
      .callback .transferDone (.stored ⟨20, 0x41, [0x41]⟩) 1 ∈ d.log ∧
      QueuedBy B history ⟨20, 0x41, [0x41]⟩ := by
  intro B calls d
  have hd : (describingSystem B 512).Reachable d :=
    restrict_calls (.init (dartFresh_initial (by decide) (by decide))) (by decide)
      (by decide +kernel)
  obtain ⟨history, hrecorded⟩ := hd.recorded
  have hmem : .callback .transferDone (.stored ⟨20, 0x41, [0x41]⟩) 1 ∈ d.log := by decide +kernel
  obtain ⟨l₁, l₂, hlog⟩ := List.append_of_mem hmem
  obtain ⟨m, opened, hparam, -, -, -, hqueued⟩ :=
    dart_callbacks_describe B 512 (d, history) hrecorded l₁ _ _ _ l₂ hlog rfl
  injection hparam with hm
  exact ⟨history, hrecorded, hmem, hm ▸ hqueued⟩

/-- A request of one byte is completed by a response of two. -/
theorem dart_callbacks_describe_response :
    let B : Build := ⟨.one, .one, .one⟩
    ∃ d, (dartSystem B 512).Reachable d ∧ .accept 2 ⟨20, 0x41, [0x41]⟩ ∈ d.log ∧
      .callback .transferDone (.stored ⟨20, 0x41, [0x41]⟩) 2 ∈ d.log := by
  intro B
  let calls : List (Env × DartCall) := (.plain 7 true, .send 2 (fun _ => 0x41) 1) ::
    ([0xAA, 0x55, 0x02, 0x81, 0x07, 0x79].map fun ch => (.plain 7 true, .receive ch))
  refine ⟨dartCalls B (dartFresh 512 64) calls, ?_, by decide +kernel, by decide +kernel⟩
  exact dartSystem_calls (dartFresh_reachable B (by decide) (by decide)) (by decide)

end EmbeddedMx
