import EmbeddedMx.Dart.Reception
import EmbeddedMx.Dart.Work
import EmbeddedMx.Link.Delivery

/-!
# No endless chatter

Both endpoints answer what they receive: a frame with one byte, a byte that asks for it with a
frame. On a line that changes bytes an answer may be taken for anything, so the endpoints could
keep each other busy for ever. They do not. A byte that is received weighs one less than it did
on the line, and an answer is given for three bytes or more; whatever else an endpoint sends is
paid for with an accepted message. The traffic is bounded by what was accepted, whatever the
line does.
-/

namespace EmbeddedMx

open EmbeddedMx.Lib

/-! ## The bytes of a call -/

/-- What the transmission of a message costs in bytes. -/
def frameCost (B : Build) (m : Msg) : Nat := B.frameBytes m.data.length

/-- A single byte is given to the uart. -/
def Event.answer : Event → Bool
  | .uart bytes => bytes.length = 1
  | _ => false

/-- How many single bytes were sent. -/
def answers (evs : List Event) : Nat := evs.countP Event.answer

theorem answer_of_quiet {ev : Event} (h : ev.ofReceiver = false) : ev.answer = false := by
  cases ev with
  | uart bytes => exact h
  | _ => rfl

theorem answers_eq_zero {evs : List Event} (h : ∀ ev ∈ evs, ev.ofReceiver = false) :
    answers evs = 0 := by
  refine List.countP_eq_zero.mpr fun ev hev => ?_
  rw [answer_of_quiet (h ev hev)]
  exact Bool.false_ne_true

theorem answers_append (evs evs' : List Event) :
    answers (evs ++ evs') = answers evs + answers evs' := List.countP_append

/-- The bytes the events give to the uart are accounted for. -/
def Weighed (B : Build) (evs : List Event) : Prop :=
  (evs.flatMap Event.bytes).length = spent (frameCost B) evs + answers evs

section Bytes

variable {B : Build} {env : Env} {e e' : Engine} {evs evs' : List Event}

theorem Weighed.append (h : Weighed B evs) (h' : Weighed B evs') : Weighed B (evs ++ evs') := by
  unfold Weighed at h h' ⊢
  rw [List.flatMap_append, List.length_append, spent_append, answers_append, h, h']
  omega

/-- Without deferred messages a transmission is one frame. -/
theorem transferOut_plain (hdeferred : env.deferred = none) (m : Msg) :
    transferOut B env m = [.uart (dartFrame B m.data)] := by
  have hnone : deferredOut B env m = ([], false) := by
    unfold deferredOut
    rw [hdeferred]
    split <;> rfl
  unfold transferOut
  rw [hnone]
  rfl

/-- A transmission behind its mark. -/
theorem weighed_transfer (hdeferred : env.deferred = none) {mark : Event} {m : Msg}
    (hsent : mark.sent = some m) : Weighed B (mark :: transferOut B env m) := by
  have hbytes : mark.bytes = [] := by
    cases mark with
    | start _ => rfl
    | retry _ => rfl
    | _ => cases hsent
  have hcosts : mark.costs (frameCost B) = frameCost B m := by
    unfold Event.costs
    rw [hsent]
    rfl
  have hanswer : mark.answer = false := by
    cases mark with
    | start _ => rfl
    | retry _ => rfl
    | _ => cases hsent
  have hframe : (Event.uart (dartFrame B m.data)).answer = false :=
    answer_of_quiet (ofReceiver_frame B m.data)
  rw [transferOut_plain hdeferred]
  unfold Weighed answers
  rw [List.countP_cons_of_neg (by rw [hanswer]; exact Bool.false_ne_true),
    List.countP_cons_of_neg (by rw [hframe]; exact Bool.false_ne_true)]
  show (mark.bytes ++ (dartFrame B m.data ++ [])).length = mark.costs (frameCost B) + 0 + 0
  rw [hbytes, hcosts, List.nil_append, List.append_nil, length_dartFrame]
  rfl

theorem weighed_step (hdeferred : env.deferred = none) (hstep : CallStep B env e evs e') :
    Weighed B evs := by
  cases hstep with
  | input hin => cases hin <;> rfl
  | output hout =>
      cases hout with
      | quiet hev => cases hev <;> rfl
      | start _ _ _ => exact weighed_transfer hdeferred rfl
      | retry _ _ _ => exact weighed_transfer hdeferred rfl
      | accept _ _ => rfl
      | abort _ => rfl
      | failure _ _ _ => rfl
      | abandoned _ => rfl

theorem weighed_run (hdeferred : env.deferred = none) (hrun : Runs (CallStep B env) e evs e') :
    Weighed B evs := by
  induction hrun with
  | refl => rfl
  | tail _ hstep ih => exact ih.append (weighed_step hdeferred hstep)

end Bytes

/-! ## Answers -/

/-- From `d` to `d'` the bytes in the receive buffer and twice the answers have grown by one at
most. -/
def Answers (d d' : Dart) : Prop :=
  ∃ evs, d'.log = d.log ++ evs ∧ 2 * answers evs + d'.rxBufferBytes ≤ d.rxBufferBytes + 1

/-- A frame has three bytes or more. -/
theorem two_lt_frameBytes (B : Build) (len : Nat) : 2 < B.frameBytes len := by
  have hlen : 0 < B.lenSize.bytes := by cases B.lenSize <;> decide
  have hcrc : 0 < B.crcSize.bytes := by cases B.crcSize <;> decide
  unfold Build.frameBytes Build.lenBytes
  omega

/-- `dart_handle_received_char` -/
theorem received_answers {B : Build} {d : Dart} {pre : List UInt8} (h : RxPart B d pre)
    (hsize : d.rxBufferSize < 2 ^ 16) (env : Env) (ch : UInt8) :
    Answers d (dartHandleReceivedChar B env d ch) := by
  obtain ⟨pre', hpart, htakes⟩ := received_takes_timeout h hsize env ch
  have hbytes : pre'.length ≤ d.rxBufferBytes := by
    rw [← hpart.holds.bytes]
    exact (dartRxTimeout_bytes env d).2
  -- the check of the byte timer may report a frame that is not complete
  obtain ⟨evs₁, hlog₁, hnone₁⟩ : ∃ evs, (dartRxStore env (dartRxTimeout env d) ch).log =
      d.log ++ evs ∧ answers evs = 0 := by
    show ∃ evs, (dartRxTimeout env d).log = d.log ++ evs ∧ _
    unfold dartRxTimeout
    split
    · exact ⟨[_], rfl, rfl⟩
    · exact ⟨[], (List.append_nil _).symm, rfl⟩
  generalize dartRxStore env (dartRxTimeout env d) ch = d₁ at htakes hlog₁
  generalize dartHandleReceivedChar B env d ch = d' at htakes ⊢
  have hsome : ∀ {d' : Dart} evs, d'.log = d₁.log ++ evs →
      2 * answers evs + d'.rxBufferBytes ≤ pre'.length + 1 → Answers d d' := by
    intro d' evs hlog hle
    refine ⟨evs₁ ++ evs, by rw [hlog, hlog₁, List.append_assoc], ?_⟩
    rw [answers_append, hnone₁]
    omega
  cases htakes with
  | kept hpart' hcollects =>
      have hcount : d'.rxBufferBytes = pre'.length + 1 := by
        rw [hpart'.holds.bytes, List.length_append]
        rfl
      have hsilent : ∀ evs, answers evs = 0 →
          2 * answers evs + d'.rxBufferBytes ≤ pre'.length + 1 := by
        intro evs hnone
        rw [hnone, hcount]
        omega
      rcases hcollects.log with ⟨hlog, -⟩ | ⟨hlog, -, -⟩
      · exact hsome [] (by rw [hlog, List.append_nil]) (hsilent [] rfl)
      · exact hsome [.pin true] hlog (hsilent [.pin true] rfl)
  | single hnil _ =>
      have hcontrol : ∃ evs, (if d₁.wrk then dartHandleControl B env d₁ ch else d₁).log =
          d₁.log ++ evs ∧ answers evs = 0 := by
        split
        · rcases sends_control B env d₁ ch with ⟨heq, -⟩ | ⟨hsends, -⟩
          · exact ⟨[], by rw [heq, List.append_nil], rfl⟩
          · obtain ⟨evs, hlog, hevs⟩ := hsends.log
            refine ⟨.control ch :: evs, hlog.trans (List.append_assoc _ _ _), ?_⟩
            exact (List.countP_cons_of_neg Bool.false_ne_true).trans (answers_eq_zero hevs)
        · exact ⟨[], (List.append_nil _).symm, rfl⟩
      obtain ⟨evs, hlog, hnone⟩ := hcontrol
      refine hsome evs hlog ?_
      rw [hnone]
      exact Nat.zero_le _
  | unsupported _ _ => exact hsome [_] rfl (Nat.zero_le _)
  | damaged hcomplete =>
      -- an answer of one byte for a frame, which empties the buffer
      have hlong := two_lt_frameBytes B (dartGetDataLen B d₁.rxBuffer)
      refine hsome [.uart [dartBad], .callback .transferCorrupted .null 0]
        (List.append_assoc _ _ _) ?_
      show 2 * 1 + 0 ≤ _
      omega
  | @frame data hframe _ _ _ =>
      obtain ⟨evs, hlog, hevs⟩ := frame_events B env d₁ data.length
      have hlong := two_lt_frameBytes B data.length
      have hlen : pre'.length + 1 = B.frameBytes data.length := by
        rw [← length_dartFrame, ← hframe, List.length_append]
        rfl
      refine hsome _ hlog ?_
      rw [answers_append, answers_eq_zero hevs]
      show 2 * (1 + 0) + 0 ≤ _
      omega

/-- Send and time calls answer nothing. -/
theorem Emits.answers {d d' : Dart} (h : Emits d d') :
    ∃ evs, d'.log = d.log ++ evs ∧ 2 * answers evs + d'.rxBufferBytes = d.rxBufferBytes := by
  obtain ⟨evs, hlog, hevs⟩ := h.log
  refine ⟨evs, hlog, ?_⟩
  rw [answers_eq_zero hevs, h.rxBufferBytes]
  exact Nat.zero_add _

/-- The bytes a call takes from the line. -/
def DartCall.takes : DartCall → Nat
  | .receive _ => 1
  | _ => 0

/-- What an endpoint puts on the line weighs two for every byte; it is paid for with the byte
received, with what is in the receive buffer, and with accepted messages. -/
theorem call_traffic {B : Build} {n : Nat} {env : Env} {d : Dart} {e : Engine} {call : DartCall}
    (hd : (fittingSystem B n).Reachable d) (hkeeps : Keeps B n d e) (hvalid : call.Valid B)
    (hfits : call.Fits B d) (hinsists : call.Insists env d) (hdeferred : env.deferred = none) :
    ∃ evs e', (dartCall B env d call).log = d.log ++ evs ∧ Keeps B n (dartCall B env d call) e' ∧
      2 * (evs.flatMap Event.bytes).length + (dartCall B env d call).rxBufferBytes +
          2 * e'.left (frameCost B) 0 (dartCall B env d call).attempt ≤
        d.rxBufferBytes + 2 * e.left (frameCost B) 0 d.attempt +
          2 * earned (frameCost B) 0 evs + call.takes := by
  obtain ⟨evs, e', hlog, hrun, hkeeps', haccounts⟩ :=
    call_accounts hd hkeeps hvalid hfits hinsists
  have hleft := (haccounts (frameCost B) 0).left hkeeps.2
  have hbytes := weighed_run hdeferred hrun
  have hanswers : 2 * answers evs + (dartCall B env d call).rxBufferBytes ≤
      d.rxBufferBytes + call.takes := by
    have hsame : ∀ {evs'}, (dartCall B env d call).log = d.log ++ evs' → evs' = evs :=
      fun hlog' => List.append_cancel_left (hlog'.symm.trans hlog)
    -- the events are those of the run, whichever lemma speaks of them
    cases call with
    | send prio msg msgLen =>
        obtain ⟨evs', hlog', hle⟩ := (sends_send B env d prio msg msgLen).toEmits.answers
        rw [← hsame hlog']
        exact Nat.le_of_eq hle
    | time =>
        obtain ⟨evs', hlog', hle⟩ := (emits_time B env d).answers
        rw [← hsame hlog']
        exact Nat.le_of_eq hle
    | receive ch =>
        obtain ⟨hsize, pre, hpart⟩ := dartSystem_rxPart B n d hd.of_restrict
        obtain ⟨evs', hlog', hle⟩ := received_answers hpart hsize env ch
        rw [← hsame hlog']
        exact hle
  refine ⟨evs, e', hlog, hkeeps', ?_⟩
  unfold Weighed at hbytes
  rw [hbytes]
  omega

/-! ## The line -/

/-- Every endpoint of a link is an endpoint. -/
theorem link_end_reachable {B : Build} {n : Side → Nat} {l : Link}
    (hl : (fittingLink B n).Reachable l) (s : Side) :
    (fittingSystem B (n s)).Reachable (l.ends s) := by
  have hcall : ∀ {l : Link} {t : Side} {env : Env} {call : DartCall}, call.Valid B →
      call.Fits B (l.ends t) → (∀ s, (fittingSystem B (n s)).Reachable (l.ends s)) →
      ∀ s, (fittingSystem B (n s)).Reachable ((l.put t (dartCall B env (l.ends t) call)).ends s) := by
    intro l t env call hvalid hfits ih
    refine Side.forall_of t ?_ ?_
    · rw [Link.put_ends_self]
      exact (ih t).step (i := (env, call)) ⟨hfits, hvalid, rfl⟩
    · rw [Link.put_ends_other]
      exact ih t.other
  induction hl generalizing s with
  | init hinit => exact .init (hinit s).1
  | step _ hact ih =>
      rename_i l act l' _
      obtain ⟨hfits, hvalid, hstep⟩ := hact
      cases act with
      | send t env prio msg msgLen =>
          cases hstep
          have hlen : (DartCall.send prio msg msgLen).Valid B := hvalid.2
          exact hcall hlen hfits ih s
      | time t env =>
          cases hstep
          have hvalid : DartCall.time.Valid B := trivial
          exact hcall hvalid trivial ih s
      | deliver t env =>
          unfold linkStep at hstep
          dsimp only at hstep
          split at hstep
          · cases hstep
          · rename_i ch rest _
            cases hstep
            have hvalid : (DartCall.receive ch).Valid B := trivial
            exact hcall (l := { l with line := Function.update l.line t.other rest })
              hvalid trivial ih s
      | drop t i =>
          cases hstep
          exact ih s
      | corrupt t i ch =>
          cases hstep
          exact ih s

namespace LinkAct

/-- There are no deferred messages, and no transfer is given up because the peer is not
ready. The line may do anything. -/
def Insists (l : Link) : LinkAct → Prop
  | send _ env _ _ _ => env.deferred = none
  | time s env => env.deferred = none ∧ (timerExpired (l.ends s).txAckTimer env.clock → env.rdy = true)
  | deliver _ env => env.deferred = none
  | drop _ _ => True
  | corrupt _ _ _ => True

instance (l : Link) : (act : LinkAct) → Decidable (act.Insists l)
  | send _ env _ _ _ => decidable_of_iff (env.deferred.isNone) Option.isNone_iff_eq_none
  | time _ env => @instDecidableAnd _ _ (decidable_of_iff (env.deferred.isNone)
      Option.isNone_iff_eq_none) inferInstance
  | deliver _ env => decidable_of_iff (env.deferred.isNone) Option.isNone_iff_eq_none
  | drop _ _ => .isTrue trivial
  | corrupt _ _ _ => .isTrue trivial

/-- A byte is received. -/
def isDeliver : LinkAct → Bool
  | deliver _ _ => true
  | _ => false

end LinkAct

/-- What holds of both sides together. -/
def both (f : Side → Nat) : Nat := f .left + f .right

theorem both_eq (f : Side → Nat) (s : Side) : both f = f s + f s.other := by
  cases s with
  | left => rfl
  | right => exact Nat.add_comm _ _

/-- What may still be received because of the endpoint `s`, if it is in the state `e`. -/
def Link.load (B : Build) (l : Link) (e : Engine) (s : Side) : Nat :=
  2 * (l.line s).length + (l.ends s).rxBufferBytes +
    2 * e.left (frameCost B) 0 (l.ends s).attempt

section Step

variable {B : Build} {n : Side → Nat} {l l' : Link} {e : Side → Engine}

/-- The books are kept, and all that the load of the link has grown by was accepted, or
`taken`. -/
def Carried (B : Build) (n : Side → Nat) (l : Link) (e : Side → Engine) (taken : Nat)
    (l' : Link) (e' : Side → Engine) : Prop :=
  ∃ evs : Side → List Event, (∀ s, Keeps B (n s) (l'.ends s) (e' s)) ∧
    (∀ s, (l'.ends s).log = (l.ends s).log ++ evs s) ∧
    both (fun s => l'.load B (e' s) s) ≤
      both (fun s => l.load B (e s) s) + 2 * both (fun s => earned (frameCost B) 0 (evs s)) + taken

/-- The line gets shorter at most. -/
theorem carried_line (hkeeps : ∀ s, Keeps B (n s) (l.ends s) (e s)) {s : Side} {bytes : List UInt8}
    (hbytes : bytes.length ≤ (l.line s).length) :
    Carried B n l e 0 { l with line := Function.update l.line s bytes } e := by
  refine ⟨fun _ => [], hkeeps, fun s => (List.append_nil _).symm, ?_⟩
  rw [both_eq _ s, both_eq _ s]
  unfold Link.load
  dsimp only
  rw [Function.update_self, Function.update_of_ne s.other_ne]
  omega

/-- A call at one end. -/
theorem carried_call (hkeeps : ∀ s, Keeps B (n s) (l.ends s) (e s)) {s : Side} {env : Env}
    {call : DartCall} (hd : (fittingSystem B (n s)).Reachable (l.ends s)) (hvalid : call.Valid B)
    (hfits : call.Fits B (l.ends s)) (hinsists : call.Insists env (l.ends s))
    (hdeferred : env.deferred = none) :
    ∃ e', Carried B n l e call.takes (l.put s (dartCall B env (l.ends s) call)) e' := by
  obtain ⟨evs, e', hlog, hkeeps', hle⟩ :=
    call_traffic hd (hkeeps s) hvalid hfits hinsists hdeferred
  generalize dartCall B env (l.ends s) call = d' at hlog hkeeps' hle
  refine ⟨Function.update e s e', Function.update (fun _ => []) s evs, ?_, ?_, ?_⟩
  · refine Side.forall_of s ?_ ?_
    · rw [Link.put_ends_self, Function.update_self]
      exact hkeeps'
    · rw [Link.put_ends_other, Function.update_of_ne s.other_ne]
      exact hkeeps s.other
  · refine Side.forall_of s ?_ ?_
    · rw [Link.put_ends_self, Function.update_self]
      exact hlog
    · rw [Link.put_ends_other, Function.update_of_ne s.other_ne, List.append_nil]
  · rw [both_eq _ s, both_eq _ s, both_eq _ s]
    unfold Link.load
    rw [Link.put_ends_self, Link.put_ends_other, Link.put_line_other, Link.put_line_self hlog,
      Function.update_self, Function.update_self, Function.update_of_ne s.other_ne,
      Function.update_of_ne s.other_ne, List.length_append]
    show _ ≤ _ + 2 * (_ + 0) + _
    omega

/-- Every act: a received byte makes the load smaller. -/
theorem carried_act (hl : (fittingLink B n).Reachable l)
    (hkeeps : ∀ s, Keeps B (n s) (l.ends s) (e s)) {act : LinkAct} (hinsists : act.Insists l)
    (hfits : act.Fits B l) (hvalid : act.Valid B) (hstep : linkStep B l act = some l') :
    ∃ (e' : Side → Engine) (evs : Side → List Event),
      (∀ s, Keeps B (n s) (l'.ends s) (e' s)) ∧
      (∀ s, (l'.ends s).log = (l.ends s).log ++ evs s) ∧
      both (fun s => l'.load B (e' s) s) + (if act.isDeliver then 1 else 0) ≤
        both (fun s => l.load B (e s) s) + 2 * both (fun s => earned (frameCost B) 0 (evs s)) := by
  have hends := link_end_reachable hl
  cases act with
  | send s env prio msg msgLen =>
      cases hstep
      have hlen : (DartCall.send prio msg msgLen).Valid B := hvalid.2
      obtain ⟨e', evs, hcarried⟩ := carried_call hkeeps (hends s) hlen hfits trivial hinsists
      exact ⟨e', evs, hcarried⟩
  | time s env =>
      cases hstep
      have hlen : DartCall.time.Valid B := trivial
      obtain ⟨e', evs, hcarried⟩ :=
        carried_call hkeeps (hends s) hlen trivial hinsists.2 hinsists.1
      exact ⟨e', evs, hcarried⟩
  | deliver s env =>
      unfold linkStep at hstep
      dsimp only at hstep
      split at hstep
      · cases hstep
      · rename_i ch rest hline
        cases hstep
        have hvalid : (DartCall.receive ch).Valid B := trivial
        obtain ⟨e', evs, hkeeps', hlog, hle⟩ := carried_call
          (l := { l with line := Function.update l.line s.other rest })
          hkeeps (hends s) hvalid trivial trivial hinsists
        refine ⟨e', evs, hkeeps', hlog, ?_⟩
        -- the byte weighed two on the line, and weighs one at the receiver
        have hshorter : both (fun t => Link.load B { l with
            line := Function.update l.line s.other rest } (e t) t) + 2 =
            both (fun t => l.load B (e t) t) := by
          rw [both_eq _ s, both_eq _ s]
          unfold Link.load
          dsimp only
          have hother : Function.update l.line s.other rest s = l.line s :=
            Function.update_of_ne s.other_ne.symm ..
          rw [hother, Function.update_self, hline, List.length_cons]
          omega
        have hone : (DartCall.receive ch).takes = 1 := rfl
        have hdeliver : (if (LinkAct.deliver s env).isDeliver then 1 else 0) = 1 := rfl
        rw [hdeliver]
        dsimp only at hle hshorter ⊢
        omega
  | drop s i =>
      cases hstep
      obtain ⟨evs, hcarried⟩ := carried_line hkeeps (s := s) (List.length_eraseIdx_le (l.line s) i)
      exact ⟨e, evs, hcarried⟩
  | corrupt s i ch =>
      cases hstep
      have hset : ((l.line s).set i ch).length ≤ (l.line s).length := by rw [List.length_set]
      obtain ⟨evs, hcarried⟩ := carried_line hkeeps hset
      exact ⟨e, evs, hcarried⟩

/-- A number of acts. -/
theorem carried_acts {acts : List LinkAct} (hl : (fittingLink B n).Reachable l)
    (hkeeps : ∀ s, Keeps B (n s) (l.ends s) (e s))
    (hacts : Allowed B (fun l act => act.Insists l ∧ act.Fits B l) l acts) :
    ∃ (l' : Link) (e' : Side → Engine) (evs : Side → List Event),
      acts.foldlM (linkStep B) l = some l' ∧
      (∀ s, (l'.ends s).log = (l.ends s).log ++ evs s) ∧
      both (fun s => l'.load B (e' s) s) + acts.countP LinkAct.isDeliver ≤
        both (fun s => l.load B (e s) s) + 2 * both (fun s => earned (frameCost B) 0 (evs s)) := by
  induction acts generalizing l e with
  | nil =>
      exact ⟨l, e, fun _ => [], rfl, fun s => (List.append_nil _).symm, Nat.le_add_right _ _⟩
  | cons act acts ih =>
      unfold Allowed at hacts
      split at hacts
      · exact hacts.elim
      · rename_i l₁ hstep
        obtain ⟨⟨hinsists, hfits⟩, hvalid, hrest⟩ := hacts
        obtain ⟨e₁, evs₁, hkeeps₁, hlog₁, hle₁⟩ :=
          carried_act hl hkeeps hinsists hfits hvalid hstep
        obtain ⟨l', e', evs, hrun, hlog, hle⟩ :=
          ih (hl.step ⟨hfits, hvalid, hstep⟩) hkeeps₁ hrest
        refine ⟨l', e', fun s => evs₁ s ++ evs s, ?_, ?_, ?_⟩
        · rw [List.foldlM_cons, hstep]
          exact hrun
        · intro s
          rw [hlog, hlog₁, List.append_assoc]
        · have hearned : both (fun s => earned (frameCost B) 0 (evs₁ s ++ evs s)) =
              both (fun s => earned (frameCost B) 0 (evs₁ s)) +
                both (fun s => earned (frameCost B) 0 (evs s)) := by
            unfold both
            dsimp only
            rw [earned_append, earned_append]
            omega
          rw [hearned, List.countP_cons]
          omega

end Step

/-! ## The bound -/

/-- The messages accepted. -/
def acceptedMsgs (evs : List Event) : List Msg :=
  evs.filterMap fun ev => match ev with
    | .accept _ m => some m
    | _ => none

/-- The bytes of the frames of some messages. -/
def frameSum (B : Build) (ms : List Msg) : Nat := (ms.map (frameCost B)).sum

theorem earned_frames (B : Build) (evs : List Event) :
    earned (frameCost B) 0 evs = dartTxAttempts * frameSum B (acceptedMsgs evs) := by
  induction evs with
  | nil => rfl
  | cons ev evs ih =>
      have hcons : earned (frameCost B) 0 (ev :: evs) =
          ev.brings (frameCost B) 0 + earned (frameCost B) 0 evs := List.sum_cons
      rw [hcons, ih]
      cases ev with
      | accept prio m =>
          have haccepted : acceptedMsgs (.accept prio m :: evs) = m :: acceptedMsgs evs := rfl
          have hsum : frameSum B (m :: acceptedMsgs evs) =
              frameCost B m + frameSum B (acceptedMsgs evs) := List.sum_cons
          rw [haccepted, hsum, Nat.mul_add]
          show dartTxAttempts * frameCost B m + 2 * 0 + _ = _
          omega
      | _ => exact Nat.zero_add _

theorem sum_attempts (B : Build) (ms : List Msg) :
    (ms.map fun m => dartTxAttempts * frameCost B m).sum = dartTxAttempts * frameSum B ms := by
  induction ms with
  | nil => rfl
  | cons m ms ih =>
      have hsum : frameSum B (m :: ms) = frameCost B m + frameSum B ms := List.sum_cons
      rw [List.map_cons, List.sum_cons, ih, hsum, Nat.mul_add]

/-- **No endless chatter** in runs in which no allocation loses bits of a length. From any state
of a link, in any order of calls, while the line loses and changes bytes as it likes: if there
are no deferred messages and no transfer is given up for a peer that is not ready, the endpoints
receive at most two bytes for each byte that is on the line now, one for each in a receive
buffer, and six for each byte in the frames of the messages that are open now or accepted on the
way. -/
theorem link_traffic_bounded {B : Build} {n : Side → Nat} {l : Link}
    (hl : (fittingLink B n).Reachable l) {acts : List LinkAct}
    (hacts : Allowed B (fun l act => act.Insists l ∧ act.Fits B l) l acts) :
    ∃ (l' : Link) (evs : Side → List Event) (opened : Side → List Msg),
      acts.foldlM (linkStep B) l = some l' ∧
      (∀ s, (l'.ends s).log = (l.ends s).log ++ evs s) ∧
      (∀ s, openMessages (l.ends s).log = some (opened s)) ∧
      acts.countP LinkAct.isDeliver ≤ both fun s =>
        2 * (l.line s).length + (l.ends s).rxBufferBytes +
          2 * dartTxAttempts * (frameSum B (opened s) + frameSum B (acceptedMsgs (evs s))) := by
  have hstart : ∀ s, ∃ e, Keeps B (n s) (l.ends s) e ∧ LedgerOk e (l.ends s).log :=
    fun s => dart_keeps (link_end_reachable hl s)
  choose e hkeeps hledger using hstart
  choose opened hopen hperm using hledger
  obtain ⟨l', e', evs, hrun, hlog, hle⟩ := carried_acts hl hkeeps hacts
  refine ⟨l', evs, opened, hrun, hlog, hopen, ?_⟩
  have hload : ∀ s, l.load B (e s) s ≤ 2 * (l.line s).length + (l.ends s).rxBufferBytes +
      2 * (dartTxAttempts * frameSum B (opened s)) := by
    intro s
    have hleft : (e s).left (frameCost B) 0 (l.ends s).attempt ≤ _ :=
      left_le_open ⟨opened s, hopen s, hperm s⟩ (hopen s) _
    rw [sum_attempts] at hleft
    unfold Link.load
    omega
  -- what is left of the load at the end is not needed
  have hfirst := hload .left
  have hsecond := hload .right
  unfold both at hle ⊢
  dsimp only at hle ⊢
  rw [earned_frames, earned_frames] at hle
  have hsplit : ∀ x y, 2 * dartTxAttempts * (x + y) =
      2 * (dartTxAttempts * x) + 2 * (dartTxAttempts * y) := by
    intro x y
    rw [Nat.mul_add, Nat.mul_assoc, Nat.mul_assoc]
  rw [hsplit, hsplit]
  omega

/-- The frame of a report is damaged, asked for again, and acknowledged. -/
theorem link_traffic_bounded_damaged :
    let B : Build := ⟨.one, .one, .one⟩
    let env := Env.plain 7 true
    let acts : List LinkAct :=
      [.send .left env 1 (fun _ => 0x11) 1, .corrupt .left 2 0x12] ++
        List.replicate 4 (.deliver .right env) ++ [.deliver .left env] ++
        List.replicate 4 (.deliver .right env) ++ [.deliver .left env]
    ∃ l', acts.foldlM (linkStep B) (linkFresh (fun _ => 512) fun _ => 64) = some l' ∧
      acts.countP LinkAct.isDeliver ≤ 6 * 4 := by
  intro B env acts
  have hacts : Allowed B (fun l act => act.Insists l ∧ act.Fits B l)
      (linkFresh (fun _ => 512) fun _ => 64) acts := by decide +kernel
  have hl : (fittingLink B fun _ => 512).Reachable (linkFresh (fun _ => 512) fun _ => 64) :=
    .init fun _ => ⟨dartFresh_initial (by decide : 512 < 2 ^ 16) (by decide : 64 < 2 ^ 16), rfl⟩
  obtain ⟨l', evs, opened, hrun, hlog, hopen, hle⟩ := link_traffic_bounded hl hacts
  have hnone : ∀ s, opened s = [] := fun s => (Option.some.inj (hopen s)).symm
  have haccepted : (acts.foldlM (linkStep B) (linkFresh (fun _ => 512) fun _ => 64)).map
      (fun l => (acceptedMsgs (l.ends .left).log, acceptedMsgs (l.ends .right).log)) =
      some ([⟨20, 0x11, [0x11]⟩], []) := by decide +kernel
  rw [hrun] at haccepted
  obtain ⟨hleft, hright⟩ := Prod.mk.inj (Option.some.inj haccepted)
  rw [hlog .left] at hleft
  rw [hlog .right] at hright
  have hleft' : acceptedMsgs (evs .left) = [⟨20, 0x11, [0x11]⟩] := hleft
  have hright' : acceptedMsgs (evs .right) = [] := hright
  unfold both at hle
  dsimp only at hle
  rw [hnone, hnone, hleft', hright'] at hle
  exact ⟨l', hrun, hle⟩

end EmbeddedMx
