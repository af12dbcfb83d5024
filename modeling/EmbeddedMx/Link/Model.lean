import EmbeddedMx.Dart.Decoder
import EmbeddedMx.Dart.Endpoint
import EmbeddedMx.Dart.History

/-!
# Two endpoints on a line

What an endpoint gives to the uart is on the line until the other endpoint
receives it, byte by byte and in order. The endpoints are called in any order,
and the line may stay as it is for any time. It may also lose or change bytes.
-/

namespace EmbeddedMx

open EmbeddedMx.Lib

inductive Side
  | left
  | right
deriving DecidableEq, Repr

namespace Side

def other : Side → Side
  | left => right
  | right => left

@[simp] theorem other_other (s : Side) : s.other.other = s := by cases s <;> rfl

theorem other_ne (s : Side) : s.other ≠ s := by cases s <;> decide

theorem eq_or_other (s t : Side) : t = s ∨ t = s.other := by
  cases s <;> cases t <;> decide

/-- What holds of a side and of the other one holds of both. -/
theorem forall_of {P : Side → Prop} (s : Side) (hs : P s) (ho : P s.other) (t : Side) : P t := by
  rcases s.eq_or_other t with rfl | rfl
  · exact hs
  · exact ho

end Side

/-- Two endpoints, and for each of them the bytes it has sent that have not been
received yet. -/
structure Link where
  ends : Side → Dart
  line : Side → List UInt8

/-- The bytes an event gives to the uart. -/
def Event.bytes : Event → List UInt8
  | .uart bytes => bytes
  | _ => []

/-- The data of a message the event reports as received. -/
def Event.receives : Event → List (List UInt8)
  | .callback .messageReceived (.rx _ data) _ => [data]
  | _ => []

/-- The bytes an endpoint has given to the uart from `d` to `d'`. -/
def sentBytes (d d' : Dart) : List UInt8 := (d'.log.drop d.log.length).flatMap Event.bytes

/-- The endpoint `s` has come to the state `d`. -/
def Link.put (l : Link) (s : Side) (d : Dart) : Link where
  ends := Function.update l.ends s d
  line := Function.update l.line s (l.line s ++ sentBytes (l.ends s) d)

/-- What may happen next. -/
inductive LinkAct
  | send (s : Side) (env : Env) (prio : Nat) (msg : Mem) (msgLen : Nat)
  | time (s : Side) (env : Env)
  /-- The next byte on the line is received by `s`. -/
  | deliver (s : Side) (env : Env)
  /-- The line loses a byte sent by `s`. -/
  | drop (s : Side) (i : Nat)
  /-- The line changes a byte sent by `s`. -/
  | corrupt (s : Side) (i : Nat) (ch : UInt8)

def linkStep (B : Build) (l : Link) : LinkAct → Option Link
  | .send s env prio msg msgLen =>
      some (l.put s (dartCall B env (l.ends s) (.send prio msg msgLen)))
  | .time s env => some (l.put s (dartCall B env (l.ends s) .time))
  | .deliver s env =>
      match l.line s.other with
      | [] => none
      | ch :: rest =>
          let l := { l with line := Function.update l.line s.other rest }
          some (l.put s (dartCall B env (l.ends s) (.receive ch)))
  | .drop s i => some { l with line := Function.update l.line s ((l.line s).eraseIdx i) }
  | .corrupt s i ch => some { l with line := Function.update l.line s ((l.line s).set i ch) }

namespace LinkAct

/-- The length of a message is a `dart_len_t`, and it has room for its type. -/
def Valid (B : Build) : LinkAct → Prop
  | send _ _ _ _ msgLen => sizeofMsg B.msgtypeSize ≤ msgLen ∧ msgLen < 256 ^ B.lenSize.bytes
  | _ => True

/-- The allocation for a message, if there is one, loses no bits. -/
def Fits (B : Build) (l : Link) : LinkAct → Prop
  | send s _ _ _ msgLen => SendFits B (l.ends s) msgLen
  | _ => True

/-- A good line: no byte is lost or changed, or comes after the byte timer has
expired; frames fit the receive buffer of the other side, and there are no
deferred messages. If `late` is false no ACK timer is found expired. -/
def Orderly (B : Build) (late : Prop) (l : Link) : LinkAct → Prop
  | send s env _ _ msgLen =>
      env.deferred = none ∧ B.frameBytes msgLen ≤ (l.ends s.other).rxBufferSize
  | time s env =>
      env.deferred = none ∧ (timerExpired (l.ends s).txAckTimer env.clock → late)
  | deliver s env => env.deferred = none ∧ ¬ RxLate env (l.ends s)
  | drop _ _ => False
  | corrupt _ _ _ => False

instance (B : Build) : (act : LinkAct) → Decidable (act.Valid B)
  | send _ _ _ _ _ => inferInstanceAs (Decidable (_ ∧ _))
  | time _ _ | deliver _ _ | drop _ _ | corrupt _ _ _ => .isTrue trivial

instance (B : Build) (late : Prop) [Decidable late] (l : Link) :
    (act : LinkAct) → Decidable (act.Orderly B late l)
  | send _ _ _ _ _ => inferInstanceAs (Decidable (_ ∧ _))
  | time _ _ => inferInstanceAs (Decidable (_ ∧ (_ → _)))
  | deliver _ _ => inferInstanceAs (Decidable (_ ∧ ¬ _))
  | drop _ _ | corrupt _ _ _ => .isFalse id

instance (B : Build) (l : Link) : (act : LinkAct) → Decidable (act.Fits B l)
  | send _ _ _ _ _ => inferInstanceAs (Decidable (SendFits _ _ _))
  | time _ _ | deliver _ _ | drop _ _ | corrupt _ _ _ => .isTrue trivial

end LinkAct

/-- The runs of two endpoints with pools of the given sizes. -/
def linkSystem (B : Build) (n : Side → Nat) : TSys Link LinkAct where
  init l := ∀ s, DartInitial (n s) (l.ends s) ∧ l.line s = []
  step l act l' := act.Valid B ∧ linkStep B l act = some l'

/-- The runs in which no allocation loses bits. -/
def fittingLink (B : Build) (n : Side → Nat) : TSys Link LinkAct :=
  (linkSystem B n).restrict fun l act => act.Fits B l

/-- The runs over a good line. -/
def orderlyLink (B : Build) (n : Side → Nat) (late : Prop) : TSys Link LinkAct :=
  (linkSystem B n).restrict fun l act => act.Orderly B late l

/-- The runs over a good line in which no allocation loses bits. -/
def goodLink (B : Build) (n : Side → Nat) (late : Prop) : TSys Link LinkAct :=
  (linkSystem B n).restrict fun l act => act.Orderly B late l ∧ act.Fits B l

/-- The acts can be taken one after the other, each meets the side condition. -/
def Allowed (B : Build) (P : Link → LinkAct → Prop) : Link → List LinkAct → Prop
  | _, [] => True
  | l, act :: acts =>
      match linkStep B l act with
      | none => False
      | some l' => P l act ∧ act.Valid B ∧ Allowed B P l' acts

instance Allowed.decidable (B : Build) (P : Link → LinkAct → Prop) [∀ l act, Decidable (P l act)] :
    (l : Link) → (acts : List LinkAct) → Decidable (Allowed B P l acts)
  | _, [] => .isTrue trivial
  | l, act :: acts =>
      match h : linkStep B l act with
      | none => .isFalse (by unfold Allowed; rw [h]; exact id)
      | some l' =>
          have := Allowed.decidable B P l' acts
          decidable_of_iff (P l act ∧ act.Valid B ∧ Allowed B P l' acts)
            (by rw [Allowed]; rw [h])

/-- Where allowed acts lead is reachable. -/
theorem reachable_allowed {B : Build} {n : Side → Nat} {P : Link → LinkAct → Prop} {l : Link}
    (hl : ((linkSystem B n).restrict P).Reachable l) {acts : List LinkAct}
    (h : Allowed B P l acts) :
    ∃ l', acts.foldlM (linkStep B) l = some l' ∧ ((linkSystem B n).restrict P).Reachable l' := by
  induction acts generalizing l with
  | nil => exact ⟨l, rfl, hl⟩
  | cons act acts ih =>
      unfold Allowed at h
      split at h
      · exact h.elim
      · rename_i l₁ hstep
        obtain ⟨hP, hvalid, hrest⟩ := h
        obtain ⟨l', hrun, hreach⟩ := ih (hl.step ⟨hP, hvalid, hstep⟩) hrest
        refine ⟨l', ?_, hreach⟩
        rw [List.foldlM_cons, hstep]
        exact hrun

section Put

variable {l : Link} {s : Side} {d : Dart} {evs : List Event}

@[simp] theorem Link.put_ends_self : (l.put s d).ends s = d := by
  show Function.update l.ends s d s = d
  exact Function.update_self ..

@[simp] theorem Link.put_ends_other : (l.put s d).ends s.other = l.ends s.other := by
  show Function.update l.ends s d s.other = _
  exact Function.update_of_ne s.other_ne ..

@[simp] theorem Link.put_line_other : (l.put s d).line s.other = l.line s.other := by
  show Function.update l.line s _ s.other = _
  exact Function.update_of_ne s.other_ne ..

/-- What a call appends to the log says which bytes it puts on the line. -/
theorem Link.put_line_self (hlog : d.log = (l.ends s).log ++ evs) :
    (l.put s d).line s = l.line s ++ evs.flatMap Event.bytes := by
  show Function.update l.line s _ s = _
  rw [Function.update_self, sentBytes, hlog, List.drop_left]

end Put

/-- Every endpoint of a link refines the engine, whatever the line does. -/
theorem link_refines_engine {B : Build} {n : Side → Nat} {l : Link}
    (hl : (fittingLink B n).Reachable l) (s : Side) :
    ∃ e, Runs (EngineStep B.msgtypeSize True) Engine.init (l.ends s).log e ∧
      DartRep B (n s) (l.ends s) e := by
  have hstep : ∀ {l : Link} {s : Side} {env : Env} {call : DartCall}, call.Valid B →
      call.Fits B (l.ends s) →
      (∀ t, ∃ e, Runs (EngineStep B.msgtypeSize True) Engine.init (l.ends t).log e ∧
        DartRep B (n t) (l.ends t) e) →
      ∀ t, ∃ e, Runs (EngineStep B.msgtypeSize True) Engine.init
        ((l.put s (dartCall B env (l.ends s) call)).ends t).log e ∧
        DartRep B (n t) ((l.put s (dartCall B env (l.ends s) call)).ends t) e := by
    intro l s env call hvalid hfits ih
    refine Side.forall_of s ?_ ?_
    · obtain ⟨e, hrun, hrep⟩ := ih s
      obtain ⟨evs, e', hlog, hrun', hrep'⟩ := tracks_call env hrep hvalid hfits
      rw [Link.put_ends_self, hlog]
      exact ⟨e', hrun.trans hrun', hrep'⟩
    · rw [Link.put_ends_other]
      exact ih s.other
  induction hl generalizing s with
  | init hinit =>
      obtain ⟨hrep, hlog⟩ := dartInit_rep (B := B) (hinit s).1
      exact ⟨Engine.init, hlog ▸ .refl _, hrep⟩
  | step _ hact ih =>
      rename_i l act l' _
      obtain ⟨hfits, hvalid, hstep'⟩ := hact
      cases act with
      | send t env prio msg msgLen =>
          cases hstep'
          have hcall : (DartCall.send prio msg msgLen).Valid B := hvalid.2
          exact hstep hcall hfits ih s
      | time t env =>
          cases hstep'
          have hcall : DartCall.time.Valid B := trivial
          exact hstep hcall trivial ih s
      | deliver t env =>
          unfold linkStep at hstep'
          dsimp only at hstep'
          split at hstep'
          · cases hstep'
          · rename_i ch rest _
            cases hstep'
            have hcall : (DartCall.receive ch).Valid B := trivial
            exact hstep hcall trivial ih s
      | drop t i =>
          cases hstep'
          exact ih s
      | corrupt t i ch =>
          cases hstep'
          exact ih s

end EmbeddedMx
