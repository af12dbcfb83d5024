import Mathlib.Data.Fintype.EquivFin
import Mathlib.Data.List.Nodup
import Mathlib.Logic.Relation
import Mathlib.Order.WellFounded
import EmbeddedMx.Hsm.Model

/-!
# Dispatch along the hierarchy

What `hsm_handle_event` does, seen from outside, is a sequence of calls of handlers, each
with what it returned. `HsmBubbles`, `HsmExits` and `HsmEnters` say which sequences are right: the
event goes up from the leaf, EXIT goes up from the leaf, ENTER goes from the target
onwards. The loops of the code produce just these, although all three share the field
`hsm->state`; that they come to an end is an induction along the parents.
-/

namespace EmbeddedMx

/-! ## What is to happen -/

/-- The handler does not pass the event on to its parent. -/
def HsmRet.Stays {S : Type} (ret : HsmRet S) : Prop := ∀ p, ret ≠ .super p

/-- The event goes to `s` and its ancestors until one does not pass it on; that one
returns `ret`. -/
inductive HsmBubbles {S : Type} (parent : S → Option S) (ev : Nat) :
    S → List (HsmAct S) → HsmRet S → Prop
  | last {s ret} : ret.Stays → HsmBubbles parent ev s [.call s ev ret] ret
  | up {s p acts ret} : parent s = some p → HsmBubbles parent ev p acts ret →
      HsmBubbles parent ev s (.call s ev (.super p) :: acts) ret

/-- EXIT goes to `s` and its ancestors, to `depth` of them at most, until one does not pass
it on. -/
inductive HsmExits {S : Type} (parent : S → Option S) : S → Int → List (HsmAct S) → Prop
  | done {s depth} : depth ≤ 0 → HsmExits parent s depth []
  | last {s depth ret} :
      0 < depth → ret.Stays → HsmExits parent s depth [.call s hsmEvExitState ret]
  | up {s depth p acts} : 0 < depth → parent s = some p → HsmExits parent p (depth - 1) acts →
      HsmExits parent s depth (.call s hsmEvExitState (.super p) :: acts)

/-- ENTER goes to `s` and onwards while it is answered with another state; the timer is set
back before each of them. The last state is `final`. -/
inductive HsmEnters {S : Type} : S → List (HsmAct S) → S → Prop
  | last {s ret} : (∀ t depth, ret = .trans t depth → t = s) →
      HsmEnters s [.timerInit, .call s hsmEvEnterState ret] s
  | next {s t depth acts final} : t ≠ s → HsmEnters t acts final →
      HsmEnters s (.timerInit :: .call s hsmEvEnterState (.trans t depth) :: acts) final

/-- The state whose handler is called. -/
def HsmAct.state? {S : Type} : HsmAct S → Option S
  | .call s _ _ => some s
  | .timerInit => none

section Ancestors

variable {S : Type} {parent : S → Option S}

/-- Without cycles, following the parents comes to an end. -/
theorem parent_wellFounded [Finite S]
    (hacyclic : ∀ s, ¬ Relation.TransGen (fun s p => parent s = some p) s s) :
    WellFounded fun p s => parent s = some p := by
  have htrans : IsTrans S (Relation.TransGen fun p s => parent s = some p) := ⟨fun _ _ _ => .trans⟩
  have hirrefl : Std.Irrefl (Relation.TransGen fun p s : S => parent s = some p) :=
    ⟨fun s h => hacyclic s (Relation.transGen_swap.mp h)⟩
  exact Subrelation.wf (fun h => .single h) (Finite.wellFounded_of_trans_of_irrefl
    (Relation.TransGen fun p s => parent s = some p))

/-- EXIT goes to ancestors only. -/
theorem HsmExits.ancestor {s : S} {depth : Int} {acts : List (HsmAct S)}
    (h : HsmExits parent s depth acts)
    {q : S} (hq : q ∈ acts.filterMap HsmAct.state?) :
    Relation.ReflTransGen (fun s p => parent s = some p) s q := by
  induction h with
  | done _ => cases hq
  | last _ _ =>
      rw [List.mem_singleton.mp hq]
  | up _ hp _ ih =>
      rcases List.mem_cons.mp hq with rfl | hq
      · rfl
      · exact .head hp (ih hq)

/-- EXIT goes to each of them at most once. -/
theorem HsmExits.nodup (hacyclic : ∀ s, ¬ Relation.TransGen (fun s p => parent s = some p) s s)
    {s : S} {depth : Int} {acts : List (HsmAct S)} (h : HsmExits parent s depth acts) :
    (acts.filterMap HsmAct.state?).Nodup := by
  induction h with
  | done _ => exact List.nodup_nil
  | last _ _ => exact List.nodup_singleton _
  | @up s depth p acts _ hp hexits ih =>
      refine List.nodup_cons.mpr ⟨fun hmem => ?_, ih⟩
      exact hacyclic s (.head' hp (hexits.ancestor hmem))

end Ancestors

/-! ## What happens -/

section Calls

variable {S C D : Type} (router : HsmRouter S C D)

/-- A handler that makes no calls touches the state machine only by its return macro. -/
theorem hsmCall_spec (hmacros : ∀ s hsm c ev data, (router s hsm c ev data).calls = [])
    (x : HsmRun S C) (s : S) (ev : Nat) (data : Option D) :
    (hsmCall router x s ev data).2 = (router s x.hsm x.container ev data).ret ∧
    (hsmCall router x s ev data).1.hsm = (hsmCall router x s ev data).2.write x.hsm ∧
    (hsmCall router x s ev data).1.acts = x.acts ++
    [.call s ev (hsmCall router x s ev data).2] := by
  refine ⟨rfl, ?_, rfl⟩
  unfold hsmCall
  dsimp only
  rw [hmacros]
  rfl

variable {router}

theorem hsmOffer_super {x : HsmRun S C} {ev : Nat} {data : Option D} {p : S}
    (h : (hsmCall router x x.hsm.state ev data).2 = .super p) (n : Nat) :
    hsmOffer router ev data (n + 1) x =
      hsmOffer router ev data n (hsmCall router x x.hsm.state ev data).1 := by
  rw [hsmOffer]
  rw [h]

theorem hsmOffer_stays {x : HsmRun S C} {ev : Nat} {data : Option D}
    (h : (hsmCall router x x.hsm.state ev data).2.Stays) (n : Nat) :
    hsmOffer router ev data (n + 1) x = some (hsmCall router x x.hsm.state ev data) := by
  rw [hsmOffer]
  generalize hsmCall router x x.hsm.state ev data = r at h
  obtain ⟨x', ret⟩ := r
  cases ret with
  | super p => exact absurd rfl (h p)
  | _ => rfl

theorem hsmExit_super {x : HsmRun S C} {p : S} (hunwind : x.hsm.unwind > 0)
    (h : (hsmCall router x x.hsm.state hsmEvExitState none).2 = .super p) (n : Nat) :
    hsmExit router (n + 1) x = hsmExit router n
      { (hsmCall router x x.hsm.state hsmEvExitState none).1 with
        hsm := { (hsmCall router x x.hsm.state hsmEvExitState none).1.hsm with
          unwind := (hsmCall router x x.hsm.state hsmEvExitState none).1.hsm.unwind - 1 } } := by
  rw [hsmExit, if_pos hunwind]
  dsimp only
  rw [h]

theorem hsmExit_stays {x : HsmRun S C} (hunwind : x.hsm.unwind > 0)
    (h : (hsmCall router x x.hsm.state hsmEvExitState none).2.Stays) (n : Nat) :
    hsmExit router (n + 2) x = some
      { (hsmCall router x x.hsm.state hsmEvExitState none).1 with
        hsm := { (hsmCall router x x.hsm.state hsmEvExitState none).1.hsm with unwind := 0 } } := by
  rw [hsmExit, if_pos hunwind]
  dsimp only
  generalize hsmCall router x x.hsm.state hsmEvExitState none = r at h
  obtain ⟨x', ret⟩ := r
  cases ret with
  | super p => exact absurd rfl (h p)
  | _ => rfl

theorem hsmExit_done {x : HsmRun S C} (hunwind : ¬ x.hsm.unwind > 0) (n : Nat) :
    hsmExit router (n + 1) x = some x := if_neg hunwind

/-- A handler passes the event on to the parent of its state, or it does not. -/
theorem hsmCall_cases {parent : S → Option S}
    (hparent : ∀ s hsm c ev data p, (router s hsm c ev data).ret = .super p → parent s = some p)
    (x : HsmRun S C) (s : S) (ev : Nat) (data : Option D) :
    (hsmCall router x s ev data).2.Stays ∨
      ∃ p, (hsmCall router x s ev data).2 = .super p ∧ parent s = some p := by
  have hsuper := hparent s x.hsm x.container ev data
  have hret : (hsmCall router x s ev data).2 = (router s x.hsm x.container ev data).ret := rfl
  rw [← hret] at hsuper
  cases h : (hsmCall router x s ev data).2 with
  | super p => exact .inr ⟨p, rfl, hsuper p h⟩
  | _ => exact .inl nofun

variable {parent : S → Option S} (hmacros : ∀ s hsm c ev data, (router s hsm c ev data).calls = [])
  (hparent : ∀ s hsm c ev data p, (router s hsm c ev data).ret = .super p → parent s = some p)
  (hwf : WellFounded fun p s => parent s = some p)

include hmacros hparent hwf

/-- The event is offered to one state after the other, and the timer is not touched. -/
theorem hsmOffer_spec (ev : Nat) (data : Option D) (x : HsmRun S C) :
    ∃ (x' : HsmRun S C) (ret : HsmRet S) (acts : List (HsmAct S)),
      (∃ N, ∀ n, N ≤ n → hsmOffer router ev data n x = some (x', ret)) ∧
      x'.acts = x.acts ++ acts ∧ HsmBubbles parent ev x.hsm.state acts ret ∧
      x'.hsm.current_state = x.hsm.current_state ∧ x'.hsm.timer = x.hsm.timer ∧
      ∀ t depth, ret = .trans t depth → x'.hsm.state = t ∧ x'.hsm.unwind = depth := by
  generalize hs : x.hsm.state = s
  induction s using hwf.induction generalizing x with
  | _ s ih =>
      subst hs
      obtain ⟨-, hhsm, hacts⟩ := hsmCall_spec router hmacros x x.hsm.state ev data
      rcases hsmCall_cases hparent x x.hsm.state ev data with hstays | ⟨p, hsuper, hp⟩
      · refine ⟨_, _, _, ⟨1, fun n hn => ?_⟩, hacts, .last hstays, ?_, ?_, ?_⟩
        · obtain ⟨n, rfl⟩ := Nat.exists_eq_add_of_le' hn
          exact hsmOffer_stays hstays n
        · rw [hhsm]
          cases (hsmCall router x x.hsm.state ev data).2 <;> rfl
        · rw [hhsm]
          cases (hsmCall router x x.hsm.state ev data).2 <;> rfl
        · intro t depth htrans
          rw [hhsm, htrans]
          exact ⟨rfl, rfl⟩
      · rw [hsuper] at hhsm hacts
        obtain ⟨x', ret, acts, ⟨N, hoffer⟩, hacts', hbubbles, hcurrent, htimer, htrans⟩ :=
          ih p hp (hsmCall router x x.hsm.state ev data).1 (by rw [hhsm]; rfl)
        rw [hhsm] at hcurrent htimer
        refine ⟨x', ret, _, ⟨N + 1, fun n hn => ?_⟩, ?_, .up hp hbubbles, hcurrent, htimer, htrans⟩
        · obtain ⟨n, rfl⟩ := Nat.exists_eq_add_of_le' (Nat.le_of_add_left_le hn)
          rw [hsmOffer_super hsuper]
          exact hoffer n (Nat.le_of_add_le_add_right hn)
        · rw [hacts', hacts, List.append_assoc]
          rfl

/-- EXIT is sent to one state after the other. -/
theorem hsmExit_spec (x : HsmRun S C) : ∃ (x' : HsmRun S C) (acts : List (HsmAct S)),
    (∃ N, ∀ n, N ≤ n → hsmExit router n x = some x') ∧ x'.acts = x.acts ++ acts ∧
      HsmExits parent x.hsm.state x.hsm.unwind acts := by
  generalize hs : x.hsm.state = s
  induction s using hwf.induction generalizing x with
  | _ s ih =>
      subst hs
      by_cases hunwind : x.hsm.unwind > 0
      · obtain ⟨-, hhsm, hacts⟩ := hsmCall_spec router hmacros x x.hsm.state hsmEvExitState none
        rcases hsmCall_cases hparent x x.hsm.state hsmEvExitState none with hstays | ⟨p, hsuper, hp⟩
        · refine ⟨{ (hsmCall router x x.hsm.state hsmEvExitState none).1 with
              hsm := { (hsmCall router x x.hsm.state hsmEvExitState none).1.hsm with unwind := 0 } },
            _, ⟨2, fun n hn => ?_⟩, hacts, .last hunwind hstays⟩
          obtain ⟨n, rfl⟩ := Nat.exists_eq_add_of_le' hn
          exact hsmExit_stays hunwind hstays n
        · rw [hsuper] at hhsm hacts
          obtain ⟨x', acts, ⟨N, hexit⟩, hacts', hexits⟩ := ih p hp
            { (hsmCall router x x.hsm.state hsmEvExitState none).1 with
              hsm := { (hsmCall router x x.hsm.state hsmEvExitState none).1.hsm with
                unwind := (hsmCall router x x.hsm.state hsmEvExitState none).1.hsm.unwind - 1 } }
            (by rw [hhsm]; rfl)
          rw [show (hsmCall router x x.hsm.state hsmEvExitState none).1.hsm.unwind = x.hsm.unwind by
            rw [hhsm]; rfl] at hexits
          refine ⟨x', _, ⟨N + 1, fun n hn => ?_⟩, ?_, .up hunwind hp hexits⟩
          · obtain ⟨n, rfl⟩ := Nat.exists_eq_add_of_le' (Nat.le_of_add_left_le hn)
            rw [hsmExit_super hunwind hsuper]
            exact hexit n (Nat.le_of_add_le_add_right hn)
          · rw [hacts']
            show (hsmCall router x x.hsm.state hsmEvExitState none).1.acts ++ acts = _
            rw [hacts, List.append_assoc]
            rfl
      · refine ⟨x, [], ⟨1, fun n hn => ?_⟩, (List.append_nil _).symm, .done (Int.not_lt.mp hunwind)⟩
        obtain ⟨n, rfl⟩ := Nat.exists_eq_add_of_le' hn
        exact hsmExit_done hunwind n

end Calls

/-! ## The ENTER chain -/

/-- The chain of ENTER events from the state that has been set is finite. -/
inductive EntersFinitely {S C D : Type} (router : HsmRouter S C D) : HsmRun S C → Prop
  | last {x} : (∀ t depth, (hsmEnterOnce router x).2 = .trans t depth → t = x.hsm.state) →
      EntersFinitely router x
  | next {x t depth} : (hsmEnterOnce router x).2 = .trans t depth → t ≠ x.hsm.state →
      EntersFinitely router (hsmEnterOnce router x).1 → EntersFinitely router x

section Enter

variable {S C D : Type} [DecidableEq S] {router : HsmRouter S C D}

omit [DecidableEq S] in
/-- The state that has been set becomes the current one and is sent ENTER. -/
theorem hsmEnterOnce_spec (hmacros : ∀ s hsm c ev data, (router s hsm c ev data).calls = [])
    (x : HsmRun S C) :
    (hsmEnterOnce router x).1.hsm = (hsmEnterOnce router x).2.write
        { x.hsm with current_state := x.hsm.state, timer := hsmTimerInit } ∧
      (hsmEnterOnce router x).1.acts = x.acts ++
        [.timerInit, .call x.hsm.state hsmEvEnterState (hsmEnterOnce router x).2] := by
  obtain ⟨-, hhsm, hacts⟩ := hsmCall_spec router hmacros
    { x with
      hsm := { x.hsm with current_state := x.hsm.state, timer := hsmTimerInit }
      acts := x.acts ++ [.timerInit] } x.hsm.state hsmEvEnterState none
  exact ⟨hhsm, hacts.trans (List.append_assoc _ _ _)⟩

/-- ENTER is sent to one state after the other, each with a fresh timer. -/
theorem hsmEnter_spec (hmacros : ∀ s hsm c ev data, (router s hsm c ev data).calls = [])
    {x : HsmRun S C} (h : EntersFinitely router x) :
    ∃ (x' : HsmRun S C) (acts : List (HsmAct S)),
      (∃ N, ∀ n, N ≤ n → hsmEnter router n x = some x') ∧ x'.acts = x.acts ++ acts ∧
        HsmEnters x.hsm.state acts x'.hsm.current_state ∧ x'.hsm.timer = hsmTimerInit := by
  induction h with
  | @last x hlast =>
      obtain ⟨hhsm, hacts⟩ := hsmEnterOnce_spec hmacros x
      have hcurrent : (hsmEnterOnce router x).1.hsm.current_state = x.hsm.state := by
        rw [hhsm]
        cases (hsmEnterOnce router x).2 <;> rfl
      refine ⟨(hsmEnterOnce router x).1, _, ⟨1, fun n hn => ?_⟩, hacts, ?_, ?_⟩
      · obtain ⟨n, rfl⟩ := Nat.exists_eq_add_of_le' hn
        rw [hsmEnter]
        split
        · rename_i t depth htrans
          rw [hlast t depth htrans] at htrans
          rw [if_neg]
          rw [hcurrent, hhsm, htrans]
          exact not_not.mpr rfl
        · rfl
      · rw [hcurrent]
        exact .last hlast
      · rw [hhsm]
        cases (hsmEnterOnce router x).2 <;> rfl
  | @next x t depth htrans hne _ ih =>
      obtain ⟨hhsm, hacts⟩ := hsmEnterOnce_spec hmacros x
      rw [htrans] at hhsm hacts
      obtain ⟨x', acts, ⟨N, henter⟩, hacts', henters, htimer⟩ := ih
      rw [show (hsmEnterOnce router x).1.hsm.state = t by rw [hhsm]; rfl] at henters
      have hall : HsmEnters x.hsm.state
          (.timerInit :: .call x.hsm.state hsmEvEnterState (.trans t depth) :: acts) _ :=
        .next hne henters
      refine ⟨x', _, ⟨N + 1, fun n hn => ?_⟩, ?_, hall, htimer⟩
      · obtain ⟨n, rfl⟩ := Nat.exists_eq_add_of_le' (Nat.le_of_add_left_le hn)
        rw [hsmEnter, htrans]
        dsimp only
        rw [if_pos]
        · exact henter n (Nat.le_of_add_le_add_right hn)
        · rw [hhsm]
          exact hne.symm
      · rw [hacts', hacts]
        simp

/-- If the event leads to another state, then the chain of ENTER events is finite. -/
def EnterChainFinite (router : HsmRouter S C D) (x : HsmRun S C) (ev : Nat) (data : Option D) :
    Prop :=
  ∀ n x₁ t depth x₂,
    hsmOffer router ev data n { x with hsm := { x.hsm with current_state := x.hsm.state } } =
      some (x₁, .trans t depth) → x₁.hsm.current_state ≠ t →
    hsmExit router n { x₁ with hsm := { x₁.hsm with state := x₁.hsm.current_state } } = some x₂ →
    EntersFinitely router { x₂ with hsm := { x₂.hsm with state := t } }

/-- An event that leads to another state. -/
theorem hsmHandleEvent_trans {x x₁ x₂ x₃ : HsmRun S C} {ev n : Nat} {data : Option D} {t : S}
    {depth : Int} (hoffer : hsmOffer router ev data n
      { x with hsm := { x.hsm with current_state := x.hsm.state } } = some (x₁, .trans t depth))
    (hstate : x₁.hsm.state = t) (hne : x₁.hsm.current_state ≠ t)
    (hexit : hsmExit router n { x₁ with hsm := { x₁.hsm with state := x₁.hsm.current_state } } = some x₂)
    (henter : hsmEnter router n { x₂ with hsm := { x₂.hsm with state := t } } = some x₃) :
    hsmHandleEvent router n x ev data =
      some { x₃ with hsm := { x₃.hsm with state := x₃.hsm.current_state } } := by
  unfold hsmHandleEvent
  dsimp only
  rw [hoffer, Option.bind_some]
  dsimp only
  rw [hstate, if_pos hne, hexit, Option.bind_some, henter]
  rfl

/-- An event that does not. -/
theorem hsmHandleEvent_stays {x x₁ : HsmRun S C} {ev n : Nat} {data : Option D} {ret : HsmRet S}
    (hoffer : hsmOffer router ev data n
      { x with hsm := { x.hsm with current_state := x.hsm.state } } = some (x₁, ret))
    (hstays : ∀ t depth, ret = .trans t depth → x₁.hsm.state = x₁.hsm.current_state) :
    hsmHandleEvent router n x ev data =
      some { x₁ with hsm := { x₁.hsm with state := x₁.hsm.current_state } } := by
  unfold hsmHandleEvent
  dsimp only
  rw [hoffer, Option.bind_some]
  cases ret with
  | trans t depth =>
      dsimp only
      rw [if_neg (not_not.mpr (hstays t depth rfl).symm)]
      rfl
  | _ => rfl

/-- **Events follow the hierarchy.** The parents have no cycles and are the same for all
events, the handlers use only the return macros, and the chain of ENTER events is finite.
Then `hsm_handle_event` returns. The event goes to the leaf and its ancestors until one
does not pass it on. If that one returns another state than the leaf, EXIT goes to the
leaf and its ancestors, to each of them at most once, and then ENTER goes from the new
state onwards, each time with a fresh timer; the last of these states is the final one.
Otherwise nothing else is sent, the state is the leaf, and the timer is untouched. -/
theorem hsm_event_follows_hierarchy [Finite S] (router : HsmRouter S C D) (parent : S → Option S)
    (hparent : ∀ s hsm c ev data p, (router s hsm c ev data).ret = .super p → parent s = some p)
    (hacyclic : ∀ s, ¬ Relation.TransGen (fun s p => parent s = some p) s s)
    (hmacros : ∀ s hsm c ev data, (router s hsm c ev data).calls = [])
    (x : HsmRun S C) (ev : Nat) (data : Option D) (henter : EnterChainFinite router x ev data) :
    ∃ (x' : HsmRun S C) (ret : HsmRet S) (up outs ins : List (HsmAct S)),
      (∃ N, ∀ n, N ≤ n → hsmHandleEvent router n x ev data = some x') ∧
      x'.acts = x.acts ++ (up ++ outs ++ ins) ∧ HsmBubbles parent ev x.hsm.state up ret ∧
      ((∃ t depth, ret = .trans t depth ∧ t ≠ x.hsm.state ∧
          HsmExits parent x.hsm.state depth outs ∧ (outs.filterMap HsmAct.state?).Nodup ∧
          HsmEnters t ins x'.hsm.state ∧ x'.hsm.timer = hsmTimerInit) ∨
        ((∀ t depth, ret = .trans t depth → t = x.hsm.state) ∧ outs = [] ∧ ins = [] ∧
          x'.hsm.state = x.hsm.state ∧ x'.hsm.timer = x.hsm.timer)) := by
  have hwf := parent_wellFounded hacyclic
  obtain ⟨x₁, ret, up, ⟨N, hoffer⟩, hacts, hbubbles, hcurrent, htimer, htrans⟩ :=
    hsmOffer_spec hmacros hparent hwf ev data
      { x with hsm := { x.hsm with current_state := x.hsm.state } }
  by_cases hgoes : ∃ t depth, ret = .trans t depth ∧ t ≠ x.hsm.state
  · obtain ⟨t, depth, rfl, hne⟩ := hgoes
    obtain ⟨hstate, hunwind⟩ := htrans t depth rfl
    obtain ⟨x₂, outs, ⟨N₂, hexit⟩, hacts₂, hexits⟩ := hsmExit_spec hmacros hparent hwf
      { x₁ with hsm := { x₁.hsm with state := x₁.hsm.current_state } }
    have hother : x₁.hsm.current_state ≠ t := hcurrent ▸ hne.symm
    have hfinite := henter (max N N₂) x₁ t depth x₂ (hoffer _ (Nat.le_max_left _ _)) hother
      (hexit _ (Nat.le_max_right _ _))
    obtain ⟨x₃, ins, ⟨N₃, henters⟩, hacts₃, hins, htimer₃⟩ := hsmEnter_spec hmacros hfinite
    have hexits : HsmExits parent x.hsm.state depth outs := by
      have hexits : HsmExits parent x₁.hsm.current_state x₁.hsm.unwind outs := hexits
      rw [hcurrent, hunwind] at hexits
      exact hexits
    refine ⟨{ x₃ with hsm := { x₃.hsm with state := x₃.hsm.current_state } }, _, up, outs, ins,
      ⟨max N (max N₂ N₃), fun n hn => ?_⟩, ?_, hbubbles,
      .inl ⟨t, depth, rfl, hne, hexits, hexits.nodup hacyclic, hins, htimer₃⟩⟩
    · exact hsmHandleEvent_trans (hoffer n (by omega)) hstate hother (hexit n (by omega))
        (henters n (by omega))
    · show x₃.acts = _
      rw [hacts₃]
      show x₂.acts ++ ins = _
      rw [hacts₂]
      show x₁.acts ++ outs ++ ins = _
      rw [hacts]
      simp
  · have hstays : ∀ t depth, ret = .trans t depth → t = x.hsm.state :=
      fun t depth hret => Classical.byContradiction fun hne => hgoes ⟨t, depth, hret, hne⟩
    refine ⟨{ x₁ with hsm := { x₁.hsm with state := x₁.hsm.current_state } }, ret, up, [], [],
      ⟨N, fun n hn => ?_⟩, by simpa using hacts, hbubbles,
      .inr ⟨hstays, rfl, rfl, hcurrent, htimer⟩⟩
    refine hsmHandleEvent_stays (hoffer n hn) fun t depth hret => ?_
    rw [(htrans t depth hret).1, hstays t depth hret]
    exact hcurrent.symm

end Enter

/-! ## A machine with three states -/

/-- State 1 is the parent of state 2; it answers event 32 with a transition to state 0,
which unwinds both. -/
def stair : HsmRouter (Fin 3) Unit Unit := fun s _ _ ev _ =>
  { container := ()
    calls := []
    ret :=
      if s = 2 then .super 1
      else if s = 1 then
        if ev = 32 then .trans 0 2 else if ev = hsmEvExitState then .super 0 else .handled
      else .handled }

def stairParent (s : Fin 3) : Option (Fin 3) :=
  if s = 2 then some 1 else if s = 1 then some 0 else none

theorem hsm_event_follows_hierarchy_stair :
    let x : HsmRun (Fin 3) Unit := ⟨⟨2, 2, 0, ⟨7, 1⟩⟩, (), []⟩
    ∃ (x' : HsmRun (Fin 3) Unit) (ret : HsmRet (Fin 3)) (up outs ins : List (HsmAct (Fin 3))),
      (∃ N, ∀ n, N ≤ n → hsmHandleEvent stair n x 32 none = some x') ∧
      x'.acts = up ++ outs ++ ins ∧ HsmBubbles stairParent 32 2 up ret := by
  intro x
  have hparent : ∀ (s : Fin 3) (hsm : Hsm (Fin 3)) (c : Unit) (ev : Nat) (data : Option Unit)
      (p : Fin 3),
      (stair s hsm c ev data).ret = .super p → stairParent s = some p := by
    intro s hsm c ev data p h
    unfold stair at h
    unfold stairParent
    dsimp only at h
    split_ifs at h ⊢ <;> cases h
    · rfl
    · rfl
  have hlt : ∀ s p, stairParent s = some p → p < s := by decide
  have hacyclic : ∀ s, ¬ Relation.TransGen (fun s p => stairParent s = some p) s s := by
    have htrans : ∀ {s t : Fin 3}, Relation.TransGen (fun s p => stairParent s = some p) s t →
        t < s := by
      intro s t h
      induction h with
      | single h => exact hlt _ _ h
      | tail _ h ih => exact (hlt _ _ h).trans ih
    exact fun s h => lt_irrefl s (htrans h)
  have henter : EnterChainFinite stair x 32 none := by
    intro n x₁ t depth x₂ _ _ _
    have hnot : ∀ (t' : Fin 3) (depth' : Int),
        (stair t x.hsm () hsmEvEnterState none).ret ≠ .trans t' depth' := by
      intro t' depth'
      have hev : hsmEvEnterState ≠ 32 := by decide
      unfold stair
      dsimp only
      rw [if_neg hev]
      split_ifs <;> simp
    exact .last fun t' depth' h => absurd h (hnot t' depth')
  obtain ⟨x', ret, up, outs, ins, hends, hacts, hbubbles, -⟩ := hsm_event_follows_hierarchy stair
    stairParent hparent hacyclic (fun _ _ _ _ _ => rfl) x 32 none henter
  exact ⟨x', ret, up, outs, ins, hends, hacts, hbubbles⟩

example : (hsmHandleEvent stair 5 ⟨⟨2, 2, 0, ⟨7, 1⟩⟩, (), []⟩ 32 (none : Option Unit)).map
    (·.acts) =
    some [.call 2 32 (.super 1), .call 1 32 (.trans 0 2), .call 2 8 (.super 1),
      .call 1 8 (.super 0),
      .timerInit, .call 0 9 .handled] := by
  decide

end EmbeddedMx
