import EmbeddedMx.Hsm.Exact

/-!
# Initialisation (`hsm_init`)

`hsm_init` sets the states, the unwind counter and the router, but not the timer: the
counter and the mask are those that the memory held before. They are only set when a state
is entered, which the initial state never is. Until then the past can be told from the timer,
and from nothing else.
-/

namespace EmbeddedMx

open EmbeddedMx.Lib

/-- Initializer. The router is a parameter of the other functions. -/
def hsmInit {S : Type} (self : Hsm S) (initial_state : S) : Hsm S :=
  { self with state := initial_state, current_state := initial_state, unwind := 0 }

/-- Return current state. -/
def hsmGetCurrentState {S : Type} (self : Hsm S) : S := self.current_state

/-- A call of a state machine's functions. -/
inductive HsmCall (D : Type)
  | event (ev : Nat) (data : Option D)
  | time (time_lapse : Nat)
  | enable (mask : BitVec 16)
  | disable (mask : BitVec 16)
deriving DecidableEq, Repr

/-- The state and the event, where a handler has been called. -/
def HsmAct.delivery? {S : Type} : HsmAct S → Option (S × Nat)
  | .call s ev _ => some (s, ev)
  | .timerInit => none

/-- What is seen of a run: the events that were delivered, each with its state, and the
state at the end. -/
def HsmRun.observe {S C : Type} (x : HsmRun S C) : List (S × Nat) × S :=
  (x.acts.filterMap HsmAct.delivery?, hsmGetCurrentState x.hsm)

section Calls

variable {S C D : Type} [DecidableEq S]

/-- `hsm_handle_time` from the top of its loop, in at most so many turns; the loops of
`hsm_handle_event` are bounded by `n`. -/
def hsmTimeTurns (bits : Nat) (router : HsmRouter S C D) (n : Nat) :
    Nat → HsmRun S C → Nat → Option (HsmRun S C)
  | 0, _, _ => none
  | k + 1, x, time_lapse =>
      if time_lapse > 0 then
        let (timer, time_lapse, ready_mask) := hsmTimerCheck bits x.hsm.timer time_lapse
        let x := { x with hsm := { x.hsm with timer := timer } }
        ((readyTimers ready_mask).foldlM (fun x t => hsmHandleEvent router n x t.event none) x).bind
          fun x => hsmTimeTurns bits router n k x time_lapse
      else some x

/-- No loop of the call takes more than `n` turns. -/
def HsmCall.exec (bits : Nat) (router : HsmRouter S C D) (n : Nat) (x : HsmRun S C) :
    HsmCall D → Option (HsmRun S C)
  | .event ev data => hsmHandleEvent router n x ev data
  | .time time_lapse => hsmTimeTurns bits router n n x time_lapse
  | .enable mask => some { x with hsm := { x.hsm with timer := hsmTimerEnable x.hsm.timer mask } }
  | .disable mask => some { x with hsm := { x.hsm with timer := hsmTimerDisable x.hsm.timer mask } }

/-- What is seen of `hsm_init` and the calls after it, where `self` is what the memory held. -/
def observed (bits : Nat) (router : HsmRouter S C D) (n : Nat) (self : Hsm S) (initial_state : S)
    (container : C) (calls : List (HsmCall D)) : Option (List (S × Nat) × S) :=
  (calls.foldlM (HsmCall.exec bits router n) ⟨hsmInit self initial_state, container, []⟩).map
    HsmRun.observe

/-! ## The loop over time -/

variable {bits : Nat} {router : HsmRouter S C D}

/-- The events of a tick are sent one after the other. -/
theorem send_reachable {T : TSys (HsmTime S C) Unit} (hT : T.step = fun x _ x' =>
      HsmTimeStep bits router x x') {n time_lapse : Nat} {ready : List HsmTimerId}
    {x x' : HsmRun S C} (hreach : T.Reachable ⟨x, time_lapse, ready⟩)
    (h : ready.foldlM (fun x t => hsmHandleEvent router n x t.event none) x = some x') :
    T.Reachable ⟨x', time_lapse, []⟩ := by
  induction ready generalizing x with
  | nil =>
      injection h with h
      exact h ▸ hreach
  | cons t ready ih =>
      rw [List.foldlM_cons] at h
      obtain ⟨y, hevent, h⟩ := Option.bind_eq_some_iff.mp h
      refine ih (hreach.step (i := ()) ?_) h
      rw [hT]
      exact .send rfl hevent

/-- The loop takes the steps of `hsm_handle_time`. -/
theorem hsmTimeTurns_reachable {n k time_lapse : Nat} {x x' : HsmRun S C}
    (h : hsmTimeTurns bits router n k x time_lapse = some x') :
    (hsmHandleTime bits router x time_lapse).Reachable ⟨x', 0, []⟩ := by
  generalize hT : hsmHandleTime bits router x time_lapse = T
  have hstep : T.step = fun x _ x' => HsmTimeStep bits router x x' := hT ▸ rfl
  have hreach : T.Reachable ⟨x, time_lapse, []⟩ := hT ▸ .init rfl
  clear hT
  induction k generalizing x time_lapse with
  | zero => cases h
  | succ k ih =>
      rw [hsmTimeTurns] at h
      split at h
      · rename_i hlapse
        obtain ⟨y, hsend, h⟩ := Option.bind_eq_some_iff.mp h
        refine ih h (send_reachable hstep (hreach.step (i := ()) ?_) hsend)
        rw [hstep]
        exact .check rfl hlapse rfl
      · rename_i hlapse
        injection h with h
        rw [Nat.eq_zero_of_not_pos hlapse, h] at hreach
        exact hreach

end Calls

/-! ## What is left of the past -/

/-- A handler that looks at the timer: it passes its first event on, to its own state, if the
timer is `timer`. -/
def watch {S : Type} (timer : HsmTimer) : HsmRouter S Bool Unit := fun s self seen _ _ =>
  { container := true
    calls := []
    ret := if seen = false ∧ self.timer = timer then .super s else .handled }

theorem observed_watch {S : Type} [DecidableEq S] (bits : Nat) (timer : HsmTimer) (self : Hsm S)
    (s : S) :
    observed bits (watch timer) 2 self s false [.event 0 none] =
      some (if self.timer = timer then [(s, 0), (s, 0)] else [(s, 0)], s) := by
  by_cases h : self.timer = timer
  · rw [if_pos h]
    simp [observed, HsmCall.exec, hsmHandleEvent, hsmOffer, hsmCall, watch, hsmInit, h,
      HsmRun.observe, HsmAct.delivery?, hsmGetCurrentState, HsmRet.write]
  · rw [if_neg h]
    simp [observed, HsmCall.exec, hsmHandleEvent, hsmOffer, hsmCall, watch, hsmInit, h,
      HsmRun.observe, HsmAct.delivery?, hsmGetCurrentState, HsmRet.write]

/-- **Initialisation hides the past but for the timer**: with the same initial state, router
and calls, the same events are delivered to the same states and the final state is the same,
whatever these are, if and only if the timer was the same before. -/
theorem hsm_init_hides_past {S : Type} [DecidableEq S] (bits : Nat) (self self' : Hsm S) :
    (∀ (C D : Type) (router : HsmRouter S C D) (initial_state : S) (container : C)
        (calls : List (HsmCall D)) (n : Nat),
      observed bits router n self initial_state container calls =
        observed bits router n self' initial_state container calls) ↔
    self.timer = self'.timer := by
  constructor
  · intro hsame
    have hwatch := hsame Bool Unit (watch self.timer) self.state false [.event 0 none] 2
    rw [observed_watch, observed_watch, if_pos rfl] at hwatch
    by_contra hne
    rw [if_neg (Ne.symm hne)] at hwatch
    simp at hwatch
  · intro htimer C D router initial_state container calls n
    have hinit : hsmInit self initial_state = hsmInit self' initial_state := by
      unfold hsmInit
      rw [htimer]
    unfold observed
    rw [hinit]

/-- A millisecond after `hsm_init`, a state machine in memory that held a 1 has a timer event,
which one in cleared memory does not have. -/
theorem hsm_init_keeps_timer :
    observed 32 listen 2 ⟨(), (), 0, ⟨0, 0⟩⟩ () () [.time 1] = some ([], ()) ∧
    observed 32 listen 2 ⟨(), (), 0, ⟨0, HsmTimerId.ms1.bit⟩⟩ () () [.time 1] =
      some ([((), HsmTimerId.ms1.event)], ()) := by
  decide

end EmbeddedMx
