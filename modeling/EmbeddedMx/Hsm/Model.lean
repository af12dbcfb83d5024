import Mathlib.Algebra.Group.Nat.Defs
import Mathlib.Data.Option.Basic

/-!
# Hierarchical state machines (`hsm.c`)

A state machine is a table of handlers, one for each state. An event goes to the handler
of the current state; it handles it, or names its parent, or the next state. The fields
`state` and `unwind` of `struct hsm` are written by the handlers, through the macros that
they return with, and by the loops of `hsm_handle_event`.

The loops call handlers until these return something else, so they need not come to an
end: they are bounded by a number of turns, and `none` is the answer if it was too small.
What the handlers keep in their object is the type `C`, the data of events is `D`.
-/

namespace EmbeddedMx

/-! ## Constants -/

def hsmEvExitState : Nat := 0x08
def hsmEvEnterState : Nat := 0x09

/-- The timers of a state machine. -/
inductive HsmTimerId
  | ms1
  | ms10
  | ms100
  | s1
  | s10
  | m1
deriving DecidableEq, Repr

/-- `HSM_TIMER_1MS` to `HSM_TIMER_1M` -/
def HsmTimerId.bit : HsmTimerId → BitVec 16
  | .ms1 => 0x01
  | .ms10 => 0x02
  | .ms100 => 0x04
  | .s1 => 0x08
  | .s10 => 0x10
  | .m1 => 0x20

/-- `HSM_EV_TIMER_1MS` to `HSM_EV_TIMER_1M` -/
def HsmTimerId.event : HsmTimerId → Nat
  | .ms1 => 0x0A
  | .ms10 => 0x0B
  | .ms100 => 0x0C
  | .s1 => 0x0D
  | .s10 => 0x0E
  | .m1 => 0x0F

/-- The period in milliseconds. -/
def HsmTimerId.period : HsmTimerId → Nat
  | .ms1 => 1
  | .ms10 => 10
  | .ms100 => 100
  | .s1 => 1000
  | .s10 => 10000
  | .m1 => 60000

/-- The order in which their events are sent. -/
def hsmTimerIds : List HsmTimerId := [.ms1, .ms10, .ms100, .s1, .s10, .m1]

/-! ## The state machine -/

/-- `struct hsm_timer` -/
structure HsmTimer where
  counter : Nat
  mask : BitVec 16
deriving DecidableEq, Repr

/-- `struct hsm` without its router. -/
structure Hsm (S : Type) where
  state : S
  current_state : S
  unwind : Int
  timer : HsmTimer
deriving DecidableEq, Repr

/-- What a handler returns: `HSM_HANDLED`, `HSM_IGNORED`, `HSM_SUPER`, `HSM_TRANS`. -/
inductive HsmRet (S : Type)
  | handled
  | ignored
  | super (new_state : S)
  | trans (new_state : S) (unwind_depth : Int)
deriving DecidableEq, Repr

/-- The calls that a handler makes about the timers. -/
inductive HsmTimerCall
  | reset
  | enable (mask : BitVec 16)
  | disable (mask : BitVec 16)
deriving DecidableEq, Repr

/-- What a handler does. -/
structure HsmReply (S C : Type) where
  container : C
  calls : List HsmTimerCall
  ret : HsmRet S

/-- `router`: the handlers of the states. A handler sees the state machine, its object,
the event and its data. -/
abbrev HsmRouter (S C D : Type) : Type := S → Hsm S → C → Nat → Option D → HsmReply S C

/-- Reset hsm timer, and disable all timers. -/
def hsmTimerInit : HsmTimer := { counter := 0, mask := 0 }

/-- Reset hsm timer. -/
def hsmTimerReset (self : HsmTimer) : HsmTimer := { self with counter := 0 }

/-- Enable hsm timers defined by the mask. -/
def hsmTimerEnable (self : HsmTimer) (mask : BitVec 16) : HsmTimer :=
  { self with mask := self.mask ||| mask }

/-- Disable hsm timers defined by the mask. -/
def hsmTimerDisable (self : HsmTimer) (mask : BitVec 16) : HsmTimer :=
  { self with mask := self.mask &&& ~~~mask }

def HsmTimerCall.exec (self : HsmTimer) : HsmTimerCall → HsmTimer
  | .reset => hsmTimerReset self
  | .enable mask => hsmTimerEnable self mask
  | .disable mask => hsmTimerDisable self mask

/-- What happens in `hsm_handle_event`: a handler is called and returns, or the timer is
set back. -/
inductive HsmAct (S : Type)
  | call (state : S) (ev : Nat) (ret : HsmRet S)
  | timerInit
deriving DecidableEq, Repr

/-- A state machine with the object of its handlers, and what has happened. -/
structure HsmRun (S C : Type) where
  hsm : Hsm S
  container : C
  acts : List (HsmAct S)

/-- What the return macros write. -/
def HsmRet.write {S : Type} (self : Hsm S) : HsmRet S → Hsm S
  | .handled => self
  | .ignored => self
  | .super new_state => { self with state := new_state }
  | .trans new_state unwind_depth => { self with state := new_state, unwind := unwind_depth }

section Functions

variable {S C D : Type} [DecidableEq S]

omit [DecidableEq S] in
/-- The handler of `state` is called. -/
def hsmCall (router : HsmRouter S C D) (x : HsmRun S C) (state : S) (ev : Nat) (data : Option D) :
    HsmRun S C × HsmRet S :=
  let r := router state x.hsm x.container ev data
  let hsm := { x.hsm with timer := r.calls.foldl HsmTimerCall.exec x.hsm.timer }
  ({ hsm := r.ret.write hsm, container := r.container, acts := x.acts ++ [.call state ev r.ret] },
    r.ret)

omit [DecidableEq S] in
/-- Send the event to the current state handler. If `HSM_RET_SUPER` is returned, the same
event will be sent to the parent state. -/
def hsmOffer (router : HsmRouter S C D) (ev : Nat) (data : Option D) :
    Nat → HsmRun S C → Option (HsmRun S C × HsmRet S)
  | 0, _ => none
  | n + 1, x =>
      let r := hsmCall router x x.hsm.state ev data
      match r.2 with
      | .super _ => hsmOffer router ev data n r.1
      | _ => some r

omit [DecidableEq S] in
/-- Continuously send EXIT event while state is unwound. -/
def hsmExit (router : HsmRouter S C D) : Nat → HsmRun S C → Option (HsmRun S C)
  | 0, _ => none
  | n + 1, x =>
      if x.hsm.unwind > 0 then
        let r := hsmCall router x x.hsm.state hsmEvExitState none
        let unwind := match r.2 with
          | .super _ => r.1.hsm.unwind - 1
          | _ => 0
        hsmExit router n { r.1 with hsm := { r.1.hsm with unwind := unwind } }
      else some x

omit [DecidableEq S] in
/-- The state that has been set becomes the current one, with a fresh timer, and its
handler is called. -/
def hsmEnterOnce (router : HsmRouter S C D) (x : HsmRun S C) : HsmRun S C × HsmRet S :=
  let x := { x with
    hsm := { x.hsm with current_state := x.hsm.state, timer := hsmTimerInit }
    acts := x.acts ++ [.timerInit] }
  hsmCall router x x.hsm.current_state hsmEvEnterState none

/-- Continuously send ENTER event while state is changed. -/
def hsmEnter (router : HsmRouter S C D) : Nat → HsmRun S C → Option (HsmRun S C)
  | 0, _ => none
  | n + 1, x =>
      let r := hsmEnterOnce router x
      match r.2 with
      | .trans _ _ =>
          if r.1.hsm.current_state ≠ r.1.hsm.state then hsmEnter router n r.1 else some r.1
      | _ => some r.1

/-- Distribute event within state machine. -/
def hsmHandleEvent (router : HsmRouter S C D) (n : Nat) (x : HsmRun S C) (ev : Nat)
    (data : Option D) : Option (HsmRun S C) :=
  let x := { x with hsm := { x.hsm with current_state := x.hsm.state } }
  (hsmOffer router ev data n x).bind fun (x, ret) =>
    let final := match ret with
      | .trans _ _ =>
          if x.hsm.current_state ≠ x.hsm.state then
            -- Save new state
            let new_state := x.hsm.state
            (hsmExit router n { x with hsm := { x.hsm with state := x.hsm.current_state } }).bind
              -- Restore new state
              fun x => hsmEnter router n { x with hsm := { x.hsm with state := new_state } }
          else some x
      | _ => some x
    -- Save final state
    final.map fun x => { x with hsm := { x.hsm with state := x.hsm.current_state } }

end Functions

/-! ## Timers -/

/-- The timer `t` is enabled. -/
def HsmTimer.Enabled (self : HsmTimer) (t : HsmTimerId) : Prop := self.mask &&& t.bit ≠ 0

instance (self : HsmTimer) (t : HsmTimerId) : Decidable (self.Enabled t) :=
  inferInstanceAs (Decidable (_ ≠ _))

/-- The ticks up to the next moment at which an enabled timer may be ready. -/
def hsmTimerTicks (self : HsmTimer) (time_lapse : Nat) : Nat :=
  let ticks :=
    if self.Enabled .ms1 then 1
    else if self.Enabled .ms10 then 10 - self.counter % 10
    else if self.Enabled .ms100 then 100 - self.counter % 100
    else 1000 - self.counter % 1000
  if time_lapse ≥ ticks then ticks else time_lapse

/-- The bit of `t` is set in `ready_mask` if it is ready. -/
def markReady (t : HsmTimerId) (ready : Prop) [Decidable ready] (ready_mask : BitVec 16) :
    BitVec 16 :=
  if ready then ready_mask ||| t.bit else ready_mask

/-- Find ready hsm timers, where an `unsigned long` has `bits` bits: the timer, the
remaining lapse, and the mask of the timers that are ready. -/
def hsmTimerCheck (bits : Nat) (self : HsmTimer) (time_lapse : Nat) :
    HsmTimer × Nat × BitVec 16 :=
  let ticks := hsmTimerTicks self time_lapse
  let self := { self with counter := (self.counter + ticks) % 2 ^ bits }
  let ready_mask := markReady .ms1 (self.Enabled .ms1) 0
  let ready_mask := markReady .ms10 (self.Enabled .ms10 ∧ self.counter % 10 = 0) ready_mask
  let ready_mask := markReady .ms100 (self.Enabled .ms100 ∧ self.counter % 100 = 0) ready_mask
  let ready_mask := markReady .s1 (self.Enabled .s1 ∧ self.counter % 1000 = 0) ready_mask
  let ready_mask := markReady .s10 (self.Enabled .s10 ∧ self.counter % 10000 = 0) ready_mask
  let ready_mask := markReady .m1 (self.Enabled .m1 ∧ self.counter % 60000 = 0) ready_mask
  (self, time_lapse - ticks, ready_mask)

end EmbeddedMx
