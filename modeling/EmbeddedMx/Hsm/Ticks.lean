import Mathlib.Data.List.Basic
import EmbeddedMx.Hsm.Dispatch
import EmbeddedMx.Lib.TSys

/-!
# Timer events (`hsm_handle_time`)

A lapse of time is worked off in ticks. Each of them moves the counter on to the next
moment that matters, finds which timers are ready then, and sends their events one after
the other. What is ready is found once for the whole tick: a handler that changes state,
sets the counter back or disables a timer does not take back an event that is still to be
sent.
-/

namespace EmbeddedMx

open EmbeddedMx.Lib

/-- `hsm_handle_time` at work: the lapse that remains, and the timers of this tick whose
events remain to be sent. -/
structure HsmTime (S C : Type) where
  run : HsmRun S C
  time_lapse : Nat
  ready : List HsmTimerId

/-- The timers of a mask, in the order of their events. -/
def readyTimers (ready_mask : BitVec 16) : List HsmTimerId :=
  hsmTimerIds.filter fun t => ready_mask &&& t.bit ≠ 0

section System

variable {S C D : Type} [DecidableEq S]

/-- A step: check timers until the time lapse is exhausted, or send the next event. -/
inductive HsmTimeStep (bits : Nat) (router : HsmRouter S C D) :
    HsmTime S C → HsmTime S C → Prop
  | check {x : HsmTime S C} {timer time_lapse ready_mask} : x.ready = [] → x.time_lapse > 0 →
      hsmTimerCheck bits x.run.hsm.timer x.time_lapse = (timer, time_lapse, ready_mask) →
      HsmTimeStep bits router x
        { run := { x.run with hsm := { x.run.hsm with timer := timer } }
          time_lapse := time_lapse
          ready := readyTimers ready_mask }
  | send {x : HsmTime S C} {t rest n run} : x.ready = t :: rest →
      hsmHandleEvent router n x.run t.event none = some run →
      HsmTimeStep bits router x { x with run := run, ready := rest }

/-- A call of `hsm_handle_time`, where an `unsigned long` has `bits` bits. -/
def hsmHandleTime (bits : Nat) (router : HsmRouter S C D) (run : HsmRun S C) (time_lapse : Nat) :
    TSys (HsmTime S C) Unit where
  init x := x = { run := run, time_lapse := time_lapse, ready := [] }
  step x _ x' := HsmTimeStep bits router x x'

/-- `hsm->timer` -/
abbrev HsmTime.timer {S C : Type} (x : HsmTime S C) : HsmTimer := x.run.hsm.timer

/-- The state machine asks for the event of `t` now. -/
def HsmTimer.AsksFor (self : HsmTimer) (t : HsmTimerId) : Prop :=
  self.Enabled t ∧ 0 < self.counter ∧ t.period ∣ self.counter

/-! ## The counter -/

omit [DecidableEq S] in
theorem calls_counter (calls : List HsmTimerCall) (timer : HsmTimer) :
    (calls.foldl HsmTimerCall.exec timer).counter =
      if HsmTimerCall.reset ∈ calls then 0 else timer.counter := by
  induction calls generalizing timer with
  | nil => rfl
  | cons call calls ih =>
      rw [List.foldl_cons, ih]
      cases call <;> simp [HsmTimerCall.exec, hsmTimerReset, hsmTimerEnable, hsmTimerDisable]

variable (router : HsmRouter S C D)

omit [DecidableEq S] in
theorem hsmCall_timer (x : HsmRun S C) (s : S) (ev : Nat) (data : Option D) :
    (hsmCall router x s ev data).1.hsm.timer =
      (router s x.hsm x.container ev data).calls.foldl HsmTimerCall.exec x.hsm.timer := by
  unfold hsmCall
  dsimp only
  cases (router s x.hsm x.container ev data).ret <;> rfl

omit [DecidableEq S] in
/-- Handlers do not count. -/
theorem hsmCall_counter (x : HsmRun S C) (s : S) (ev : Nat) (data : Option D) :
    (hsmCall router x s ev data).1.hsm.timer.counter =
      if HsmTimerCall.reset ∈ (router s x.hsm x.container ev data).calls then 0
      else x.hsm.timer.counter := by
  rw [hsmCall_timer, calls_counter]

omit [DecidableEq S] in
theorem hsmCall_current_state (x : HsmRun S C) (s : S) (ev : Nat) (data : Option D) :
    (hsmCall router x s ev data).1.hsm.current_state = x.hsm.current_state := by
  unfold hsmCall
  dsimp only
  cases (router s x.hsm x.container ev data).ret <;> rfl

variable {router}

omit [DecidableEq S] in
theorem hsmCall_trans {x : HsmRun S C} {s t : S} {ev : Nat} {data : Option D} {depth : Int}
    (h : (hsmCall router x s ev data).2 = .trans t depth) :
    (hsmCall router x s ev data).1.hsm.state = t := by
  unfold hsmCall at h ⊢
  dsimp only at h ⊢
  rw [h]
  rfl

omit [DecidableEq S] in
theorem hsmOffer_counter {ev n : Nat} {data : Option D} {x x' : HsmRun S C} {ret : HsmRet S}
    (hoffer : hsmOffer router ev data n x = some (x', ret)) :
    x'.hsm.timer.counter = x.hsm.timer.counter ∨ x'.hsm.timer.counter = 0 := by
  induction n generalizing x with
  | zero => cases hoffer
  | succ n ih =>
      have hcall : (hsmCall router x x.hsm.state ev data).1.hsm.timer.counter =
          x.hsm.timer.counter ∨
          (hsmCall router x x.hsm.state ev data).1.hsm.timer.counter = 0 := by
        rw [hsmCall_counter]
        exact (ite_eq_or_eq _ _ _).symm
      rw [hsmOffer] at hoffer
      split at hoffer
      · rcases ih hoffer with heq | hzero
        · rw [heq]
          exact hcall
        · exact .inr hzero
      · injection hoffer with hoffer
        rw [hoffer] at hcall
        exact hcall

omit [DecidableEq S] in
/-- A counter that has been set back stays at 0 while the event is offered. -/
theorem hsmOffer_zero {ev n : Nat} {data : Option D} {x x' : HsmRun S C} {ret : HsmRet S}
    (h : x.hsm.timer.counter = 0) (hoffer : hsmOffer router ev data n x = some (x', ret)) :
    x'.hsm.timer.counter = 0 := by
  rcases hsmOffer_counter hoffer with heq | hzero
  · exact heq.trans h
  · exact hzero

omit [DecidableEq S] in
theorem hsmOffer_current_state {ev n : Nat} {data : Option D} {x x' : HsmRun S C} {ret : HsmRet S}
    (hoffer : hsmOffer router ev data n x = some (x', ret)) :
    x'.hsm.current_state = x.hsm.current_state := by
  induction n generalizing x with
  | zero => cases hoffer
  | succ n ih =>
      have hcall := hsmCall_current_state router x x.hsm.state ev data
      rw [hsmOffer] at hoffer
      split at hoffer
      · exact (ih hoffer).trans hcall
      · injection hoffer with hoffer
        rw [hoffer] at hcall
        exact hcall

omit [DecidableEq S] in
theorem hsmOffer_trans {ev n : Nat} {data : Option D} {x x' : HsmRun S C} {ret : HsmRet S}
    (hoffer : hsmOffer router ev data n x = some (x', ret)) :
    ∀ s depth, ret = .trans s depth → x'.hsm.state = s := by
  intro s depth hret
  induction n generalizing x with
  | zero => cases hoffer
  | succ n ih =>
      rw [hsmOffer] at hoffer
      split at hoffer
      · exact ih hoffer
      · injection hoffer with hoffer
        have hcall : (hsmCall router x x.hsm.state ev data).2 = .trans s depth := by
          rw [hoffer]
          exact hret
        have hstate := hsmCall_trans hcall
        rw [hoffer] at hstate
        exact hstate

/-- The state that is entered last begins to count at 0. -/
theorem hsmEnter_counter {n : Nat} {x x' : HsmRun S C} (h : hsmEnter router n x = some x') :
    x'.hsm.timer.counter = 0 := by
  induction n generalizing x with
  | zero => cases h
  | succ n ih =>
      have honce : (hsmEnterOnce router x).1.hsm.timer.counter = 0 := by
        unfold hsmEnterOnce
        rw [hsmCall_counter]
        exact ite_self 0
      rw [hsmEnter] at h
      split at h
      · split at h
        · exact ih h
        · injection h with h
          exact h ▸ honce
      · injection h with h
        exact h ▸ honce

/-! ## What the handlers do -/

/-- The handlers that the event is offered to leave the timer `t` to its event: none of
them sets the counter back, the last of them stays in the state, and `t` is enabled after
it. -/
inductive Spares (router : HsmRouter S C D) (ev : Nat) (data : Option D) (t : HsmTimerId) :
    HsmRun S C → Prop
  | last {x : HsmRun S C} : (hsmCall router x x.hsm.state ev data).2.Stays →
      .reset ∉ (router x.hsm.state x.hsm x.container ev data).calls →
      (∀ s depth, (hsmCall router x x.hsm.state ev data).2 = .trans s depth →
        s = x.hsm.current_state) →
      (hsmCall router x x.hsm.state ev data).1.hsm.timer.Enabled t → Spares router ev data t x
  | up {x : HsmRun S C} {p} : (hsmCall router x x.hsm.state ev data).2 = .super p →
      .reset ∉ (router x.hsm.state x.hsm x.container ev data).calls →
      Spares router ev data t (hsmCall router x x.hsm.state ev data).1 → Spares router ev data t x

omit [DecidableEq S] in
theorem Spares.counter {ev n : Nat} {data : Option D} {t : HsmTimerId} {x x' : HsmRun S C}
    {ret : HsmRet S} (h : Spares router ev data t x)
    (hoffer : hsmOffer router ev data n x = some (x', ret)) :
    x'.hsm.timer.counter = x.hsm.timer.counter ∧ x'.hsm.timer.Enabled t ∧
      ∀ s depth, ret = .trans s depth → s = x.hsm.current_state := by
  induction h generalizing n with
  | @last x hstays hreset htrans henabled =>
      cases n with
      | zero => cases hoffer
      | succ n =>
          rw [hsmOffer_stays hstays] at hoffer
          injection hoffer with hoffer
          have hcounter := hsmCall_counter router x x.hsm.state ev data
          rw [if_neg hreset] at hcounter
          rw [hoffer] at hcounter htrans henabled
          exact ⟨hcounter, henabled, htrans⟩
  | @up x p hsuper hreset _ ih =>
      cases n with
      | zero => cases hoffer
      | succ n =>
          rw [hsmOffer_super hsuper] at hoffer
          have hkept := ih hoffer
          rw [hsmCall_counter, if_neg hreset, hsmCall_current_state] at hkept
          exact hkept

omit [DecidableEq S] in
/-- If the counter has not been set back and the state has not been left, then the handlers
have not done either. -/
theorem hsmOffer_spares {ev n : Nat} {data : Option D} {t : HsmTimerId} {x x' : HsmRun S C}
    {ret : HsmRet S} (hoffer : hsmOffer router ev data n x = some (x', ret))
    (hpos : 0 < x'.hsm.timer.counter) (henabled : x'.hsm.timer.Enabled t)
    (htrans : ∀ s depth, ret = .trans s depth → s = x.hsm.current_state) :
    Spares router ev data t x := by
  induction n generalizing x with
  | zero => cases hoffer
  | succ n ih =>
      have hreset : .reset ∉ (router x.hsm.state x.hsm x.container ev data).calls := by
        intro hreset
        have hcall := hsmCall_counter router x x.hsm.state ev data
        rw [if_pos hreset] at hcall
        rw [hsmOffer] at hoffer
        split at hoffer
        · exact hpos.ne' (hsmOffer_zero hcall hoffer)
        · injection hoffer with hoffer
          rw [hoffer] at hcall
          exact hpos.ne' hcall
      by_cases hstays : (hsmCall router x x.hsm.state ev data).2.Stays
      · rw [hsmOffer_stays hstays] at hoffer
        injection hoffer with hoffer
        refine .last hstays hreset ?_ ?_
        · rw [hoffer]
          exact htrans
        · rw [hoffer]
          exact henabled
      · unfold HsmRet.Stays at hstays
        push Not at hstays
        obtain ⟨p, hsuper⟩ := hstays
        rw [hsmOffer_super hsuper] at hoffer
        refine .up hsuper hreset (ih hoffer ?_)
        rw [hsmCall_current_state]
        exact htrans

/-- An event is handled without setting the counter back, and leaves `t` enabled, if and
only if the handlers that it is offered to leave the timer `t` to its event. -/
theorem hsmHandleEvent_spares {ev n : Nat} {data : Option D} {t : HsmTimerId} {x x' : HsmRun S C}
    (h : hsmHandleEvent router n x ev data = some x') (hpos : 0 < x.hsm.timer.counter) :
    Spares router ev data t { x with hsm := { x.hsm with current_state := x.hsm.state } } ↔
      0 < x'.hsm.timer.counter ∧ x'.hsm.timer.Enabled t := by
  unfold hsmHandleEvent at h
  dsimp only at h
  rw [Option.bind_eq_some_iff] at h
  obtain ⟨⟨x₁, ret⟩, hoffer, h⟩ := h
  obtain ⟨x₂, hfinal, rfl⟩ := Option.map_eq_some_iff.mp h
  have hcurrent := hsmOffer_current_state hoffer
  have hstate : ∀ s depth, ret = .trans s depth → x₁.hsm.state = s := hsmOffer_trans hoffer
  by_cases htrans : ∀ s depth, ret = .trans s depth → s = x.hsm.state
  · -- no change of state: the timer is the one that the handlers have left
    have hsame : x₂ = x₁ := by
      cases ret with
      | trans s depth =>
          dsimp only at hfinal
          rw [if_neg (not_not.mpr (hcurrent.trans
            ((hstate s depth rfl).trans (htrans s depth rfl)).symm))] at hfinal
          injection hfinal with hfinal
          exact hfinal.symm
      | _ =>
          injection hfinal with hfinal
          exact hfinal.symm
    subst hsame
    constructor
    · intro hspares
      obtain ⟨hcounter, henabled, -⟩ := hspares.counter hoffer
      exact ⟨hcounter ▸ hpos, henabled⟩
    · rintro ⟨hpos', henabled⟩
      exact hsmOffer_spares hoffer hpos' henabled htrans
  · -- the state has changed: the counter is at 0
    have hne : x₁.hsm.current_state ≠ x₁.hsm.state := by
      intro heq
      refine htrans fun s depth hret => ?_
      rw [← hstate s depth hret, ← heq]
      exact hcurrent
    constructor
    · intro hspares
      exact absurd (hspares.counter hoffer).2.2 htrans
    · rintro ⟨hpos', -⟩
      cases ret with
      | trans s depth =>
          dsimp only at hfinal
          rw [if_pos hne] at hfinal
          obtain ⟨x₃, -, henter⟩ := Option.bind_eq_some_iff.mp hfinal
          exact absurd (hsmEnter_counter henter) hpos'.ne'
      | _ => exact absurd nofun htrans

/-- The counter is the same afterwards, or it has been set back. -/
theorem hsmHandleEvent_counter {ev n : Nat} {data : Option D} {x x' : HsmRun S C}
    (h : hsmHandleEvent router n x ev data = some x') :
    x'.hsm.timer.counter = x.hsm.timer.counter ∨ x'.hsm.timer.counter = 0 := by
  unfold hsmHandleEvent at h
  dsimp only at h
  rw [Option.bind_eq_some_iff] at h
  obtain ⟨⟨x₁, ret⟩, hoffer, h⟩ := h
  obtain ⟨x₂, hfinal, rfl⟩ := Option.map_eq_some_iff.mp h
  have hkept := hsmOffer_counter hoffer
  show x₂.hsm.timer.counter = x.hsm.timer.counter ∨ x₂.hsm.timer.counter = 0
  cases ret with
  | trans s depth =>
      dsimp only at hfinal
      split at hfinal
      · obtain ⟨x₃, -, henter⟩ := Option.bind_eq_some_iff.mp hfinal
        exact .inr (hsmEnter_counter henter)
      · injection hfinal with hfinal
        exact hfinal ▸ hkept
  | _ =>
      injection hfinal with hfinal
      exact hfinal ▸ hkept

/-! ## The timers of a tick -/

theorem markReady_bit (t u : HsmTimerId) (ready : Prop) [Decidable ready] (m : BitVec 16) :
    markReady u ready m &&& t.bit ≠ 0 ↔ m &&& t.bit ≠ 0 ∨ (ready ∧ u = t) := by
  have hbit : u.bit &&& t.bit = 0 ↔ u ≠ t := by
    cases u <;> cases t <;> decide
  have hor : (m ||| u.bit) &&& t.bit = (m &&& t.bit) ||| (u.bit &&& t.bit) := by
    ext i hi
    simp [Bool.and_or_distrib_right]
  unfold markReady
  by_cases hready : ready
  · have hzero : (m &&& t.bit) ||| (u.bit &&& t.bit) = 0 ↔ m &&& t.bit = 0 ∧ u.bit &&& t.bit = 0 :=
      BitVec.or_eq_zero_iff
    rw [if_pos hready, hor, ne_eq, hzero, hbit]
    simp only [hready, true_and]
    tauto
  · rw [if_neg hready]
    simp [hready]

/-- Ready are the enabled timers whose period divides the counter. -/
theorem hsmTimerCheck_ready {bits time_lapse lapse' : Nat} {self self' : HsmTimer}
    {ready_mask : BitVec 16}
    (h : hsmTimerCheck bits self time_lapse = (self', lapse', ready_mask)) (t : HsmTimerId) :
    t ∈ readyTimers ready_mask ↔ self'.Enabled t ∧ t.period ∣ self'.counter := by
  unfold hsmTimerCheck at h
  injection h with hself h
  injection h with _ hmask
  subst hself
  have hmem : t ∈ hsmTimerIds := by
    cases t <;> decide
  unfold readyTimers
  rw [List.mem_filter, decide_eq_true_iff, ← hmask]
  have hnone : ¬ (0 : BitVec 16) &&& t.bit ≠ 0 := not_not.mpr BitVec.zero_and
  simp only [markReady_bit, hmem, hnone, true_and, false_or]
  cases t with
  | ms1 => simp [HsmTimerId.period]
  | _ => simp [HsmTimerId.period, Nat.dvd_iff_mod_eq_zero]

/-- The counter moves on. -/
theorem hsmTimerCheck_counter {bits time_lapse lapse' : Nat} {self self' : HsmTimer}
    {ready_mask : BitVec 16}
    (h : hsmTimerCheck bits self time_lapse = (self', lapse', ready_mask)) :
    self'.counter = (self.counter + hsmTimerTicks self time_lapse) % 2 ^ bits ∧
      self'.mask = self.mask := by
  unfold hsmTimerCheck at h
  injection h with hself h
  exact ⟨hself ▸ rfl, hself ▸ rfl⟩

/-! ## The events of a tick -/

/-- The next step takes no event back: a check for ready timers does not find the counter at
0 while a timer is enabled (an overrun), and the handlers of an event that is not the last
one of its tick leave the next timer to its event. -/
def HsmTime.Proceeds (bits : Nat) (router : HsmRouter S C D) (x : HsmTime S C) : Prop :=
  (x.ready = [] → x.time_lapse > 0 → ∀ t, x.timer.Enabled t →
    (x.timer.counter + hsmTimerTicks x.timer x.time_lapse) % 2 ^ bits ≠ 0) ∧
  ∀ t t' rest n run, x.ready = t :: t' :: rest →
    hsmHandleEvent router n x.run t.event none = some run →
    Spares router t.event none t'
      { x.run with hsm := { x.run.hsm with current_state := x.run.hsm.state } }

/-- The counter is a positive multiple of the periods of the timers whose events remain to
be sent, and the first of them is enabled. -/
structure HsmTime.InTick (x : HsmTime S C) : Prop where
  divides : ∀ t ∈ x.ready, 0 < x.timer.counter ∧ t.period ∣ x.timer.counter
  enabled : ∀ t rest, x.ready = t :: rest → x.timer.Enabled t

variable {bits : Nat}

theorem HsmTime.InTick.step {x x' : HsmTime S C} (h : x.InTick) (hproceeds : x.Proceeds bits router)
    (hstep : HsmTimeStep bits router x x') : x'.InTick := by
  cases hstep with
  | @check timer time_lapse ready_mask hready hlapse hcheck =>
      have hmem := hsmTimerCheck_ready hcheck
      obtain ⟨hcounter, hmask⟩ := hsmTimerCheck_counter hcheck
      refine ⟨fun t ht => ?_, fun t rest hrest => ?_⟩
      · obtain ⟨henabled, hdvd⟩ := (hmem t).mp ht
        refine ⟨Nat.pos_of_ne_zero ?_, hdvd⟩
        show timer.counter ≠ 0
        rw [hcounter]
        refine hproceeds.1 hready hlapse t ?_
        unfold HsmTimer.Enabled at henabled ⊢
        rw [hmask] at henabled
        exact henabled
      · have ht : t ∈ readyTimers ready_mask := by
          rw [show readyTimers ready_mask = t :: rest from hrest]
          exact List.mem_cons_self
        exact ((hmem t).mp ht).1
  | @send t rest n run hready hevent =>
      have hpos := (h.divides t (by rw [hready]; exact List.mem_cons_self)).1
      have hspares : ∀ t' rest', rest = t' :: rest' →
          run.hsm.timer.counter = x.timer.counter ∧ run.hsm.timer.Enabled t' := by
        intro t' rest' hrest
        have hspares := hproceeds.2 t t' rest' n run (hready.trans (by rw [hrest])) hevent
        obtain ⟨hpos', henabled⟩ := (hsmHandleEvent_spares hevent hpos).mp hspares
        rcases hsmHandleEvent_counter hevent with hcounter | hcounter
        · exact ⟨hcounter, henabled⟩
        · exact absurd hcounter hpos'.ne'
      refine ⟨fun u hu => ?_, fun t' rest' hrest => (hspares t' rest' hrest).2⟩
      show 0 < run.hsm.timer.counter ∧ u.period ∣ run.hsm.timer.counter
      obtain ⟨t', rest', hrest⟩ := List.exists_cons_of_ne_nil (List.ne_nil_of_mem hu)
      rw [(hspares t' rest' hrest).1]
      refine h.divides u ?_
      rw [hready]
      exact List.mem_cons_of_mem _ hu

/-- **Timer events reach states that asked for them**, in a call of `hsm_handle_time`, if
and only if each of its steps proceeds: the counter is not overrun to exactly 0, and the
handlers of an event neither change the state nor set the counter back nor leave the next
timer disabled while the event of a further timer of the same tick is to be sent. -/
theorem hsm_timer_events_asked_for (bits : Nat) (router : HsmRouter S C D) (run : HsmRun S C)
    (time_lapse : Nat) :
    (∀ x : HsmTime S C, (hsmHandleTime bits router run time_lapse).Reachable x →
      ∀ (t : HsmTimerId) (rest : List HsmTimerId), x.ready = t :: rest → x.timer.AsksFor t) ↔
    ∀ x : HsmTime S C, (hsmHandleTime bits router run time_lapse).Reachable x →
      x.Proceeds bits router := by
  constructor
  · intro hasks x hreach
    refine ⟨fun hready hlapse t henabled hzero => ?_, fun t t' rest n run' hready hevent => ?_⟩
    · -- at an overrun the enabled timer would be ready
      let c := hsmTimerCheck bits x.timer x.time_lapse
      have hcheck : hsmTimerCheck bits x.timer x.time_lapse = (c.1, c.2.1, c.2.2) := rfl
      obtain ⟨hcounter, hmask⟩ := hsmTimerCheck_counter hcheck
      rw [hzero] at hcounter
      have ht : t ∈ readyTimers c.2.2 := by
        refine (hsmTimerCheck_ready hcheck t).mpr ⟨?_, ?_⟩
        · unfold HsmTimer.Enabled at henabled ⊢
          rw [hmask]
          exact henabled
        · rw [hcounter]
          exact Nat.dvd_zero _
      obtain ⟨u, rest, hrest⟩ := List.exists_cons_of_ne_nil (List.ne_nil_of_mem ht)
      have hasked := hasks _ (hreach.step (i := ()) (.check hready hlapse hcheck)) u rest hrest
      exact hasked.2.1.ne' hcounter
    · have hpos := (hasks x hreach t _ hready).2.1
      have hasked := hasks _ (hreach.step (i := ()) (.send hready hevent)) t' rest rfl
      exact (hsmHandleEvent_spares hevent hpos).mpr ⟨hasked.2.1, hasked.1⟩
  · intro hproceeds x hreach
    have htick : x.InTick := by
      induction hreach with
      | init hinit =>
          rw [show _ = _ from hinit]
          exact ⟨fun t ht => absurd ht List.not_mem_nil, nofun⟩
      | step hreach hstep ih => exact ih.step (hproceeds _ hreach) hstep
    intro t rest hready
    obtain ⟨hpos, hdvd⟩ := htick.divides t (by rw [hready]; exact List.mem_cons_self)
    exact ⟨htick.enabled t rest hready, hpos, hdvd⟩

end System

/-! ## A state that is left with a tick -/

/-- The event of the 1 ms timer leads from state `false` to state `true`. -/
def leaveOnTick : HsmRouter Bool Unit Unit := fun s _ _ ev _ =>
  { container := ()
    calls := []
    ret := if ev = HsmTimerId.ms1.event ∧ s = false then .trans true 0 else .handled }

/-- Both timers of the state `false` are ready at 10 ms. The event of the second one goes to
the state `true`, which has not enabled any timer. -/
theorem hsm_timer_event_after_transition :
    let run : HsmRun Bool Unit :=
      ⟨⟨false, false, 0, ⟨9, HsmTimerId.ms1.bit ||| HsmTimerId.ms10.bit⟩⟩, (), []⟩
    ∃ x : HsmTime Bool Unit, (hsmHandleTime 32 leaveOnTick run 1).Reachable x ∧
      x.ready = [.ms10] ∧ x.run.hsm.state = true ∧ x.timer = ⟨0, 0⟩ ∧ ¬ x.timer.AsksFor .ms10 := by
  intro run
  let x₀ : HsmTime Bool Unit := ⟨run, 1, []⟩
  let x₁ : HsmTime Bool Unit :=
    ⟨{ run with hsm := { run.hsm with timer := ⟨10, HsmTimerId.ms1.bit ||| HsmTimerId.ms10.bit⟩ } },
      0, [.ms1, .ms10]⟩
  have hcheck : HsmTimeStep 32 leaveOnTick x₀ x₁ := by
    have hcheck : hsmTimerCheck 32 x₀.timer x₀.time_lapse =
        (x₁.timer, 0, HsmTimerId.ms1.bit ||| HsmTimerId.ms10.bit) := by decide
    exact .check rfl Nat.one_pos hcheck
  let run₂ : HsmRun Bool Unit :=
    ⟨⟨true, true, 0, ⟨0, 0⟩⟩, (),
    [.call false 10 (.trans true 0), .timerInit, .call true 9 .handled]⟩
  have hsend : HsmTimeStep 32 leaveOnTick x₁ { x₁ with run := run₂, ready := [.ms10] } :=
    .send (n := 3) rfl rfl
  refine ⟨_, (TSys.Reachable.init rfl).step (i := ()) hcheck |>.step (i := ()) hsend, rfl, rfl,
      rfl, ?_⟩
  intro h
  exact h.2.1.ne' rfl

end EmbeddedMx
