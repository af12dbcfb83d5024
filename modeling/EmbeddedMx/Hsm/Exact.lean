import Mathlib.Algebra.GroupWithZero.Nat
import Mathlib.Data.List.Basic
import EmbeddedMx.Hsm.Ticks

/-!
# Timer events are exact (`hsm_handle_time`)

While the handlers leave the timer alone, a call works off the moments of its lapse one
after the other, but it does not stop at each of them: it jumps to the next multiple of the
smallest enabled period, or of a second. Every enabled period is a multiple of that, so no
moment of an event is jumped over, and the last jump is cut off at the end of the lapse.
-/

namespace EmbeddedMx

open EmbeddedMx.Lib

/-! ## The events of a lapse -/

/-- The timers whose events are due when the counter is at `t`, shortest period first. -/
def dueTimers (mask : BitVec 16) (t : Nat) : List HsmTimerId :=
  hsmTimerIds.filter fun u => mask &&& u.bit ≠ 0 ∧ u.period ∣ t

/-- The events that are due while the counter goes from `c` to `c + lapse`, each with its
moment. -/
def dueEvents (mask : BitVec 16) (c lapse : Nat) : List (Nat × HsmTimerId) :=
  (List.range' (c + 1) lapse).flatMap fun t => (dueTimers mask t).map fun u => (t, u)

theorem dueEvents_add (mask : BitVec 16) (c l₁ l₂ : Nat) :
    dueEvents mask c (l₁ + l₂) = dueEvents mask c l₁ ++ dueEvents mask (c + l₁) l₂ := by
  unfold dueEvents
  rw [← List.flatMap_append, Nat.add_right_comm, ← List.range'_append_1]

/-- Every pair of a moment of the lapse and an enabled timer whose period divides it. -/
theorem mem_dueEvents {mask : BitVec 16} {c lapse : Nat} {e : Nat × HsmTimerId} :
    e ∈ dueEvents mask c lapse ↔
      c < e.1 ∧ e.1 ≤ c + lapse ∧ mask &&& e.2.bit ≠ 0 ∧ e.2.period ∣ e.1 := by
  have hmem : e.2 ∈ hsmTimerIds := by
    cases e.2 <;> decide
  simp only [dueEvents, dueTimers, List.mem_flatMap, List.mem_range'_1, List.mem_map,
    List.mem_filter, decide_eq_true_iff]
  constructor
  · rintro ⟨t, ht, u, ⟨-, henabled, hdvd⟩, rfl⟩
    exact ⟨by omega, by omega, henabled, hdvd⟩
  · rintro ⟨hlow, hhigh, henabled, hdvd⟩
    exact ⟨e.1, by omega, e.2, ⟨hmem, henabled, hdvd⟩, rfl⟩

/-- A smaller one of two moments comes first, and of two timers at the same moment the one
with the shorter period. -/
theorem dueEvents_sorted (mask : BitVec 16) (c lapse : Nat) :
    (dueEvents mask c lapse).Pairwise fun e e' =>
      e.1 < e'.1 ∨ e.1 = e'.1 ∧ e.2.period < e'.2.period := by
  have hids : hsmTimerIds.Pairwise fun u u' => u.period < u'.period := by decide
  unfold dueEvents
  refine List.pairwise_flatMap.mpr ⟨fun t _ => ?_, ?_⟩
  · refine List.pairwise_map.mpr ((hids.sublist List.filter_sublist).imp ?_)
    exact fun hlt => .inr ⟨rfl, hlt⟩
  · refine List.Pairwise.imp ?_ List.pairwise_lt_range'
    intro t t' hlt e he e' he'
    obtain ⟨u, -, rfl⟩ := List.mem_map.mp he
    obtain ⟨u', -, rfl⟩ := List.mem_map.mp he'
    exact .inl hlt

/-! ## Jumps -/

/-- A jump goes to the next multiple of a number that divides all enabled periods, or to the
end of the lapse. -/
theorem hsmTimerTicks_spec (self : HsmTimer) (time_lapse : Nat) :
    ∃ g, 0 < g ∧ hsmTimerTicks self time_lapse = min time_lapse (g - self.counter % g) ∧
      ∀ u, self.Enabled u → g ∣ u.period := by
  have hmin : ∀ g, (if time_lapse ≥ g then g else time_lapse) = min time_lapse g := fun g => by
    split <;> omega
  unfold hsmTimerTicks
  dsimp only
  rw [hmin]
  by_cases h1 : self.Enabled .ms1
  · rw [if_pos h1]
    exact ⟨1, Nat.one_pos, by rw [Nat.mod_one], fun u _ => Nat.one_dvd _⟩
  · rw [if_neg h1]
    by_cases h10 : self.Enabled .ms10
    · rw [if_pos h10]
      refine ⟨10, by decide, rfl, fun u hu => ?_⟩
      cases u with
      | ms1 => exact absurd hu h1
      | _ => decide
    · rw [if_neg h10]
      by_cases h100 : self.Enabled .ms100
      · rw [if_pos h100]
        refine ⟨100, by decide, rfl, fun u hu => ?_⟩
        cases u with
        | ms1 => exact absurd hu h1
        | ms10 => exact absurd hu h10
        | _ => decide
      · rw [if_neg h100]
        refine ⟨1000, by decide, rfl, fun u hu => ?_⟩
        cases u with
        | ms1 => exact absurd hu h1
        | ms10 => exact absurd hu h10
        | ms100 => exact absurd hu h100
        | _ => decide

/-- Before the end of a jump no event is due. -/
theorem dueTimers_jump {self : HsmTimer} {time_lapse t : Nat} (hlow : self.counter < t)
    (hhigh : t < self.counter + hsmTimerTicks self time_lapse) : dueTimers self.mask t = [] := by
  obtain ⟨g, hg, hticks, hperiods⟩ := hsmTimerTicks_spec self time_lapse
  rw [hticks] at hhigh
  refine List.filter_eq_nil_iff.mpr fun u _ hu => ?_
  obtain ⟨henabled, hdvd⟩ := of_decide_eq_true hu
  obtain ⟨j, hj⟩ := Nat.dvd_trans (hperiods u henabled) hdvd
  -- t would be a multiple between two successive ones
  have hdiv := Nat.div_add_mod self.counter g
  have hlt := Nat.mod_lt self.counter hg
  have hnext : t < g * (self.counter / g + 1) := by
    rw [Nat.mul_add, Nat.mul_one]
    omega
  have hlast : g * (self.counter / g) < t := by omega
  rw [hj] at hnext hlast
  have h₁ := Nat.lt_of_mul_lt_mul_left hnext
  have h₂ := Nat.lt_of_mul_lt_mul_left hlast
  omega

/-- The events of a jump are those that are ready at its end. -/
theorem hsmTimerCheck_due {bits time_lapse lapse' : Nat} {self self' : HsmTimer}
    {ready_mask : BitVec 16}
    (h : hsmTimerCheck bits self time_lapse = (self', lapse', ready_mask))
    (hlapse : 0 < time_lapse) (hfits : self.counter + time_lapse < 2 ^ bits) :
    ∃ ticks, 0 < ticks ∧ lapse' + ticks = time_lapse ∧ self'.counter = self.counter + ticks ∧
      self'.mask = self.mask ∧
      dueEvents self.mask self.counter ticks =
        (readyTimers ready_mask).map fun u => (self'.counter, u) := by
  obtain ⟨g, hg, hticks, -⟩ := hsmTimerTicks_spec self time_lapse
  have hmod := Nat.mod_lt self.counter hg
  have hle : hsmTimerTicks self time_lapse ≤ time_lapse := by omega
  have hpos : 0 < hsmTimerTicks self time_lapse := by omega
  obtain ⟨hcounter, hmask⟩ := hsmTimerCheck_counter h
  rw [Nat.mod_eq_of_lt (by omega)] at hcounter
  have hrest : lapse' = time_lapse - hsmTimerTicks self time_lapse := by
    unfold hsmTimerCheck at h
    injection h with _ h
    injection h with h _
    exact h.symm
  refine ⟨hsmTimerTicks self time_lapse, hpos, by omega, hcounter, hmask, ?_⟩
  have hready : readyTimers ready_mask = dueTimers self.mask self'.counter := by
    refine List.filter_congr fun u hu => ?_
    have hiff := hsmTimerCheck_ready h u
    unfold readyTimers HsmTimer.Enabled at hiff
    rw [List.mem_filter, and_iff_right hu, decide_eq_true_iff, hmask] at hiff
    exact decide_eq_decide.mpr hiff
  obtain ⟨k, hk⟩ := Nat.exists_eq_add_of_lt hpos
  rw [Nat.zero_add] at hk
  have hbefore : dueEvents self.mask self.counter k = [] := by
    refine List.flatMap_eq_nil_iff.mpr fun t ht => ?_
    rw [List.mem_range'_1] at ht
    have hjump : t < self.counter + hsmTimerTicks self time_lapse := by omega
    rw [dueTimers_jump (by omega) hjump]
    rfl
  rw [hk, dueEvents_add, hbefore, List.nil_append, hready, hcounter, hk, ← Nat.add_assoc]
  show ([self.counter + k + 1].flatMap fun t => (dueTimers self.mask t).map fun u => (t, u)) = _
  rw [List.flatMap_singleton]

section System

variable {S C D : Type} [DecidableEq S]

/-- Every event of a call of `hsm_handle_time` is handled, and its handlers leave the timer as
it was. (They have then left the state too: a change of state sets the timer back.) -/
def LeavesTimer (bits : Nat) (router : HsmRouter S C D) (run : HsmRun S C) (time_lapse : Nat) :
    Prop :=
  ∀ x : HsmTime S C, (hsmHandleTime bits router run time_lapse).Reachable x →
    ∀ (t : HsmTimerId) (rest : List HsmTimerId), x.ready = t :: rest →
      (∃ n run', hsmHandleEvent router n x.run t.event none = some run') ∧
      ∀ n run', hsmHandleEvent router n x.run t.event none = some run' → run'.hsm.timer = x.timer

/-- The events that have been sent in the steps of a run, each with the counter at which it was
sent. -/
def sentEvents (steps : List (HsmTime S C × Unit)) : List (Nat × HsmTimerId) :=
  steps.flatMap fun (x, _) => x.ready.head?.toList.map fun u => (x.timer.counter, u)

/-- A call of `hsm_handle_time` has come to its end, and has sent `events`. -/
def HandlesTime (bits : Nat) (router : HsmRouter S C D) (run : HsmRun S C) (time_lapse : Nat)
    (run' : HsmRun S C) (events : List (Nat × HsmTimerId)) : Prop :=
  ∃ steps, (hsmHandleTime bits router run time_lapse).recorded.Reachable (⟨run', 0, []⟩, steps) ∧
    sentEvents steps = events

/-- Calls of `hsm_handle_time` one after the other, and all their events. -/
inductive HandlesTimes (bits : Nat) (router : HsmRouter S C D) :
    HsmRun S C → List Nat → HsmRun S C → List (Nat × HsmTimerId) → Prop
  | nil {run} : HandlesTimes bits router run [] run []
  | cons {run time_lapse run₁ events lapses run₂ events'} :
      HandlesTime bits router run time_lapse run₁ events →
      HandlesTimes bits router run₁ lapses run₂ events' →
      HandlesTimes bits router run (time_lapse :: lapses) run₂ (events ++ events')

/-- The same of the handlers of calls one after the other. -/
def LeavesTimers (bits : Nat) (router : HsmRouter S C D) : HsmRun S C → List Nat → Prop
  | _, [] => True
  | run, time_lapse :: lapses =>
      LeavesTimer bits router run time_lapse ∧
      ∀ run₁ events, HandlesTime bits router run time_lapse run₁ events →
        LeavesTimers bits router run₁ lapses

variable {bits : Nat} {router : HsmRouter S C D} {run : HsmRun S C} {time_lapse : Nat}

/-- The lapse that is left and the ticks that have been counted make up the whole lapse, and
what has been sent and what is ready are the events of these ticks. -/
structure HsmTime.OnTime (timer : HsmTimer) (time_lapse : Nat) (x : HsmTime S C)
    (sent : List (Nat × HsmTimerId)) : Prop where
  mask : x.timer.mask = timer.mask
  counter : x.timer.counter + x.time_lapse = timer.counter + time_lapse
  passed : timer.counter ≤ x.timer.counter
  events : sent ++ x.ready.map (fun u => (x.timer.counter, u)) =
    dueEvents timer.mask timer.counter (x.timer.counter - timer.counter)

omit [DecidableEq S] in
/-- A jump sends nothing, but makes its events ready. -/
theorem HsmTime.OnTime.check {timer timer' : HsmTimer} {lapse' : Nat} {ready_mask : BitVec 16}
    {x : HsmTime S C} {sent : List (Nat × HsmTimerId)} (h : x.OnTime timer time_lapse sent)
    (hfits : timer.counter + time_lapse < 2 ^ bits) (hready : x.ready = [])
    (hlapse : x.time_lapse > 0)
    (hcheck : hsmTimerCheck bits x.timer x.time_lapse = (timer', lapse', ready_mask)) :
    HsmTime.OnTime timer time_lapse
      ⟨{ x.run with hsm := { x.run.hsm with timer := timer' } }, lapse', readyTimers ready_mask⟩
      sent := by
  obtain ⟨ticks, -, hrest, hcounter, hmask, hdue⟩ :=
    hsmTimerCheck_due hcheck hlapse (h.counter ▸ hfits)
  have hsent := h.events
  rw [hready, List.map_nil, List.append_nil] at hsent
  rw [h.mask] at hdue
  have hcount := h.counter
  have hpassed := h.passed
  refine ⟨hmask.trans h.mask, ?_, ?_, ?_⟩
  · show timer'.counter + lapse' = _
    omega
  · show timer.counter ≤ timer'.counter
    omega
  · show sent ++ (readyTimers ready_mask).map (fun u => (timer'.counter, u)) =
      dueEvents timer.mask timer.counter (timer'.counter - timer.counter)
    have hsplit : timer'.counter - timer.counter = x.timer.counter - timer.counter + ticks := by
      omega
    rw [hsplit, dueEvents_add, Nat.add_sub_cancel' hpassed, hdue, hsent]

omit [DecidableEq S] in
/-- An event that was ready has been sent. -/
theorem HsmTime.OnTime.send {timer : HsmTimer} {t : HsmTimerId} {rest : List HsmTimerId}
    {run' : HsmRun S C} {x : HsmTime S C} {sent : List (Nat × HsmTimerId)}
    (h : x.OnTime timer time_lapse sent) (hready : x.ready = t :: rest)
    (htimer : run'.hsm.timer = x.timer) :
    HsmTime.OnTime timer time_lapse ⟨run', x.time_lapse, rest⟩
      (sent ++ [(x.timer.counter, t)]) := by
  have hevents := h.events
  rw [hready, List.map_cons] at hevents
  refine ⟨?_, ?_, ?_, ?_⟩
  · show run'.hsm.timer.mask = _
    rw [htimer]
    exact h.mask
  · show run'.hsm.timer.counter + _ = _
    rw [htimer]
    exact h.counter
  · show _ ≤ run'.hsm.timer.counter
    rw [htimer]
    exact h.passed
  · show (sent ++ _) ++ rest.map (fun u => (run'.hsm.timer.counter, u)) =
      dueEvents timer.mask timer.counter (run'.hsm.timer.counter - timer.counter)
    rw [htimer, List.append_assoc]
    exact hevents

omit [DecidableEq S] in
theorem sentEvents_snoc (steps : List (HsmTime S C × Unit)) (x : HsmTime S C) (i : Unit) :
    sentEvents (steps ++ [(x, i)]) =
      sentEvents steps ++ x.ready.head?.toList.map fun u => (x.timer.counter, u) := by
  unfold sentEvents
  rw [List.flatMap_append, List.flatMap_singleton]

/-- Throughout a call, what has been sent is what was due. -/
theorem onTime (hleaves : LeavesTimer bits router run time_lapse)
    (hfits : run.hsm.timer.counter + time_lapse < 2 ^ bits)
    {x : HsmTime S C × List (HsmTime S C × Unit)}
    (hreach : (hsmHandleTime bits router run time_lapse).recorded.Reachable x) :
    x.1.OnTime run.hsm.timer time_lapse (sentEvents x.2) := by
  induction hreach with
  | @init x hinit =>
      obtain ⟨hx, hsteps⟩ := hinit
      rw [hsteps, show x.1 = _ from hx]
      refine ⟨rfl, rfl, Nat.le_refl _, ?_⟩
      show _ = dueEvents run.hsm.timer.mask run.hsm.timer.counter
        (run.hsm.timer.counter - run.hsm.timer.counter)
      rw [Nat.sub_self]
      rfl
  | @step x i x' hreach hstep ih =>
      obtain ⟨hstep, hsteps⟩ := hstep
      rw [hsteps, sentEvents_snoc]
      generalize hx' : x'.1 = y at hstep
      cases hstep with
      | check hready hlapse hcheck =>
          rw [hready]
          show HsmTime.OnTime _ _ _ (_ ++ [])
          rw [List.append_nil]
          exact ih.check hfits hready hlapse hcheck
      | @send t rest n run' hready hevent =>
          rw [hready]
          exact ih.send hready ((hleaves x.1 hreach.of_recorded t rest hready).2 n run' hevent)

/-- A call comes to its end. -/
theorem handlesTime_of_leavesTimer (hleaves : LeavesTimer bits router run time_lapse)
    (hfits : run.hsm.timer.counter + time_lapse < 2 ^ bits) :
    ∃ run' events, HandlesTime bits router run time_lapse run' events := by
  -- by the lapse that is left, and the events that are ready
  suffices h : ∀ lapse ready run' steps,
      (hsmHandleTime bits router run time_lapse).recorded.Reachable (⟨run', lapse, ready⟩, steps) →
      ∃ run' events, HandlesTime bits router run time_lapse run' events from
    h time_lapse [] run [] (.init ⟨rfl, rfl⟩)
  intro lapse
  induction lapse using Nat.strong_induction_on with
  | _ lapse ih =>
      intro ready
      induction ready with
      | nil =>
          intro run' steps hreach
          rcases Nat.eq_zero_or_pos lapse with rfl | hlapse
          · exact ⟨run', _, steps, hreach, rfl⟩
          · let c := hsmTimerCheck bits run'.hsm.timer lapse
            have hcheck : hsmTimerCheck bits run'.hsm.timer lapse = (c.1, c.2.1, c.2.2) := rfl
            have hcounter := (onTime hleaves hfits hreach).counter
            obtain ⟨ticks, hpos, hrest, -⟩ := hsmTimerCheck_due hcheck hlapse (hcounter ▸ hfits)
            exact ih c.2.1 (by omega) _ _ _
              (hreach.step (i := ()) ⟨.check rfl hlapse hcheck, rfl⟩)
      | cons t rest ihready =>
          intro run' steps hreach
          obtain ⟨n, run'', hevent⟩ := (hleaves _ hreach.of_recorded t rest rfl).1
          exact ihready _ _ (hreach.step (i := ()) ⟨.send rfl hevent, rfl⟩)

/-- At its end, a call has sent the events of its lapse. -/
theorem HandlesTime.due {run' : HsmRun S C} {events : List (Nat × HsmTimerId)}
    (h : HandlesTime bits router run time_lapse run' events)
    (hleaves : LeavesTimer bits router run time_lapse)
    (hfits : run.hsm.timer.counter + time_lapse < 2 ^ bits) :
    events = dueEvents run.hsm.timer.mask run.hsm.timer.counter time_lapse ∧
      run'.hsm.timer = { run.hsm.timer with counter := run.hsm.timer.counter + time_lapse } := by
  obtain ⟨steps, hreach, rfl⟩ := h
  obtain ⟨hmask, hcounter, -, hevents⟩ := onTime hleaves hfits hreach
  replace hmask : run'.hsm.timer.mask = run.hsm.timer.mask := hmask
  replace hcounter : run'.hsm.timer.counter = run.hsm.timer.counter + time_lapse := hcounter
  refine ⟨?_, ?_⟩
  · have hend : (run'.hsm.timer.counter - run.hsm.timer.counter) = time_lapse := by omega
    rw [← hend]
    exact (List.append_nil _).symm.trans hevents
  · rw [← hcounter]
    show run'.hsm.timer = ⟨run'.hsm.timer.counter, run.hsm.timer.mask⟩
    rw [← hmask]

/-- So have calls one after the other. -/
theorem HandlesTimes.due {lapses : List Nat} {run' : HsmRun S C} {events : List (Nat × HsmTimerId)}
    (h : HandlesTimes bits router run lapses run' events)
    (hleaves : LeavesTimers bits router run lapses)
    (hfits : run.hsm.timer.counter + lapses.sum < 2 ^ bits) :
    events = dueEvents run.hsm.timer.mask run.hsm.timer.counter lapses.sum ∧
      run'.hsm.timer = { run.hsm.timer with counter := run.hsm.timer.counter + lapses.sum } := by
  induction h with
  | nil => exact ⟨rfl, rfl⟩
  | @cons run time_lapse run₁ events lapses run₂ events' hcall _ ih =>
      obtain ⟨hfirst, hthen⟩ := hleaves
      rw [List.sum_cons] at hfits ⊢
      obtain ⟨rfl, htimer⟩ := hcall.due hfirst (by omega)
      have hrest := ih (hthen run₁ _ hcall) (by rw [htimer]; show _ + _ + _ < _; omega)
      rw [htimer] at hrest
      obtain ⟨rfl, htimer'⟩ := hrest
      refine ⟨(dueEvents_add _ _ _ _).symm, htimer'.trans ?_⟩
      rw [← Nat.add_assoc]

/-- Calls one after the other come to their end. -/
theorem handlesTimes_of_leavesTimers {lapses : List Nat}
    (hleaves : LeavesTimers bits router run lapses)
    (hfits : run.hsm.timer.counter + lapses.sum < 2 ^ bits) :
    ∃ run' events, HandlesTimes bits router run lapses run' events := by
  induction lapses generalizing run with
  | nil => exact ⟨run, [], .nil⟩
  | cons time_lapse lapses ih =>
      obtain ⟨hfirst, hthen⟩ := hleaves
      rw [List.sum_cons] at hfits
      obtain ⟨run₁, events, hcall⟩ := handlesTime_of_leavesTimer hfirst (by omega)
      obtain ⟨-, htimer⟩ := hcall.due hfirst (by omega)
      obtain ⟨run₂, events', hcalls⟩ :=
        ih (hthen run₁ events hcall) (by rw [htimer]; show _ + _ + _ < _; omega)
      exact ⟨run₂, events ++ events', .cons hcall hcalls⟩

/-- **Timer events are exact**, while the handlers leave the timer alone and the counter is
not overrun: one event is sent for every moment of the lapse and every enabled timer whose
period divides it, by moment and then by period, and the counter is at the end of the lapse.
Calls that share out the same lapse in any way send the same events. -/
theorem hsm_ticks_exact (bits : Nat) (router : HsmRouter S C D) (run : HsmRun S C)
    (time_lapse : Nat) (hfits : run.hsm.timer.counter + time_lapse < 2 ^ bits)
    (hleaves : LeavesTimer bits router run time_lapse) :
    (∃ run' events, HandlesTime bits router run time_lapse run' events) ∧
    ∀ run' events, HandlesTime bits router run time_lapse run' events →
      (∀ (t : Nat) (u : HsmTimerId), (t, u) ∈ events ↔
        run.hsm.timer.counter < t ∧ t ≤ run.hsm.timer.counter + time_lapse ∧
          run.hsm.timer.Enabled u ∧ u.period ∣ t) ∧
      (events.Pairwise fun e e' => e.1 < e'.1 ∨ e.1 = e'.1 ∧ e.2.period < e'.2.period) ∧
      run'.hsm.timer.counter = run.hsm.timer.counter + time_lapse ∧
      ∀ lapses, lapses.sum = time_lapse → LeavesTimers bits router run lapses →
        (∃ run₂ events₂, HandlesTimes bits router run lapses run₂ events₂) ∧
        ∀ run₂ events₂, HandlesTimes bits router run lapses run₂ events₂ →
          events₂ = events ∧ run₂.hsm.timer = run'.hsm.timer := by
  refine ⟨handlesTime_of_leavesTimer hleaves hfits, fun run' events hcall => ?_⟩
  obtain ⟨rfl, htimer⟩ := hcall.due hleaves hfits
  refine ⟨fun t u => mem_dueEvents, dueEvents_sorted _ _ _, by rw [htimer], ?_⟩
  rintro lapses rfl hthen
  refine ⟨handlesTimes_of_leavesTimers hthen hfits, fun run₂ events₂ hcalls => ?_⟩
  obtain ⟨rfl, htimer₂⟩ := hcalls.due hthen hfits
  exact ⟨rfl, htimer₂.trans htimer.symm⟩

end System

/-! ## A state that only listens -/

/-- The only state handles every event. -/
def listen : HsmRouter Unit Unit Unit := fun _ _ _ _ _ =>
  { container := (), calls := [], ret := .handled }

theorem listen_leavesTimer (bits : Nat) (run : HsmRun Unit Unit) (time_lapse : Nat) :
    LeavesTimer bits listen run time_lapse := by
  intro x _ t rest _
  refine ⟨⟨1, _, rfl⟩, fun n run' hevent => ?_⟩
  cases n with
  | zero => cases hevent
  | succ n =>
      injection hevent with hevent
      exact hevent ▸ rfl

/-- From 9 to 11 ms, with the timers of 1 ms and of 10 ms. -/
theorem hsm_ticks_exact_listen :
    let run : HsmRun Unit Unit :=
      ⟨⟨(), (), 0, ⟨9, HsmTimerId.ms1.bit ||| HsmTimerId.ms10.bit⟩⟩, (), []⟩
    run.hsm.timer.counter + 2 < 2 ^ 32 ∧ LeavesTimer 32 listen run 2 ∧
    ∃ run' events, HandlesTime 32 listen run 2 run' events ∧
      (9, .ms1) ∉ events ∧ (10, .ms10) ∈ events ∧ (11, .ms10) ∉ events ∧
      run'.hsm.timer.counter = 11 := by
  intro run
  have hleaves := listen_leavesTimer 32 run 2
  obtain ⟨⟨run', events, hcall⟩, hdue⟩ := hsm_ticks_exact 32 listen run 2 (by decide) hleaves
  obtain ⟨hmem, -, hcounter, -⟩ := hdue run' events hcall
  refine ⟨by decide, hleaves, run', events, hcall, ?_, ?_, ?_, hcounter⟩
  · rw [hmem]
    decide
  · rw [hmem]
    decide
  · rw [hmem]
    decide

end EmbeddedMx
