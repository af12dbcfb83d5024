import Mathlib.Data.Finset.Card
import Mathlib.Logic.Function.Basic
import EmbeddedMx.Lib.Linked
import EmbeddedMx.Timer

/-!
# Process timers (`process-timer.c`, `scheduler.c`)

The timers that run are an intrusive list. `scheduler_timer_handler` looks for the first
one that has expired, takes it off the list and sends its event to its process; whatever
that starts and stops, it looks again from the head of the list until there is none left.

The loops are bounded by a number of turns; `none` is the answer if it was too small. The
clock stands while the handler is at work.
-/

namespace EmbeddedMx

open EmbeddedMx.Lib

/-! ## The list of timers -/

/-- `struct process_timer` -/
structure ProcessTimer where
  next : Nat
  process : Nat
  timer : Timer
  event : Nat
deriving DecidableEq, Repr

/-- The timers in memory, and the list of `struct scheduler`. -/
structure TimerList where
  processTimerHead : Nat
  timers : Nat → ProcessTimer

def TimerList.next (self : TimerList) (p : Nat) : Nat := (self.timers p).next

def TimerList.timer (self : TimerList) (p : Nat) : Timer := (self.timers p).timer

def TimerList.set (self : TimerList) (p : Nat) (proctimer : ProcessTimer) : TimerList :=
  { self with timers := Function.update self.timers p proctimer }

def TimerList.setTimer (self : TimerList) (p : Nat) (timer : Timer) : TimerList :=
  self.set p { self.timers p with timer := timer }

def TimerList.setNext (self : TimerList) (p next : Nat) : TimerList :=
  self.set p { self.timers p with next := next }

/-- `for (tmp = ..; tmp != NULL && !found(tmp); tmp = tmp->next)` -/
def timerSearch (self : TimerList) (found : Nat → Bool) : Nat → Nat → Option Nat
  | 0, _ => none
  | n + 1, tmp =>
      if tmp = 0 ∨ found tmp then some tmp else timerSearch self found n (self.next tmp)

def schedulerTimerStart (n : Nat) (clock : Clock) (self : TimerList) (proctimer time_ms : Nat) :
    Option TimerList :=
  let self := self.setTimer proctimer (timerStart clock timerMs time_ms)
  (timerSearch self (· = proctimer) n self.processTimerHead).map fun tmp =>
    -- Timer already in the list
    if tmp = proctimer then self
    else { self.setNext proctimer self.processTimerHead with processTimerHead := proctimer }

def schedulerTimerStop (n : Nat) (self : TimerList) (proctimer : Nat) : Option TimerList :=
  let self := self.setTimer proctimer timerStop
  if proctimer = self.processTimerHead then
    some { self with processTimerHead := self.next self.processTimerHead }
  else
    (timerSearch self (fun tmp => self.next tmp = proctimer) n self.processTimerHead).map fun tmp =>
      if tmp = 0 then self else self.setNext tmp (self.next proctimer)

/-- The loop of `scheduler_timer_find_expired`: `prev` and `tmp` where it stops. -/
def timerFindLoop (clock : Clock) (self : TimerList) : Nat → Nat → Nat → Option (Nat × Nat)
  | 0, _, _ => none
  | n + 1, prev, tmp =>
      if tmp = 0 then some (prev, tmp)
      else if timerExpired (self.timer tmp) clock then some (prev, tmp)
      else timerFindLoop clock self n tmp (self.next tmp)

def schedulerTimerFindExpired (n : Nat) (clock : Clock) (self : TimerList) :
    Option (TimerList × Nat) :=
  (timerFindLoop clock self n self.processTimerHead self.processTimerHead).map fun (prev, tmp) =>
    if tmp = 0 then (self, 0)
    else
      let self := self.setTimer tmp timerStop
      if tmp = self.processTimerHead then ({ self with processTimerHead := self.next tmp }, tmp)
      else (self.setNext prev (self.next tmp), tmp)

/-- Start process timer. -/
def processTimerStart (n : Nat) (clock : Clock) (self : TimerList)
    (proctimer proc time_ms ev : Nat) : Option TimerList :=
  schedulerTimerStart n clock
    (self.set proctimer { self.timers proctimer with process := proc, event := ev })
    proctimer time_ms

/-! ## The timer service -/

/-- A call of an event handler. -/
inductive TimerCall
  | processStart (self proc time_ms ev : Nat)
  | start (self time_ms : Nat)
  | stop (self : Nat)
deriving DecidableEq, Repr

def TimerCall.self : TimerCall → Nat
  | .processStart self _ _ _ => self
  | .start self _ => self
  | .stop self => self

def execTimerCall (n : Nat) (clock : Clock) (self : TimerList) : TimerCall → Option TimerList
  | .processStart proctimer proc time_ms ev =>
      processTimerStart n clock self proctimer proc time_ms ev
  | .start proctimer time_ms => schedulerTimerStart n clock self proctimer time_ms
  | .stop proctimer => schedulerTimerStop n self proctimer

/-- What the processes do with an event: given the process and the event, the timers and
the memory of the application, the calls that are made; none of them is about `NULL`. -/
abbrev TimerHandler (σ : Type) : Type :=
  Nat → Nat → TimerList → σ → List { c : TimerCall // c.self ≠ 0 } × σ

/-- What happens to a timer while the handler is at work: its event is sent, or a call is
made. -/
inductive TimerAct
  | dispatch (self process event : Nat)
  | call (c : TimerCall)
deriving DecidableEq, Repr

/-- The calls of a handler one after the other, with the list behind each of them. -/
def execTimerCalls (n : Nat) (clock : Clock) :
    TimerList → List { c : TimerCall // c.self ≠ 0 } →
      Option (TimerList × List (TimerAct × TimerList))
  | self, [] => some (self, [])
  | self, c :: calls =>
      (execTimerCall n clock self c.1).bind fun self =>
        (execTimerCalls n clock self calls).map fun (self', acts) =>
          (self', (.call c.1, self) :: acts)

/-- `scheduler_timer_handler`, with everything that happens and the list at that moment. -/
def schedulerTimerHandler {σ : Type} (handler : TimerHandler σ) (clock : Clock) (n : Nat) :
    Nat → TimerList → σ → Option (TimerList × σ × List (TimerAct × TimerList))
  | 0, _, _ => none
  | turns + 1, self, user =>
      (schedulerTimerFindExpired n clock self).bind fun (self, tmp) =>
        if tmp = 0 then some (self, user, [])
        else
          let process := (self.timers tmp).process
          let event := (self.timers tmp).event
          let r := handler process event self user
          (execTimerCalls n clock self r.1).bind fun (self', acts) =>
            (schedulerTimerHandler handler clock n turns self' r.2).map fun (self'', user, rest) =>
              (self'', user, (.dispatch tmp process event, self) :: acts ++ rest)

/-! ## What the functions do to the list -/

/-- The list is `ts`. -/
def TimerList.Holds (self : TimerList) (ts : List Nat) : Prop :=
  LinkPath self.next self.processTimerHead ts 0 ∧ 0 ∉ ts

theorem TimerList.Holds.nodup {self : TimerList} {ts : List Nat} (h : self.Holds ts) : ts.Nodup :=
  h.1.nodup h.2

section Fields

variable (self : TimerList) (p : Nat)

theorem setTimer_next (timer : Timer) : (self.setTimer p timer).next = self.next := by
  funext q
  rcases eq_or_ne q p with rfl | hne
  · simp [TimerList.next, TimerList.setTimer, TimerList.set]
  · simp [TimerList.next, TimerList.setTimer, TimerList.set, hne]

theorem setTimer_timer (timer : Timer) :
    (self.setTimer p timer).timer = Function.update self.timer p timer := by
  funext q
  rcases eq_or_ne q p with rfl | hne
  · simp [TimerList.timer, TimerList.setTimer, TimerList.set]
  · simp [TimerList.timer, TimerList.setTimer, TimerList.set, hne]

theorem timers_setNext_next (next : Nat) :
    (self.setNext p next).next = Function.update self.next p next := by
  funext q
  rcases eq_or_ne q p with rfl | hne
  · simp [TimerList.next, TimerList.setNext, TimerList.set]
  · simp [TimerList.next, TimerList.setNext, TimerList.set, hne]

theorem setNext_timer (next : Nat) : (self.setNext p next).timer = self.timer := by
  funext q
  rcases eq_or_ne q p with rfl | hne
  · simp [TimerList.timer, TimerList.setNext, TimerList.set]
  · simp [TimerList.timer, TimerList.setNext, TimerList.set, hne]

end Fields

/-- A search over a list that is shorter than the bound comes to its end. -/
theorem timerSearch_spec {self : TimerList} {found : Nat → Bool} {n a : Nat} {xs : List Nat}
    (hpath : LinkPath self.next a xs 0) (hzero : 0 ∉ xs) (hn : xs.length < n) :
    timerSearch self found n a = some ((xs.find? found).getD 0) := by
  induction xs generalizing a n with
  | nil =>
      obtain ⟨n, rfl⟩ := Nat.exists_eq_succ_of_ne_zero (Nat.ne_of_gt (Nat.zero_lt_of_lt hn))
      show (if a = 0 ∨ _ then some a else _) = some 0
      rw [if_pos (.inl hpath), show a = 0 from hpath]
  | cons x xs ih =>
      obtain ⟨rfl, hpath⟩ := hpath
      obtain ⟨n, rfl⟩ := Nat.exists_eq_succ_of_ne_zero (Nat.ne_of_gt (Nat.zero_lt_of_lt hn))
      have hne : a ≠ 0 := fun heq => hzero (heq ▸ List.mem_cons_self)
      show (if a = 0 ∨ found a then some a else timerSearch self found n (self.next a)) = _
      cases hfound : found a with
      | true =>
          rw [if_pos (.inr rfl), List.find?_cons_of_pos hfound]
          rfl
      | false =>
          rw [if_neg (by simp [hne]), List.find?_cons_of_neg (by simp [hfound])]
          exact ih hpath (fun hmem => hzero (List.mem_cons_of_mem _ hmem))
              (Nat.lt_of_succ_lt_succ hn)

/-- The first timer of the list is taken off. -/
theorem TimerList.Holds.behead {self : TimerList} {ts : List Nat} (h : self.Holds ts)
    (hne : self.processTimerHead ≠ 0) :
    ({ self with processTimerHead := self.next self.processTimerHead } : TimerList).Holds
      (ts.erase self.processTimerHead) := by
  obtain ⟨hpath, hzero⟩ := h
  cases ts with
  | nil => exact absurd hpath hne
  | cons t ts =>
      obtain ⟨hhead, hrest⟩ := hpath
      rw [hhead, List.erase_cons_head]
      exact ⟨hrest, fun hmem => hzero (List.mem_cons_of_mem _ hmem)⟩

/-- The timer behind `t` is taken off. -/
theorem TimerList.Holds.unlink {self : TimerList} {ts : List Nat} (h : self.Holds ts) {t r : Nat}
    (ht : t ∈ ts) (hnext : self.next t = r) (hr : r ≠ 0) :
    (self.setNext t (self.next r)).Holds (ts.erase r) := by
  obtain ⟨hpath, hzero⟩ := h
  have hbent := hpath.unlink hzero hnext hr
  rw [if_pos ht, ← timers_setNext_next] at hbent
  exact ⟨hbent, fun hmem => hzero (List.erase_subset hmem)⟩

theorem TimerList.Holds.setTimer {self : TimerList} {ts : List Nat} (h : self.Holds ts) (p : Nat)
    (timer : Timer) : (self.setTimer p timer).Holds ts := by
  unfold TimerList.Holds
  rw [setTimer_next]
  exact h

/-- A timer that is not on the list is put in front of it. -/
theorem TimerList.Holds.push {self : TimerList} {ts : List Nat} (h : self.Holds ts) {p : Nat}
    (hp : p ∉ ts) (hne : p ≠ 0) :
    ({ self.setNext p self.processTimerHead with processTimerHead := p } : TimerList).Holds
      (p :: ts) := by
  obtain ⟨hpath, hzero⟩ := h
  have hnext : ∀ q, ({ self.setNext p self.processTimerHead with processTimerHead := p } :
      TimerList).next q = Function.update self.next p self.processTimerHead q :=
    congrFun (timers_setNext_next self p self.processTimerHead)
  refine ⟨⟨rfl, ?_⟩, fun hmem => (List.mem_cons.mp hmem).elim (fun heq => hne heq.symm) hzero⟩
  rw [hnext, Function.update_self]
  refine hpath.congr fun x hx => ?_
  rw [hnext, Function.update_of_ne fun heq : x = p => hp (heq ▸ hx)]

/-- `scheduler_timer_start` -/
theorem schedulerTimerStart_spec {self : TimerList} {ts : List Nat} (h : self.Holds ts) {p : Nat}
    (hp : p ≠ 0) (clock : Clock) (time_ms : Nat) : ∃ self',
    (∀ n, ts.length < n → schedulerTimerStart n clock self p time_ms = some self') ∧
      self'.Holds (if p ∈ ts then ts else p :: ts) ∧
      self'.timer = Function.update self.timer p (timerStart clock timerMs time_ms) := by
  have hset := h.setTimer p (timerStart clock timerMs time_ms)
  have hsearch : ∀ {n}, ts.length < n →
      timerSearch (self.setTimer p (timerStart clock timerMs time_ms))
      (· = p) n self.processTimerHead = some ((ts.find? (· = p)).getD 0) :=
    fun hn => timerSearch_spec hset.1 hset.2 hn
  by_cases hmem : p ∈ ts
  · refine ⟨self.setTimer p (timerStart clock timerMs time_ms), fun n hn => ?_, ?_,
        setTimer_timer ..⟩
    · have hfind : ts.find? (· = p) = some p := by
        cases hfind : ts.find? (· = p) with
        | none => exact absurd (decide_eq_true rfl) (List.find?_eq_none.mp hfind p hmem)
        | some q =>
            have hq := List.find?_some hfind
            exact congrArg some (of_decide_eq_true hq)
      show (timerSearch _ _ n self.processTimerHead).map _ = _
      rw [hsearch hn, hfind]
      exact congrArg some (if_pos rfl)
    · rw [if_pos hmem]
      exact hset
  · refine ⟨{ (self.setTimer p (timerStart clock timerMs time_ms)).setNext p self.processTimerHead with
      processTimerHead := p }, fun n hn => ?_, ?_, ?_⟩
    · have hfind : ts.find? (· = p) = none := by
        refine List.find?_eq_none.mpr fun q hq heq => hmem ?_
        rw [← of_decide_eq_true heq]
        exact hq
      show (timerSearch _ _ n self.processTimerHead).map _ = _
      rw [hsearch hn, hfind]
      exact congrArg some (if_neg hp.symm)
    · rw [if_neg hmem]
      exact hset.push hmem hp
    · exact (setNext_timer _ _ _).trans (setTimer_timer ..)

/-- `scheduler_timer_stop` -/
theorem schedulerTimerStop_spec {self : TimerList} {ts : List Nat} (h : self.Holds ts) {p : Nat}
    (hp : p ≠ 0) : ∃ self', (∀ n, ts.length < n → schedulerTimerStop n self p = some self') ∧
      self'.Holds (ts.erase p) ∧ self'.timer = Function.update self.timer p timerStop := by
  have hset := h.setTimer p timerStop
  by_cases hhead : p = self.processTimerHead
  · refine ⟨{ self.setTimer p timerStop with processTimerHead := (self.setTimer p timerStop).next p },
      fun n _ => ?_, ?_, setTimer_timer ..⟩
    · show (if p = self.processTimerHead then _ else _) = _
      rw [if_pos hhead]
      show some ({ self.setTimer p timerStop with
        processTimerHead := (self.setTimer p timerStop).next self.processTimerHead } :
          TimerList) = _
      rw [← hhead]
    · have hbeheaded := hset.behead (hhead ▸ hp)
      rw [show (self.setTimer p timerStop).processTimerHead = p from hhead.symm] at hbeheaded
      exact hbeheaded
  · have hsearch : ∀ {n}, ts.length < n → timerSearch (self.setTimer p timerStop)
        (fun tmp => (self.setTimer p timerStop).next tmp = p) n self.processTimerHead =
          some ((ts.find? fun tmp => (self.setTimer p timerStop).next tmp = p).getD 0) :=
      fun hn => timerSearch_spec hset.1 hset.2 hn
    have hstop : ∀ n, schedulerTimerStop n self p = (timerSearch (self.setTimer p timerStop)
        (fun tmp => (self.setTimer p timerStop).next tmp = p) n self.processTimerHead).map fun tmp =>
          if tmp = 0 then self.setTimer p timerStop
          else (self.setTimer p timerStop).setNext tmp ((self.setTimer p timerStop).next p) :=
      fun n => if_neg hhead
    cases hfind : ts.find? fun tmp => (self.setTimer p timerStop).next tmp = p with
    | none =>
        -- nothing points to the timer, so it is not on the list
        have hmem : p ∉ ts := by
          intro hmem
          obtain ⟨t, ht, hnext⟩ := hset.1.exists_prev hmem hhead
          exact List.find?_eq_none.mp hfind t ht (decide_eq_true hnext)
        refine ⟨self.setTimer p timerStop, fun n hn => ?_, ?_, setTimer_timer ..⟩
        · rw [hstop, hsearch hn, hfind]
          exact congrArg some (if_pos rfl)
        · rw [List.erase_of_not_mem hmem]
          exact hset
    | some t =>
        have ht := List.mem_of_find?_eq_some hfind
        have hnext : (self.setTimer p timerStop).next t = p := by
          simpa using List.find?_some hfind
        refine ⟨(self.setTimer p timerStop).setNext t ((self.setTimer p timerStop).next p),
          fun n hn => ?_, hset.unlink ht hnext hp, ?_⟩
        · rw [hstop, hsearch hn, hfind]
          exact congrArg some (if_neg fun heq : t = 0 => h.2 (heq ▸ ht))
        · rw [setNext_timer]
          exact setTimer_timer ..

/-- The loop stops at the first timer that has expired, with the one before it. -/
theorem timerFindLoop_spec {self : TimerList} (clock : Clock) (prev : Nat) {a : Nat} {xs : List Nat}
    (hpath : LinkPath self.next a xs 0) (hzero : 0 ∉ xs) :
    ((∀ x ∈ xs, timerExpired (self.timer x) clock = false) ∧
      ∃ q, ∀ n, xs.length < n → timerFindLoop clock self n prev a = some (q, 0)) ∨
    ∃ t ∈ xs, timerExpired (self.timer t) clock = true ∧ ∃ q,
      (∀ n, xs.length < n → timerFindLoop clock self n prev a = some (q, t)) ∧
        (t = a → q = prev) ∧ (t ≠ a → q ∈ xs ∧ self.next q = t) := by
  induction xs generalizing prev a with
  | nil =>
      refine .inl ⟨nofun, prev, fun n hn => ?_⟩
      obtain ⟨n, rfl⟩ := Nat.exists_eq_succ_of_ne_zero (Nat.ne_of_gt (Nat.zero_lt_of_lt hn))
      obtain rfl : a = 0 := hpath
      exact if_pos rfl
  | cons x xs ih =>
      obtain ⟨rfl, hpath⟩ := hpath
      have hne : a ≠ 0 := fun heq => hzero (heq ▸ List.mem_cons_self)
      have hstep : ∀ n, timerFindLoop clock self (n + 1) prev a =
          if timerExpired (self.timer a) clock then some (prev, a)
          else timerFindLoop clock self n a (self.next a) := fun n => if_neg hne
      cases hexpired : timerExpired (self.timer a) clock with
      | true =>
          refine .inr ⟨a, List.mem_cons_self, hexpired, prev, fun n hn => ?_, fun _ => rfl,
            fun hne => absurd rfl hne⟩
          obtain ⟨n, rfl⟩ := Nat.exists_eq_succ_of_ne_zero (Nat.ne_of_gt (Nat.zero_lt_of_lt hn))
          rw [Nat.succ_eq_add_one, hstep, if_pos hexpired]
      | false =>
          have hstep : ∀ n, timerFindLoop clock self (n + 1) prev a =
              timerFindLoop clock self n a (self.next a) := by
            intro n
            rw [hstep, hexpired]
            rfl
          rcases ih a hpath fun hmem => hzero (List.mem_cons_of_mem _ hmem) with
            ⟨hnone, q, hloop⟩ | ⟨t, ht, htexpired, q, hloop, hfirst, hprev⟩
          · refine .inl ⟨List.forall_mem_cons.mpr ⟨hexpired, hnone⟩, q, fun n hn => ?_⟩
            obtain ⟨n, rfl⟩ := Nat.exists_eq_succ_of_ne_zero (Nat.ne_of_gt (Nat.zero_lt_of_lt hn))
            rw [Nat.succ_eq_add_one, hstep]
            exact hloop n (Nat.lt_of_succ_lt_succ hn)
          · refine .inr ⟨t, List.mem_cons_of_mem _ ht, htexpired, q, fun n hn => ?_, fun hta => ?_,
              fun _ => ?_⟩
            · obtain ⟨n, rfl⟩ := Nat.exists_eq_succ_of_ne_zero (Nat.ne_of_gt (Nat.zero_lt_of_lt hn))
              rw [Nat.succ_eq_add_one, hstep]
              exact hloop n (Nat.lt_of_succ_lt_succ hn)
            · rw [← hta, htexpired] at hexpired
              cases hexpired
            · by_cases htfirst : t = self.next a
              · rw [hfirst htfirst]
                exact ⟨List.mem_cons_self, htfirst.symm⟩
              · obtain ⟨hq, hnext⟩ := hprev htfirst
                exact ⟨List.mem_cons_of_mem _ hq, hnext⟩

/-- `scheduler_timer_find_expired` -/
theorem schedulerTimerFindExpired_spec {self : TimerList} {ts : List Nat} (h : self.Holds ts)
    (clock : Clock) :
    ((∀ t ∈ ts, timerExpired (self.timer t) clock = false) ∧
      ∀ n, ts.length < n → schedulerTimerFindExpired n clock self = some (self, 0)) ∨
    ∃ t ∈ ts, timerExpired (self.timer t) clock = true ∧ ∃ self',
      (∀ n, ts.length < n → schedulerTimerFindExpired n clock self = some (self', t)) ∧
        self'.Holds (ts.erase t) ∧ self'.timer = Function.update self.timer t timerStop := by
  rcases timerFindLoop_spec clock self.processTimerHead h.1 h.2 with
    ⟨hnone, q, hloop⟩ | ⟨t, ht, hexpired, q, hloop, -, hprev⟩
  · refine .inl ⟨hnone, fun n hn => ?_⟩
    unfold schedulerTimerFindExpired
    rw [hloop n hn]
    rfl
  · have hzero : t ≠ 0 := fun heq => h.2 (heq ▸ ht)
    have hset := h.setTimer t timerStop
    have hfind : ∀ n, ts.length < n → schedulerTimerFindExpired n clock self =
        some (if t = self.processTimerHead then
          ({ self.setTimer t timerStop with processTimerHead := (self.setTimer t timerStop).next t }, t)
          else ((self.setTimer t timerStop).setNext q ((self.setTimer t timerStop).next t), t)) := by
      intro n hn
      unfold schedulerTimerFindExpired
      rw [hloop n hn]
      exact congrArg some (if_neg hzero)
    refine .inr ⟨t, ht, hexpired, ?_⟩
    by_cases hhead : t = self.processTimerHead
    · refine ⟨{ self.setTimer t timerStop with processTimerHead := (self.setTimer t timerStop).next t },
        fun n hn => by rw [hfind n hn, if_pos hhead], ?_, setTimer_timer ..⟩
      have hbeheaded := hset.behead (hhead ▸ hzero)
      rw [show (self.setTimer t timerStop).processTimerHead = t from hhead.symm] at hbeheaded
      exact hbeheaded
    · obtain ⟨hq, hnext⟩ := hprev hhead
      rw [← setTimer_next self t timerStop] at hnext
      refine ⟨(self.setTimer t timerStop).setNext q ((self.setTimer t timerStop).next t),
        fun n hn => by rw [hfind n hn, if_neg hhead], hset.unlink hq hnext hzero, ?_⟩
      rw [setNext_timer]
      exact setTimer_timer ..

/-! ## Timers that are due -/

/-- The timers of the list that have expired. -/
def TimerList.due (self : TimerList) (clock : Clock) (ts : List Nat) : Finset Nat :=
  (ts.filter fun t => timerExpired (self.timer t) clock).toFinset

theorem TimerList.mem_due {self : TimerList} {clock : Clock} {ts : List Nat} {t : Nat} :
    t ∈ self.due clock ts ↔ t ∈ ts ∧ timerExpired (self.timer t) clock = true := by
  simp [TimerList.due]

/-- A timer is not expired at the instant it is started, nor if it is not running. -/
theorem timerExpired_started (clock : Clock) (flags interval : Nat) :
    timerExpired (timerStart clock flags interval) clock = false := by
  rcases Nat.eq_zero_or_pos interval with rfl | hpos
  · rfl
  · exact timerExpired_start clock flags hpos

/-- If only the timer `p` is changed, and is not expired, then it alone is not due any
more. -/
theorem due_update {self self' : TimerList} {clock : Clock} {ts ts' : List Nat} {p : Nat}
    {timer : Timer} (htimer : self'.timer = Function.update self.timer p timer)
    (hexpired : timerExpired timer clock = false) (hts : ∀ t, t ≠ p → (t ∈ ts' ↔ t ∈ ts)) :
    self'.due clock ts' = (self.due clock ts).erase p := by
  ext t
  rw [Finset.mem_erase, TimerList.mem_due, TimerList.mem_due, htimer]
  rcases eq_or_ne t p with rfl | hne
  · simp [hexpired]
  · simp [hne, hts t hne]

/-- What the timers that are due experience: they are served one after the other, and a
call about a timer takes it out. -/
inductive Serves : Finset Nat → List TimerAct → Prop
  | done : Serves ∅ []
  | dispatch {due t process event acts} : t ∈ due → Serves (due.erase t) acts →
      Serves due (.dispatch t process event :: acts)
  | call {due c acts} : Serves (due.erase c.self) acts → Serves due (.call c :: acts)

def TimerAct.dispatches (t : Nat) : TimerAct → Bool
  | .dispatch t' _ _ => t' = t
  | .call _ => false

def TimerAct.touches (t : Nat) : TimerAct → Bool
  | .dispatch _ _ _ => false
  | .call c => c.self = t

/-- The event of `t` is sent once, and no call was about `t` before. -/
def ServedOnce (t : Nat) (acts : List TimerAct) : Prop :=
  ∃ pre act post, acts = pre ++ act :: post ∧ act.dispatches t = true ∧
    (∀ a ∈ pre, a.touches t = false ∧ a.dispatches t = false) ∧ ∀ a ∈ post, a.dispatches t = false

/-- A call was about `t`, and its event is not sent. -/
def Forestalled (t : Nat) (acts : List TimerAct) : Prop :=
  (∃ a ∈ acts, a.touches t = true) ∧ ∀ a ∈ acts, a.dispatches t = false

theorem ServedOnce.cons {t : Nat} {acts : List TimerAct} (h : ServedOnce t acts) {a : TimerAct}
    (htouches : a.touches t = false) (hdispatches : a.dispatches t = false) :
    ServedOnce t (a :: acts) := by
  obtain ⟨pre, act, post, rfl, hact, hpre, hpost⟩ := h
  exact ⟨a :: pre, act, post, rfl, hact,
      List.forall_mem_cons.mpr ⟨⟨htouches, hdispatches⟩, hpre⟩, hpost⟩

/-- Every timer that is due is served once or forestalled, and no other is served. -/
theorem Serves.each {due : Finset Nat} {acts : List TimerAct} (h : Serves due acts) (t : Nat) :
    (t ∈ due → ServedOnce t acts ∨ Forestalled t acts) ∧
      (t ∉ due → ∀ a ∈ acts, a.dispatches t = false) := by
  induction h with
  | done => exact ⟨nofun, nofun⟩
  | @dispatch due t' process event acts hdue _ ih =>
      have hself : (TimerAct.dispatch t' process event).dispatches t = decide (t' = t) := rfl
      rcases eq_or_ne t' t with rfl | hne
      · have hrest := ih.2 (Finset.notMem_erase _ _)
        refine ⟨fun _ => .inl ⟨[], _, acts, rfl, by simp [hself], nofun, hrest⟩, fun hnot =>
            absurd hdue hnot⟩
      · have hself : (TimerAct.dispatch t' process event).dispatches t = false := by
          simp [hself, hne]
        constructor
        · intro ht
          refine (ih.1 (Finset.mem_erase.mpr ⟨hne.symm, ht⟩)).imp (fun h => h.cons rfl hself) ?_
          rintro ⟨⟨a, ha, htouches⟩, hrest⟩
          exact ⟨⟨a, List.mem_cons_of_mem _ ha, htouches⟩, List.forall_mem_cons.mpr ⟨hself, hrest⟩⟩
        · intro ht
          exact List.forall_mem_cons.mpr ⟨hself, ih.2 fun hmem => ht (Finset.mem_of_mem_erase hmem)⟩
  | @call due c acts _ ih =>
      rcases eq_or_ne c.self t with rfl | hne
      · have hrest := ih.2 (Finset.notMem_erase _ _)
        have hall : ∀ a ∈ TimerAct.call c :: acts, a.dispatches c.self = false :=
          List.forall_mem_cons.mpr ⟨rfl, hrest⟩
        exact ⟨fun _ => .inr ⟨⟨_, List.mem_cons_self, decide_eq_true rfl⟩, hall⟩, fun _ => hall⟩
      · have htouches : (TimerAct.call c).touches t = false := decide_eq_false hne
        constructor
        · intro ht
          refine (ih.1 (Finset.mem_erase.mpr ⟨hne.symm, ht⟩)).imp (fun h => h.cons htouches rfl) ?_
          rintro ⟨⟨a, ha, htouches⟩, hrest⟩
          exact ⟨⟨a, List.mem_cons_of_mem _ ha, htouches⟩, List.forall_mem_cons.mpr ⟨rfl, hrest⟩⟩
        · intro ht
          exact List.forall_mem_cons.mpr ⟨rfl, ih.2 fun hmem => ht (Finset.mem_of_mem_erase hmem)⟩

/-! ## The timer service -/

/-- A call takes its timer out of those that are due, and keeps the list. -/
theorem execTimerCall_spec {self : TimerList} {ts : List Nat} (h : self.Holds ts) (clock : Clock)
    (c : { c : TimerCall // c.self ≠ 0 }) : ∃ self' ts',
    (∀ n, ts.length < n → execTimerCall n clock self c.1 = some self') ∧ self'.Holds ts' ∧
      ts'.length ≤ ts.length + 1 ∧ self'.due clock ts' = (self.due clock ts).erase c.1.self := by
  obtain ⟨c, hc⟩ := c
  have hstarted : ∀ {self : TimerList} {p : Nat} (time_ms : Nat), p ≠ 0 → self.Holds ts →
      ∃ self' ts', (∀ n, ts.length < n → schedulerTimerStart n clock self p time_ms = some self') ∧
        self'.Holds ts' ∧ ts'.length ≤ ts.length + 1 ∧
          self'.due clock ts' = (self.due clock ts).erase p := by
    intro self p time_ms hp h
    obtain ⟨self', hstart, hholds, htimer⟩ := schedulerTimerStart_spec h hp clock time_ms
    refine ⟨self', _, hstart, hholds, ?_,
        due_update htimer (timerExpired_started ..) fun t hne => ?_⟩
    · split
      · exact Nat.le_succ _
      · exact Nat.le_refl _
    · split
      · rfl
      · simp [hne]
  cases c with
  | processStart p proc time_ms ev =>
      -- the timer is not yet started, but belongs to its new process
      have hnext : (self.set p { self.timers p with process := proc, event := ev }).next =
          self.next := by
        funext q
        rcases eq_or_ne q p with rfl | hne
        · simp [TimerList.next, TimerList.set]
        · simp [TimerList.next, TimerList.set, hne]
      have htimer : (self.set p { self.timers p with process := proc, event := ev }).timer =
          self.timer := by
        funext q
        rcases eq_or_ne q p with rfl | hne
        · simp [TimerList.timer, TimerList.set]
        · simp [TimerList.timer, TimerList.set, hne]
      have hset : (self.set p { self.timers p with process := proc, event := ev }).Holds ts := by
        unfold TimerList.Holds
        rw [hnext]
        exact h
      obtain ⟨self', ts', hstart, hholds, hlen, hdue⟩ := hstarted time_ms hc hset
      refine ⟨self', ts', hstart, hholds, hlen, ?_⟩
      rw [hdue]
      unfold TimerList.due
      rw [htimer]
  | start p time_ms => exact hstarted time_ms hc h
  | stop p =>
      obtain ⟨self', hstop, hholds, htimer⟩ := schedulerTimerStop_spec h hc
      refine ⟨self', _, hstop, hholds, Nat.le_succ_of_le List.length_erase_le, ?_⟩
      exact due_update htimer rfl fun t hne => List.mem_erase_of_ne hne

/-- Nothing in the list repeats at any moment; a timer whose event is sent is off the list
then, and the event is the one that it holds. -/
def Orderly (x : TimerAct × TimerList) : Prop :=
  ∃ ts, x.2.Holds ts ∧ ∀ t process event, x.1 = .dispatch t process event →
    t ∉ ts ∧ process = (x.2.timers t).process ∧ event = (x.2.timers t).event

/-- The calls of a handler. -/
theorem execTimerCalls_spec {self : TimerList} {ts : List Nat} (h : self.Holds ts) (clock : Clock)
    (calls : List { c : TimerCall // c.self ≠ 0 }) : ∃ self' ts' acts,
    (∀ n, ts.length + calls.length < n → execTimerCalls n clock self calls = some (self', acts)) ∧
      self'.Holds ts' ∧ (∀ x ∈ acts, Orderly x) ∧ self'.due clock ts' ⊆ self.due clock ts ∧
      ∀ rest, Serves (self'.due clock ts') rest →
        Serves (self.due clock ts) (acts.map Prod.fst ++ rest) := by
  induction calls generalizing self ts with
  | nil =>
      exact ⟨self, ts, [], fun _ _ => rfl, h, nofun, Finset.Subset.refl _, fun rest hrest => hrest⟩
  | cons c calls ih =>
      obtain ⟨self₁, ts₁, hcall, h₁, hlen, hdue⟩ := execTimerCall_spec h clock c
      obtain ⟨self', ts', acts, hcalls, h', horderly, hsub, hserves⟩ := ih h₁
      refine ⟨self', ts', (.call c.1, self₁) :: acts, fun n hn => ?_, h', ?_, ?_,
          fun rest hrest => ?_⟩
      · rw [List.length_cons] at hn
        unfold execTimerCalls
        rw [hcall n (by omega), Option.bind_some, hcalls n (by omega)]
        rfl
      · exact List.forall_mem_cons.mpr ⟨⟨ts₁, h₁, nofun⟩, horderly⟩
      · exact hsub.trans (hdue ▸ Finset.erase_subset _ _)
      · exact .call (hdue ▸ hserves rest hrest)

/-- The handler ends, and serves the timers that are due. -/
theorem schedulerTimerHandler_spec {σ : Type} (handler : TimerHandler σ) (clock : Clock) (k : Nat)
    {self : TimerList} {ts : List Nat} (h : self.Holds ts) (hk : (self.due clock ts).card = k)
    (user : σ) : ∃ N r, (∀ n turns, N ≤ n → N ≤ turns →
      schedulerTimerHandler handler clock n turns self user = some r) ∧
      (∃ ts', r.1.Holds ts') ∧ (∀ x ∈ r.2.2, Orderly x) ∧
        Serves (self.due clock ts) (r.2.2.map Prod.fst) := by
  induction k using Nat.strong_induction_on generalizing self ts user with
  | _ k ih =>
      rcases schedulerTimerFindExpired_spec h clock with ⟨hnone, hfind⟩ |
          ⟨t, ht, hexpired, self₁, hfind, h₁, htimer⟩
      · refine ⟨ts.length + 1, (self, user, []), fun n turns hn hturns => ?_, ⟨ts, h⟩, nofun, ?_⟩
        · obtain ⟨turns, rfl⟩ := Nat.exists_eq_succ_of_ne_zero
              (Nat.ne_of_gt (Nat.lt_of_lt_of_le (Nat.succ_pos _) hturns))
          unfold schedulerTimerHandler
          rw [hfind n hn]
          rfl
        · have hempty : self.due clock ts = ∅ := by
            refine Finset.eq_empty_of_forall_notMem fun t ht => ?_
            obtain ⟨ht, hexpired⟩ := TimerList.mem_due.mp ht
            rw [hnone t ht] at hexpired
            cases hexpired
          rw [hempty]
          exact .done
      · have hzero : t ≠ 0 := fun heq => h.2 (heq ▸ ht)
        have hmem : t ∈ self.due clock ts := TimerList.mem_due.mpr ⟨ht, hexpired⟩
        have hdue : self₁.due clock (ts.erase t) = (self.due clock ts).erase t :=
          due_update htimer rfl fun q hne => List.mem_erase_of_ne hne
        obtain ⟨self₂, ts₂, acts, hcalls, h₂, horderly, hsub, hserves⟩ :=
          execTimerCalls_spec h₁ clock
          (handler (self₁.timers t).process (self₁.timers t).event self₁ user).1
        -- fewer timers are due
        have hfewer : (self₂.due clock ts₂).card < k := by
          refine Nat.lt_of_le_of_lt (Finset.card_le_card hsub) ?_
          rw [hdue, ← hk]
          exact Finset.card_erase_lt_of_mem hmem
        obtain ⟨N, r, hrest, hholds, horderly', hserves'⟩ := ih _ hfewer h₂ rfl
          (handler (self₁.timers t).process (self₁.timers t).event self₁ user).2
        refine ⟨N + ts.length +
          (handler (self₁.timers t).process (self₁.timers t).event self₁ user).1.length + 1,
          (r.1, r.2.1, (.dispatch t (self₁.timers t).process (self₁.timers t).event,
          self₁) :: acts ++ r.2.2),
          fun n turns hn hturns => ?_, hholds, ?_, ?_⟩
        · obtain ⟨turns, rfl⟩ := Nat.exists_eq_succ_of_ne_zero
              (Nat.ne_of_gt (Nat.lt_of_lt_of_le (Nat.succ_pos _) hturns))
          have hshorter : (ts.erase t).length ≤ ts.length := List.length_erase_le
          unfold schedulerTimerHandler
          rw [hfind n (by omega), Option.bind_some]
          dsimp only
          rw [if_neg hzero, hcalls n (by omega), Option.bind_some]
          dsimp only
          rw [hrest n turns (by omega) (by omega)]
          rfl
        · refine List.forall_mem_cons.mpr
              ⟨⟨_, h₁, ?_⟩, List.forall_mem_append.mpr ⟨horderly, horderly'⟩⟩
          rintro q process event heq
          injection heq with hq hprocess hevent
          subst hq hprocess hevent
          exact ⟨fun hmem => ((h.nodup).mem_erase_iff.mp hmem).1 rfl, rfl, rfl⟩
        · have hall := hserves _ hserves'
          rw [hdue] at hall
          have hdispatch : Serves (self.due clock ts)
              (.dispatch t (self₁.timers t).process (self₁.timers t).event :: _) :=
              .dispatch hmem hall
          simpa using hdispatch

/-- **Every expired timer is served once.** Whatever the handlers start and stop, the
timer service comes to its end. At every moment the timers are a list without cycles or
repetitions, and a timer whose event is sent, with what it holds then, is off the list. Of
the timers that were on the list and had expired at the start, the event is sent once if
no handler has started or stopped the timer before; otherwise, and of all other timers,
it is not sent. -/
theorem timer_handler_serves_once {σ : Type} (handler : TimerHandler σ) (clock : Clock)
    {self : TimerList} {ts : List Nat} (h : self.Holds ts) (user : σ) :
    ∃ N r, (∀ n turns, N ≤ n → N ≤ turns →
        schedulerTimerHandler handler clock n turns self user = some r) ∧
      (∃ ts', r.1.Holds ts' ∧ ts'.Nodup) ∧
      (∀ x ∈ r.2.2, ∃ ts, x.2.Holds ts ∧ ts.Nodup ∧ ∀ t process event,
        x.1 = .dispatch t process event →
          t ∉ ts ∧ process = (x.2.timers t).process ∧ event = (x.2.timers t).event) ∧
      ∀ t, if t ∈ ts ∧ timerExpired (self.timer t) clock = true then
          ServedOnce t (r.2.2.map Prod.fst) ∨ Forestalled t (r.2.2.map Prod.fst)
        else ∀ a ∈ r.2.2.map Prod.fst, a.dispatches t = false := by
  obtain ⟨N, r, hends, ⟨ts', hholds⟩, horderly, hserves⟩ :=
    schedulerTimerHandler_spec handler clock _ h rfl user
  refine ⟨N, r, hends, ⟨ts', hholds, hholds.nodup⟩, fun x hx => ?_, fun t => ?_⟩
  · obtain ⟨ts, hx, hdispatch⟩ := horderly x hx
    exact ⟨ts, hx, hx.nodup, hdispatch⟩
  · obtain ⟨hdue, hother⟩ := hserves.each t
    split
    · rename_i ht
      exact hdue (TimerList.mem_due.mpr ht)
    · rename_i ht
      exact hother fun hmem => ht (TimerList.mem_due.mp hmem)

/-- Two timers that have expired. -/
def expiredPair : TimerList where
  processTimerHead := 16
  timers p :=
    if p = 16 then ⟨32, 100, { start := 0, interval := 10, flags := timerMs }, 1⟩
    else ⟨0, 200, { start := 0, interval := 20, flags := timerMs }, 2⟩

/-- The handler of the first event starts its timer again and stops the other one. -/
def restartAndStop : TimerHandler Unit :=
  fun _ event _ user =>
      (if event = 1 then [⟨.start 16 10, by decide⟩, ⟨.stop 32, by decide⟩] else [], user)

theorem timer_handler_serves_once_pair :
    expiredPair.Holds [16, 32] ∧ ∃ N r, (∀ n turns, N ≤ n → N ≤ turns →
      schedulerTimerHandler restartAndStop ⟨50, 0, 0⟩ n turns expiredPair () = some r) ∧
        (ServedOnce 16 (r.2.2.map Prod.fst) ∨ Forestalled 16 (r.2.2.map Prod.fst)) ∧
        ∀ a ∈ r.2.2.map Prod.fst, a.dispatches 48 = false := by
  have hholds : expiredPair.Holds [16, 32] := ⟨⟨rfl, rfl, rfl⟩, by decide⟩
  refine ⟨hholds, ?_⟩
  obtain ⟨N, r, hends, -, -, hserved⟩ :=
    timer_handler_serves_once restartAndStop ⟨50, 0, 0⟩ hholds ()
  have hfirst := hserved 16
  have hother := hserved 48
  rw [if_pos (by decide)] at hfirst
  rw [if_neg (by decide)] at hother
  exact ⟨N, r, hends, hfirst, hother⟩

example : ((schedulerTimerHandler restartAndStop ⟨50, 0, 0⟩ 5 5 expiredPair ()).map fun r =>
    r.2.2.map Prod.fst) = some [.dispatch 16 100 1, .call (.start 16 10), .call (.stop 32)] := by
  decide

end EmbeddedMx
