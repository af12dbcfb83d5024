import EmbeddedMx.Clock
import EmbeddedMx.Lib.TSys
import EmbeddedMx.Lib.Trace
import EmbeddedMx.Scheduler.Timers

/-!
# Process timers over whole runs

The main program updates the clock, starts and stops timers and calls the timer service, in
any order; the processes start and stop timers while they handle an event. A log says what
happened and when, in milliseconds since start-up. `pendingStart p` reads from it the start of
the timer `p` that is still to fire, and the memory agrees with it (`Follows`).

So every start fires at most once, not before its time, and not if the timer has been stopped
or started again; and when the timer service returns no start is overdue.
-/

namespace EmbeddedMx

open EmbeddedMx.Lib

/-! ## More turns -/

theorem timerSearch_mono {self : TimerList} {found : Nat → Bool} {n m a r : Nat}
    (h : timerSearch self found n a = some r) (hle : n ≤ m) :
    timerSearch self found m a = some r := by
  induction n generalizing m a with
  | zero => cases h
  | succ n ih =>
      obtain ⟨m, rfl⟩ := Nat.exists_eq_succ_of_ne_zero
        (Nat.ne_of_gt (Nat.lt_of_lt_of_le (Nat.succ_pos n) hle))
      unfold timerSearch at h ⊢
      split at h
      · rename_i hstop
        rw [if_pos hstop]
        exact h
      · rename_i hgo
        rw [if_neg hgo]
        exact ih h (Nat.le_of_succ_le_succ hle)

theorem timerFindLoop_mono {clock : Clock} {self : TimerList} {n m prev a : Nat} {r : Nat × Nat}
    (h : timerFindLoop clock self n prev a = some r) (hle : n ≤ m) :
    timerFindLoop clock self m prev a = some r := by
  induction n generalizing m prev a with
  | zero => cases h
  | succ n ih =>
      obtain ⟨m, rfl⟩ := Nat.exists_eq_succ_of_ne_zero
        (Nat.ne_of_gt (Nat.lt_of_lt_of_le (Nat.succ_pos n) hle))
      unfold timerFindLoop at h ⊢
      split at h
      · rename_i hend
        rw [if_pos hend]
        exact h
      · rename_i hmore
        rw [if_neg hmore]
        split at h
        · rename_i hexpired
          rw [if_pos hexpired]
          exact h
        · rename_i hgo
          rw [if_neg hgo]
          exact ih h (Nat.le_of_succ_le_succ hle)

/-! ## Processes and events -/

/-- The process of a timer, and the event that is sent to it. -/
def TimerList.owner (self : TimerList) (p : Nat) : Nat × Nat :=
  ((self.timers p).process, (self.timers p).event)

theorem owner_setTimer (self : TimerList) (p : Nat) (timer : Timer) :
    (self.setTimer p timer).owner = self.owner := by
  funext q
  rcases eq_or_ne q p with rfl | hne
  · simp [TimerList.owner, TimerList.setTimer, TimerList.set]
  · simp [TimerList.owner, TimerList.setTimer, TimerList.set, hne]

theorem owner_setNext (self : TimerList) (p next : Nat) :
    (self.setNext p next).owner = self.owner := by
  funext q
  rcases eq_or_ne q p with rfl | hne
  · simp [TimerList.owner, TimerList.setNext, TimerList.set]
  · simp [TimerList.owner, TimerList.setNext, TimerList.set, hne]

/-- A call that returns has started the timer. -/
theorem schedulerTimerStart_returns {self self' : TimerList} {ts : List Nat} (h : self.Holds ts)
    {n p time_ms : Nat} {clock : Clock} (hp : p ≠ 0)
    (hcall : schedulerTimerStart n clock self p time_ms = some self') :
    self'.Holds (if p ∈ ts then ts else p :: ts) ∧
      self'.timer = Function.update self.timer p (timerStart clock timerMs time_ms) ∧
      self'.owner = self.owner := by
  obtain ⟨self₁, hall, hholds, htimer⟩ := schedulerTimerStart_spec h hp clock time_ms
  obtain ⟨tmp, hsearch, hself'⟩ := Option.map_eq_some_iff.mp hcall
  -- with more turns the call returns the same, and then the spec speaks of it
  have hmore : schedulerTimerStart (max n (ts.length + 1)) clock self p time_ms = some self' :=
    Option.map_eq_some_iff.mpr ⟨tmp, timerSearch_mono hsearch (Nat.le_max_left _ _), hself'⟩
  rw [hall _ (Nat.lt_of_lt_of_le (Nat.lt_succ_self _) (Nat.le_max_right _ _))] at hmore
  cases hmore
  refine ⟨hholds, htimer, ?_⟩
  rw [← hself']
  dsimp only
  split
  · exact owner_setTimer ..
  · exact (owner_setNext ..).trans (owner_setTimer ..)

theorem schedulerTimerStop_returns {self self' : TimerList} {ts : List Nat} (h : self.Holds ts)
    {n p : Nat} (hp : p ≠ 0) (hcall : schedulerTimerStop n self p = some self') :
    self'.Holds (ts.erase p) ∧ self'.timer = Function.update self.timer p timerStop ∧
      self'.owner = self.owner := by
  obtain ⟨self₁, hall, hholds, htimer⟩ := schedulerTimerStop_spec h hp
  have hmore : schedulerTimerStop (max n (ts.length + 1)) self p = some self' := by
    unfold schedulerTimerStop at hcall ⊢
    dsimp only at hcall ⊢
    split at hcall
    · rename_i hhead
      rw [if_pos hhead]
      exact hcall
    · rename_i hhead
      rw [if_neg hhead]
      obtain ⟨tmp, hsearch, hself'⟩ := Option.map_eq_some_iff.mp hcall
      exact Option.map_eq_some_iff.mpr
        ⟨tmp, timerSearch_mono hsearch (Nat.le_max_left _ _), hself'⟩
  rw [hall _ (Nat.lt_of_lt_of_le (Nat.lt_succ_self _) (Nat.le_max_right _ _))] at hmore
  cases hmore
  refine ⟨hholds, htimer, ?_⟩
  unfold schedulerTimerStop at hcall
  dsimp only at hcall
  split at hcall
  · cases hcall
    exact owner_setTimer self p timerStop
  · obtain ⟨tmp, -, hself'⟩ := Option.map_eq_some_iff.mp hcall
    rw [← hself']
    split
    · exact owner_setTimer ..
    · exact (owner_setNext ..).trans (owner_setTimer ..)

/-- No timer has expired, or one has been taken off the list. -/
theorem schedulerTimerFindExpired_returns {self self' : TimerList} {ts : List Nat}
    (h : self.Holds ts) {n t : Nat} {clock : Clock}
    (hcall : schedulerTimerFindExpired n clock self = some (self', t)) :
    (t = 0 ∧ self' = self ∧ ∀ q ∈ ts, timerExpired (self.timer q) clock = false) ∨
    (t ≠ 0 ∧ t ∈ ts ∧ timerExpired (self.timer t) clock = true ∧ self'.Holds (ts.erase t) ∧
      self'.timer = Function.update self.timer t timerStop ∧ self'.owner = self.owner) := by
  obtain ⟨⟨prev, tmp⟩, hloop, hself'⟩ := Option.map_eq_some_iff.mp hcall
  have hmore : schedulerTimerFindExpired (max n (ts.length + 1)) clock self = some (self', t) :=
    Option.map_eq_some_iff.mpr ⟨_, timerFindLoop_mono hloop (Nat.le_max_left _ _), hself'⟩
  have hlt : ts.length < max n (ts.length + 1) :=
    Nat.lt_of_lt_of_le (Nat.lt_succ_self _) (Nat.le_max_right _ _)
  rcases schedulerTimerFindExpired_spec h clock with
    ⟨hnone, hall⟩ | ⟨q, hq, hexpired, self₁, hall, hholds, htimer⟩
  · rw [hall _ hlt] at hmore
    cases hmore
    exact .inl ⟨rfl, rfl, hnone⟩
  · rw [hall _ hlt] at hmore
    cases hmore
    refine .inr ⟨fun hzero => h.2 (hzero ▸ hq), hq, hexpired, hholds, htimer, ?_⟩
    dsimp only at hself'
    split at hself'
    · cases hself'
      rfl
    · split at hself'
      · cases hself'
        exact owner_setTimer self t timerStop
      · cases hself'
        exact (owner_setNext ..).trans (owner_setTimer ..)

/-! ## What a log says about a timer -/

/-- The time that a call sets its timer to, if it starts it. -/
def TimerCall.starts : TimerCall → Option Nat
  | .processStart _ _ time_ms _ => some time_ms
  | .start _ time_ms => some time_ms
  | .stop _ => none

/-- The start of the timer `p` that is still to fire, and the time it was set to: a call about
the timer replaces it, and it is over when its event is sent. -/
def pendingStart (p : Nat) (log : List (Nat × TimerAct)) : Option (Nat × Nat) :=
  log.foldl (fun pending x =>
    match x.2 with
    | .dispatch q _ _ => if q = p then none else pending
    | .call c => if c.self = p then c.starts.map (x.1, ·) else pending) none

/-- The process and the event that the timer `p` was given last. -/
def ownerIn (p : Nat) (log : List (Nat × TimerAct)) : Option (Nat × Nat) :=
  log.foldl (fun owner x =>
    match x.2 with
    | .call (.processStart q proc _ ev) => if q = p then some (proc, ev) else owner
    | _ => owner) none

section Log

variable (p : Nat) (log : List (Nat × TimerAct)) (t : Nat)

theorem pendingStart_dispatch (q proc ev : Nat) :
    pendingStart p (log ++ [(t, .dispatch q proc ev)]) =
      if q = p then none else pendingStart p log := by
  unfold pendingStart
  rw [List.foldl_append]
  rfl

theorem pendingStart_call (c : TimerCall) :
    pendingStart p (log ++ [(t, .call c)]) =
      if c.self = p then c.starts.map (t, ·) else pendingStart p log := by
  unfold pendingStart
  rw [List.foldl_append]
  rfl

theorem ownerIn_dispatch (q proc ev : Nat) :
    ownerIn p (log ++ [(t, .dispatch q proc ev)]) = ownerIn p log := by
  unfold ownerIn
  rw [List.foldl_append]
  rfl

theorem ownerIn_processStart (q proc time_ms ev : Nat) :
    ownerIn p (log ++ [(t, .call (.processStart q proc time_ms ev))]) =
      if q = p then some (proc, ev) else ownerIn p log := by
  unfold ownerIn
  rw [List.foldl_append]
  rfl

theorem ownerIn_start (q time_ms : Nat) :
    ownerIn p (log ++ [(t, .call (.start q time_ms))]) = ownerIn p log := by
  unfold ownerIn
  rw [List.foldl_append]
  rfl

theorem ownerIn_stop (q : Nat) :
    ownerIn p (log ++ [(t, .call (.stop q))]) = ownerIn p log := by
  unfold ownerIn
  rw [List.foldl_append]
  rfl

end Log

/-- Whenever an event is sent, its timer has a start that is still to fire and whose time has
passed, and the event goes to the process that the timer was given. -/
def FiredOk (pre : List (Nat × TimerAct)) (x : Nat × TimerAct) : Prop :=
  ∀ p proc ev, x.2 = .dispatch p proc ev →
    (∃ t ms, pendingStart p pre = some (t, ms) ∧ 0 < ms ∧ t ≤ x.1 ∧ ms ≤ (x.1 - t) % 2 ^ 32) ∧
    ∀ owner, ownerIn p pre = some owner → (proc, ev) = owner

/-! ## The memory agrees with the log -/

/-- The timers of the list `ts` are those with a start that is still to fire, and their memory
holds it; `now` is the time. -/
structure Follows (list : TimerList) (now : Nat) (log : List (Nat × TimerAct)) (ts : List Nat) :
    Prop where
  holds : list.Holds ts
  pending : ∀ p, p ∈ ts ↔ (pendingStart p log).isSome
  started : ∀ p t ms, pendingStart p log = some (t, ms) →
    t ≤ now ∧ list.timer p = { start := t % 2 ^ 32, interval := ms, flags := timerMs }
  owned : ∀ p owner, ownerIn p log = some owner → list.owner p = owner

section Follows

variable {self self' : TimerList} {now : Nat} {log : List (Nat × TimerAct)} {ts : List Nat}

/-- Time passes. -/
theorem Follows.later (h : Follows self now log ts) (ms : Nat) : Follows self (now + ms) log ts where
  holds := h.holds
  pending := h.pending
  started p t time_ms hpending :=
    ⟨Nat.le_add_right_of_le (h.started p t time_ms hpending).1, (h.started p t time_ms hpending).2⟩
  owned := h.owned

/-- A timer has expired if its start is still to fire and its time has passed. -/
theorem Follows.expired (h : Follows self now log ts) {clock : Clock}
    (hclock : clock.milis = now % 2 ^ 32) {p t ms : Nat}
    (hpending : pendingStart p log = some (t, ms)) :
    timerExpired (self.timer p) clock = true ↔ 0 < ms ∧ ms ≤ (now - t) % 2 ^ 32 := by
  obtain ⟨hle, htimer⟩ := h.started p t ms hpending
  have hvalue : timerValue (self.timer p) clock = (now - t) % 2 ^ 32 := by
    -- both readings are what 32 bits hold of the time
    have hstamp : timerTstamp clock timerMs = clock.milis := rfl
    rw [htimer, timerValue, hstamp, hclock]
    dsimp only
    omega
  unfold timerExpired
  rw [hvalue, htimer]
  dsimp only
  split
  · simp only [Bool.false_eq_true, false_iff]
    omega
  · split
    · simp only [Bool.false_eq_true, false_iff]
      omega
    · simp only [true_iff]
      omega

/-- The memory of one timer has changed, and the log says how. -/
theorem Follows.update (h : Follows self now log ts) {ts' : List Nat} {x : Nat × TimerAct} {p : Nat}
    {timer : Timer} (hholds : self'.Holds ts')
    (htimer : self'.timer = Function.update self.timer p timer)
    (hts : ∀ q, q ≠ p → (q ∈ ts' ↔ q ∈ ts))
    (hother : ∀ q, q ≠ p → pendingStart q (log ++ [x]) = pendingStart q log)
    (hmem : p ∈ ts' ↔ (pendingStart p (log ++ [x])).isSome)
    (hstarted : ∀ t ms, pendingStart p (log ++ [x]) = some (t, ms) →
      t ≤ now ∧ timer = { start := t % 2 ^ 32, interval := ms, flags := timerMs })
    (howned : ∀ q owner, ownerIn q (log ++ [x]) = some owner → self'.owner q = owner) :
    Follows self' now (log ++ [x]) ts' where
  holds := hholds
  pending q := by
    rcases eq_or_ne q p with rfl | hne
    · exact hmem
    · rw [hts q hne, hother q hne]
      exact h.pending q
  started q t ms hpending := by
    rw [htimer]
    rcases eq_or_ne q p with rfl | hne
    · rw [Function.update_self]
      exact hstarted t ms hpending
    · rw [Function.update_of_ne hne]
      exact h.started q t ms (hother q hne ▸ hpending)
  owned := howned

/-- `scheduler_timer_start`, as a call or behind `process_timer_start`. -/
theorem Follows.start (h : Follows self now log ts) {clock : Clock}
    (hclock : clock.milis = now % 2 ^ 32) {c : TimerCall} (hc : c.self ≠ 0) {time_ms n : Nat}
    (hstarts : c.starts = some time_ms) {self₀ : TimerList} (hnext : self₀.next = self.next)
    (hhead : self₀.processTimerHead = self.processTimerHead) (htimer : self₀.timer = self.timer)
    (howned : ∀ q owner, ownerIn q (log ++ [(now, .call c)]) = some owner → self₀.owner q = owner)
    (hcall : schedulerTimerStart n clock self₀ c.self time_ms = some self') :
    ∃ ts', Follows self' now (log ++ [(now, .call c)]) ts' := by
  have hholds₀ : self₀.Holds ts := by
    unfold TimerList.Holds
    rw [hnext, hhead]
    exact h.holds
  obtain ⟨hholds, htimer', howner⟩ := schedulerTimerStart_returns hholds₀ hc hcall
  refine ⟨_, h.update hholds (htimer ▸ htimer') (fun q hne => ?_) (fun q hne => ?_) ?_ ?_ ?_⟩
  · split
    · rfl
    · simp [hne]
  · rw [pendingStart_call, if_neg hne.symm]
  · rw [pendingStart_call, if_pos rfl, hstarts]
    split
    · rename_i hmem
      exact iff_of_true hmem rfl
    · exact iff_of_true List.mem_cons_self rfl
  · intro t ms hpending
    rw [pendingStart_call, if_pos rfl, hstarts] at hpending
    cases hpending
    refine ⟨Nat.le_refl _, ?_⟩
    unfold timerStart
    rw [← hclock]
    rfl
  · rw [howner]
    exact howned

/-- A call. -/
theorem Follows.call (h : Follows self now log ts) {clock : Clock}
    (hclock : clock.milis = now % 2 ^ 32) {c : TimerCall} (hc : c.self ≠ 0) {n : Nat}
    (hcall : execTimerCall n clock self c = some self') :
    ∃ ts', Follows self' now (log ++ [(now, .call c)]) ts' := by
  cases c with
  | processStart p proc time_ms ev =>
      -- process and event are written first, and the timer is started then
      have hcall : schedulerTimerStart n clock
          (self.set p { self.timers p with process := proc, event := ev }) p time_ms = some self' :=
        hcall
      refine h.start hclock hc rfl ?_ ?_ ?_ ?_ hcall
      · funext q
        rcases eq_or_ne q p with rfl | hne
        · simp [TimerList.next, TimerList.set]
        · simp [TimerList.next, TimerList.set, hne]
      · rfl
      · funext q
        rcases eq_or_ne q p with rfl | hne
        · simp [TimerList.timer, TimerList.set]
        · simp [TimerList.timer, TimerList.set, hne]
      · intro q owner howner
        rw [ownerIn_processStart] at howner
        split at howner
        · rename_i heq
          cases howner
          simp [TimerList.owner, TimerList.set, heq]
        · rename_i hne
          rw [← h.owned q owner howner]
          simp [TimerList.owner, TimerList.set, Ne.symm hne]
  | start p time_ms =>
      refine h.start hclock hc rfl rfl rfl rfl (fun q owner howner => ?_) hcall
      rw [ownerIn_start] at howner
      exact h.owned q owner howner
  | stop p =>
      have hp : p ≠ 0 := hc
      obtain ⟨hholds, htimer, howner⟩ := schedulerTimerStop_returns h.holds hp hcall
      have hnone : pendingStart p (log ++ [(now, .call (.stop p))]) = none := by
        rw [pendingStart_call]
        exact if_pos rfl
      refine ⟨_, h.update hholds htimer (fun q hne => List.mem_erase_of_ne hne) (fun q hne => ?_)
        ?_ ?_ ?_⟩
      · rw [pendingStart_call]
        exact if_neg hne.symm
      · rw [hnone, h.holds.nodup.mem_erase_iff]
        simp
      · rw [hnone]
        intro t ms hpending
        cases hpending
      · intro q owner hq
        rw [ownerIn_stop] at hq
        rw [howner]
        exact h.owned q owner hq

/-- The event of a timer is sent. -/
theorem Follows.dispatch (h : Follows self now log ts) {p proc ev : Nat}
    (hholds : self'.Holds (ts.erase p)) (htimer : self'.timer = Function.update self.timer p timerStop)
    (howner : self'.owner = self.owner) :
    Follows self' now (log ++ [(now, .dispatch p proc ev)]) (ts.erase p) := by
  have hnone : pendingStart p (log ++ [(now, .dispatch p proc ev)]) = none := by
    rw [pendingStart_dispatch]
    exact if_pos rfl
  refine h.update hholds htimer (fun q hne => List.mem_erase_of_ne hne) (fun q hne => ?_) ?_ ?_ ?_
  · rw [pendingStart_dispatch, if_neg hne.symm]
  · rw [hnone, h.holds.nodup.mem_erase_iff]
    simp
  · rw [hnone]
    intro t ms hpending
    cases hpending
  · intro q owner hq
    rw [ownerIn_dispatch] at hq
    rw [howner]
    exact h.owned q owner hq

end Follows

/-! ## The timer service -/

/-- What the service did, at the time `now`. -/
def stamped (now : Nat) (acts : List (TimerAct × TimerList)) : List (Nat × TimerAct) :=
  acts.map fun x => (now, x.1)

/-- The calls of a handler. -/
theorem Follows.calls {self self' : TimerList} {now : Nat} {log : List (Nat × TimerAct)}
    {ts : List Nat} (h : Follows self now log ts) {clock : Clock}
    (hclock : clock.milis = now % 2 ^ 32) {n : Nat} {calls : List { c : TimerCall // c.self ≠ 0 }}
    {acts : List (TimerAct × TimerList)}
    (hcalls : execTimerCalls n clock self calls = some (self', acts)) :
    (∃ ts', Follows self' now (log ++ stamped now acts) ts') ∧
      ∀ x ∈ stamped now acts, ∀ pre, FiredOk pre x := by
  induction calls generalizing self acts log ts with
  | nil =>
      cases hcalls
      refine ⟨⟨ts, ?_⟩, nofun⟩
      rw [stamped, List.map_nil, List.append_nil]
      exact h
  | cons c calls ih =>
      obtain ⟨self₁, hcall, hmap⟩ := Option.bind_eq_some_iff.mp hcalls
      obtain ⟨⟨self₂, acts'⟩, hrest, heq⟩ := Option.map_eq_some_iff.mp hmap
      cases heq
      obtain ⟨ts₁, h₁⟩ := h.call hclock c.2 hcall
      obtain ⟨⟨ts', h'⟩, hfired⟩ := ih h₁ hrest
      rw [List.append_assoc] at h'
      exact ⟨⟨ts', h'⟩, List.forall_mem_cons.mpr ⟨fun _ => nofun, hfired⟩⟩

/-- The service, with the calls of the handlers. -/
theorem Follows.service {σ : Type} (handler : TimerHandler σ) {self : TimerList} {now : Nat}
    {log : List (Nat × TimerAct)} {ts : List Nat} (h : Follows self now log ts) {clock : Clock}
    (hclock : clock.milis = now % 2 ^ 32) {n turns : Nat} {user : σ}
    {r : TimerList × σ × List (TimerAct × TimerList)}
    (hservice : schedulerTimerHandler handler clock n turns self user = some r) :
    ∃ ts', Follows r.1 now (log ++ stamped now r.2.2) ts' ∧
      Each (fun pre x => FiredOk (log ++ pre) x) (stamped now r.2.2) ∧
      ∀ q ∈ ts', timerExpired (r.1.timer q) clock = false := by
  induction turns generalizing self log ts user r with
  | zero => cases hservice
  | succ turns ih =>
      obtain ⟨⟨self₁, p⟩, hfind, hserved⟩ := Option.bind_eq_some_iff.mp hservice
      dsimp only at hserved
      rcases schedulerTimerFindExpired_returns h.holds hfind with
        ⟨rfl, rfl, hnone⟩ | ⟨hp, hmem, hexpired, hholds, htimer, howner⟩
      · rw [if_pos rfl] at hserved
        cases hserved
        refine ⟨ts, ?_, each_nil _, hnone⟩
        rw [stamped, List.map_nil, List.append_nil]
        exact h
      · rw [if_neg hp] at hserved
        obtain ⟨⟨self₂, acts⟩, hcalls, hmap⟩ := Option.bind_eq_some_iff.mp hserved
        obtain ⟨⟨self₃, user', rest⟩, hrest, heq⟩ := Option.map_eq_some_iff.mp hmap
        cases heq
        have hsent : FiredOk log
            (now, .dispatch p (self₁.timers p).process (self₁.timers p).event) := by
          rintro p proc ev heq
          cases heq
          obtain ⟨⟨t, ms⟩, hpending⟩ := Option.isSome_iff_exists.mp ((h.pending p).mp hmem)
          obtain ⟨hpos, htime⟩ := (h.expired hclock hpending).mp hexpired
          refine ⟨⟨t, ms, hpending, hpos, (h.started p t ms hpending).1, htime⟩,
            fun owner hin => ?_⟩
          show self₁.owner p = owner
          rw [howner]
          exact h.owned p owner hin
        -- what is on the list changes with the event, with each call, and with the other turns
        have h₁ : Follows self₁ now
            (log ++ [(now, .dispatch p (self₁.timers p).process (self₁.timers p).event)])
            (ts.erase p) :=
          h.dispatch hholds htimer howner
        obtain ⟨⟨ts₂, h₂⟩, hcalled⟩ := h₁.calls hclock hcalls
        obtain ⟨ts', h', hfired, hdone⟩ := ih h₂ hrest
        have hsplit : stamped now ((.dispatch p (self₁.timers p).process (self₁.timers p).event,
            self₁) :: acts ++ rest) =
            (now, .dispatch p (self₁.timers p).process (self₁.timers p).event) ::
              (stamped now acts ++ stamped now rest) := by
          unfold stamped
          rw [List.cons_append, List.map_cons, List.map_append]
        refine ⟨ts', ?_, ?_, hdone⟩
        · rw [hsplit]
          simpa using h'
        · rw [hsplit]
          refine each_cons (by simpa using hsent) (each_append ?_ ?_)
          · exact each_of_forall fun x hx pre => hcalled x hx _
          · simpa using hfired

/-! ## Runs -/

/-- What the main program does: the clock is updated, a timer is started or stopped, or the
timer service is called. -/
inductive TimerInput
  | clockUpdate (ms chrono : UInt32)
  | call (c : { c : TimerCall // c.self ≠ 0 })
  | timerHandler
deriving DecidableEq

/-- The clock, the timers and the memory of the application; `now` is the time since start-up,
in milliseconds. -/
structure TimerWorld (σ : Type) where
  clock : ClockState
  list : TimerList
  user : σ
  now : Nat
  log : List (Nat × TimerAct)

def TimerWorld.next {σ : Type} (handler : TimerHandler σ) (n : Nat) (w : TimerWorld σ) :
    TimerInput → Option (TimerWorld σ)
  | .clockUpdate ms chrono =>
      some { w with clock := clockUpdate w.clock ms chrono, now := w.now + ms.toNat }
  | .call c => (execTimerCall n w.clock.reading w.list c.1).map fun list =>
      { w with list := list, log := w.log ++ [(w.now, .call c.1)] }
  | .timerHandler =>
      (schedulerTimerHandler handler w.clock.reading n n w.list w.user).map fun (list, user, acts) =>
        { w with list := list, user := user, log := w.log ++ stamped w.now acts }

def TimerWorld.run {σ : Type} (handler : TimerHandler σ) (n : Nat) (w : TimerWorld σ)
    (is : List TimerInput) : Option (TimerWorld σ) :=
  is.foldlM (fun w i => TimerWorld.next handler n w i) w

/-- The runs from start-up, when no timer is on the list; what the memory of the timers holds
then is open. -/
def timerSystem {σ : Type} (handler : TimerHandler σ) : TSys (TimerWorld σ) TimerInput where
  init w := w.clock = clockStart ∧ w.list.processTimerHead = 0 ∧ w.now = 0 ∧ w.log = []
  step w i w' := ∃ n, w.next handler n i = some w'

/-- In every state of a run. -/
structure TimersOk {σ : Type} (w : TimerWorld σ) : Prop where
  clock : w.clock.clockMs.toNat = w.now % 2 ^ 32
  follows : ∃ ts, Follows w.list w.now w.log ts
  fired : Each FiredOk w.log

/-- One step; behind the timer service no timer has expired. -/
theorem TimersOk.next {σ : Type} (handler : TimerHandler σ) {w w' : TimerWorld σ} (h : TimersOk w)
    {n : Nat} {i : TimerInput} (hnext : w.next handler n i = some w') :
    TimersOk w' ∧ (i = .timerHandler → ∃ ts, Follows w'.list w'.now w'.log ts ∧
      ∀ q ∈ ts, timerExpired (w'.list.timer q) w'.clock.reading = false) := by
  obtain ⟨ts, hfollows⟩ := h.follows
  cases i with
  | clockUpdate ms chrono =>
      cases hnext
      refine ⟨⟨?_, ⟨ts, hfollows.later _⟩, h.fired⟩, nofun⟩
      rw [clockUpdate_ms, h.clock, Nat.mod_add_mod]
  | call c =>
      obtain ⟨list, hcall, rfl⟩ := Option.map_eq_some_iff.mp hnext
      refine ⟨⟨h.clock, hfollows.call h.clock c.2 hcall, each_append h.fired ?_⟩, nofun⟩
      exact each_of_forall fun x hx pre => by
        rw [List.mem_singleton.mp hx]
        exact nofun
  | timerHandler =>
      obtain ⟨⟨list, user, acts⟩, hservice, rfl⟩ := Option.map_eq_some_iff.mp hnext
      obtain ⟨ts', h', hfired, hdone⟩ := hfollows.service handler h.clock hservice
      exact ⟨⟨h.clock, ⟨ts', h'⟩, each_append h.fired hfired⟩, fun _ => ⟨ts', h', hdone⟩⟩

theorem timerSystem_ok {σ : Type} (handler : TimerHandler σ) :
    (timerSystem handler).Invariant TimersOk := by
  refine TSys.Inductive.invariant ⟨?_, ?_⟩
  · rintro w ⟨hclock, hhead, hnow, hlog⟩
    refine ⟨?_, ⟨[], ⟨⟨hhead, nofun⟩, ?_, ?_, ?_⟩⟩, ?_⟩
    · rw [hclock, hnow]
      rfl
    · rw [hlog]
      exact fun p => ⟨nofun, nofun⟩
    · rw [hlog]
      exact fun p t ms => nofun
    · rw [hlog]
      exact fun p owner => nofun
    · rw [hlog]
      exact each_nil _
  · rintro w i w' h ⟨n, hnext⟩
    exact (h.next handler hnext).1

/-- Every call returns. -/
theorem TimersOk.returns {σ : Type} (handler : TimerHandler σ) {w : TimerWorld σ} (h : TimersOk w)
    (i : TimerInput) : ∃ w' N, ∀ n, N ≤ n → w.next handler n i = some w' := by
  obtain ⟨ts, hfollows⟩ := h.follows
  cases i with
  | clockUpdate ms chrono => exact ⟨_, 0, fun _ _ => rfl⟩
  | call c =>
      obtain ⟨list, -, hcall, -⟩ := execTimerCall_spec hfollows.holds w.clock.reading c
      refine ⟨{ w with list := list, log := w.log ++ [(w.now, .call c.1)] }, ts.length + 1,
        fun n hn => ?_⟩
      show (execTimerCall n w.clock.reading w.list c.1).map _ = _
      rw [hcall n hn]
      rfl
  | timerHandler =>
      obtain ⟨N, r, hservice, -⟩ :=
        schedulerTimerHandler_spec handler w.clock.reading _ hfollows.holds rfl w.user
      refine ⟨{ w with list := r.1, user := r.2.1, log := w.log ++ stamped w.now r.2.2 }, N,
        fun n hn => ?_⟩
      show (schedulerTimerHandler handler w.clock.reading n n w.list w.user).map _ = _
      rw [hservice n n hn hn]
      rfl

/-- **A start fires once, in time.** The clock is updated and the timers are started and stopped
in any order, by the main program and by the processes that handle an event. The list holds
the timers with a start that is still to fire, without repetitions, and every call returns. An
event is only sent for such a start, when its time has passed, and to the process the timer was
given; that ends the start, as a call about the timer does. Behind the timer service, the time
of no start that is still to fire has passed, counted in 32 bits. -/
theorem process_timers_fire {σ : Type} (handler : TimerHandler σ) {w : TimerWorld σ}
    (h : (timerSystem handler).Reachable w) :
    (∃ ts, w.list.Holds ts ∧ ts.Nodup ∧ ∀ p, p ∈ ts ↔ (pendingStart p w.log).isSome) ∧
      Each FiredOk w.log ∧ (∀ i, ∃ w' N, ∀ n, N ≤ n → w.next handler n i = some w') ∧
      ∀ n w', w.next handler n .timerHandler = some w' →
        ∀ p t ms, pendingStart p w'.log = some (t, ms) → 0 < ms → (w'.now - t) % 2 ^ 32 < ms := by
  have hok := timerSystem_ok handler w h
  obtain ⟨ts, hfollows⟩ := hok.follows
  refine ⟨⟨ts, hfollows.holds, hfollows.holds.nodup, hfollows.pending⟩, hok.fired,
    hok.returns handler, fun n w' hnext p t ms hpending hpos => ?_⟩
  obtain ⟨hok', hservice⟩ := hok.next handler hnext
  obtain ⟨ts', hfollows', hdone⟩ := hservice rfl
  -- such a start is on the list, where no timer has expired
  have hrunning := hdone p ((hfollows'.pending p).mpr (by rw [hpending]; rfl))
  by_contra hlate
  rw [(hfollows'.expired hok'.clock hpending).mpr ⟨hpos, not_lt.mp hlate⟩] at hrunning
  cases hrunning

/-- Two timers are started, and the first of them is started again and stops the other one
whenever its event is sent. -/
def twoTimers : List TimerInput :=
  [.call ⟨.processStart 32 200 10 2, by decide⟩, .call ⟨.processStart 16 100 10 1, by decide⟩,
    .clockUpdate 10 0, .timerHandler, .clockUpdate 25 0, .timerHandler]

def twoTimersStart : TimerWorld Unit where
  clock := clockStart
  list := { expiredPair with processTimerHead := 0 }
  user := ()
  now := 0
  log := []

theorem process_timers_fire_twice : ∃ w, (timerSystem restartAndStop).Reachable w ∧
    w.log.map (fun x => (x.1, x.2.dispatches 16)) =
      [(0, false), (0, false), (10, true), (10, false), (10, false), (35, true), (35, false),
        (35, false)] ∧ Each FiredOk w.log := by
  obtain ⟨w, hrun, hlog⟩ := Option.map_eq_some_iff.mp
    (show (twoTimersStart.run restartAndStop 5 twoTimers).map
      (fun w => w.log.map fun x => (x.1, x.2.dispatches 16)) =
        some [(0, false), (0, false), (10, true), (10, false), (10, false), (35, true), (35, false),
          (35, false)] from by decide +kernel)
  have hstart : (timerSystem restartAndStop).Reachable twoTimersStart :=
    .init ⟨rfl, rfl, rfl, rfl⟩
  have hreach : (timerSystem restartAndStop).Reachable w :=
    hstart.foldlM (fun _ _ _ hnext => ⟨5, hnext⟩) hrun
  exact ⟨w, hreach, hlog, (process_timers_fire restartAndStop hreach).2.1⟩

end EmbeddedMx
