import Mathlib.Data.Option.Basic
import Mathlib.Logic.Function.Basic
import EmbeddedMx.Lib.TSys
import EmbeddedMx.Timer

/-!
# The lock (`lock.c`)

A locker keeps a flag and a timer; who has locked it is not written down. A client that
finds it locked and expired takes it over. What a client may believe is its lease: the
interval of its last successful lock, counted from then or from its last restart.

The clients and the clock make their steps in any order. Time is counted without
wrapping here; the locker sees it modulo `2 ^ 32`.
-/

namespace EmbeddedMx

open EmbeddedMx.Lib

/-! ## The functions of `lock.c` -/

def lockFail : Nat := 0
def lockSuccess : Nat := 1
def lockIntercepted : Nat := 2

/-- `struct locker` -/
structure Locker where
  timer : Timer
  locked : Bool
deriving DecidableEq, Repr

/-- `locker_init` -/
def lockerInit : Locker := { timer := timerStop, locked := false }

/-- `locker_restart` -/
def lockerRestart (self : Locker) (clock : Clock) : Locker :=
  { self with timer := timerRestart self.timer clock }

/-- `locker_lock` -/
def lockerLock (self : Locker) (clock : Clock) (flags time : Nat) : Locker × Nat :=
  let taken := { timer := timerStart clock flags time, locked := true }
  if self.locked then
    if !timerExpired self.timer clock then (self, lockFail)
    else
      -- Lock is obsolete
      (taken, lockIntercepted)
  else (taken, lockSuccess)

/-- `locker_release` -/
def lockerRelease (self : Locker) : Locker := { self with locked := false }

/-! ## Clients -/

/-- What a client holds: the clock it counts on, its reading at the last lock or restart,
and the interval. -/
structure Lease where
  flags : Nat
  since : Nat
  interval : Nat
deriving DecidableEq, Repr

/-- The interval has not passed. -/
def Lease.Live (l : Lease) (time : Clock) : Prop :=
  timerTstamp time l.flags < l.since + l.interval

instance (l : Lease) (time : Clock) : Decidable (l.Live time) := inferInstanceAs (Decidable (_ < _))

/-- The readings of the clocks, which are `uint32_t`. -/
def Clock.wrapped (time : Clock) : Clock :=
  { milis := time.milis % 2 ^ 32
    seconds := time.seconds % 2 ^ 32
    chrono := time.chrono % 2 ^ 32 }

/-- All clocks have gone on. -/
structure Clock.Before (time time' : Clock) : Prop where
  milis : time.milis ≤ time'.milis
  seconds : time.seconds ≤ time'.seconds
  chrono : time.chrono ≤ time'.chrono

/-- A call of a client, or the clocks go on. -/
inductive LockCall (ι : Type)
  | lock (i : ι) (flags time : Nat)
  | restart (i : ι)
  | release (i : ι)
  | advance (time : Clock)

/-- The locker and the time; of each client its lease and the number of successful locks
it has not released yet; and the client whose lock was the last successful one. -/
structure LockRun (ι : Type) where
  locker : Locker
  time : Clock
  lease : ι → Option Lease
  unreleased : ι → Nat
  last : Option ι

section Clients

variable {ι : Type} [DecidableEq ι]

/-- What a step does. -/
def lockTurn (s : LockRun ι) : LockCall ι → LockRun ι
  | .lock i flags time =>
      let r := lockerLock s.locker s.time.wrapped flags time
      if r.2 = lockFail then { s with locker := r.1 }
      else
        let lease := if time = 0 then none else some ⟨flags, timerTstamp s.time flags, time⟩
        { s with
          locker := r.1
          lease := Function.update s.lease i lease
          unreleased := Function.update s.unreleased i (s.unreleased i + 1)
          last := some i }
  | .restart i =>
      let lease := (s.lease i).map fun l => { l with since := timerTstamp s.time l.flags }
      { s with
        locker := lockerRestart s.locker s.time.wrapped
        lease := Function.update s.lease i lease }
  | .release i =>
      { s with
        locker := lockerRelease s.locker
        lease := Function.update s.lease i none
        unreleased := Function.update s.unreleased i (s.unreleased i - 1) }
  | .advance time => { s with time := time }

/-- Locks are restarted and released by clients that have locked, and released once for
each success; the clocks do not go back. -/
def LockCall.Allowed (s : LockRun ι) : LockCall ι → Prop
  | .lock _ _ _ => True
  | .restart i => 0 < s.unreleased i
  | .release i => 0 < s.unreleased i
  | .advance time => s.time.Before time

/-- A lock is restarted and released by the client that was the last one to lock. -/
def LockCall.Owned (s : LockRun ι) : LockCall ι → Prop
  | .restart i => s.last = some i
  | .release i => s.last = some i
  | _ => True

def lockStart (time : Clock) : LockRun ι :=
  { locker := lockerInit
    time := time
    lease := fun _ => none
    unreleased := fun _ => 0
    last := none }

/-- The runs of one locker with the clients `ι`. -/
def lockSystem (ι : Type) [DecidableEq ι] : TSys (LockRun ι) (LockCall ι) where
  init s := ∃ time, s = lockStart time
  step s call s' := call.Allowed s ∧ s' = lockTurn s call

/-- The client `i` holds an unexpired lease. -/
def LockRun.Holds (s : LockRun ι) (i : ι) : Prop := ∃ l, s.lease i = some l ∧ l.Live s.time

/-! ## Leases and the timer -/

/-- The timer that was started with the lease. -/
def Lease.timer (l : Lease) : Timer :=
  { start := l.since % 2 ^ 32, interval := l.interval, flags := l.flags }

omit [DecidableEq ι] in
theorem timerTstamp_wrapped (time : Clock) (flags : Nat) :
    timerTstamp time.wrapped flags = timerTstamp time flags % 2 ^ 32 := by
  unfold timerTstamp Clock.wrapped
  split
  · rfl
  · split <;> rfl

theorem Clock.Before.tstamp_le {time time' : Clock} (h : time.Before time') (flags : Nat) :
    timerTstamp time flags ≤ timerTstamp time' flags := by
  unfold timerTstamp
  split
  · exact h.seconds
  · split
    · exact h.chrono
    · exact h.milis

/-- The timer shows at most the time that has passed, so it does not expire early. -/
theorem Lease.not_expired {l : Lease} {time : Clock} (hlive : l.Live time)
    (hsince : l.since ≤ timerTstamp time l.flags) : timerExpired l.timer time.wrapped = false := by
  unfold Lease.Live at hlive
  have hvalue : timerValue l.timer time.wrapped ≤ timerTstamp time l.flags - l.since := by
    unfold timerValue
    rw [show l.timer.flags = l.flags from rfl, timerTstamp_wrapped]
    show (timerTstamp time l.flags % 2 ^ 32 + 2 ^ 32 - l.since % 2 ^ 32) % 2 ^ 32 ≤ _
    omega
  have hlt : timerValue l.timer time.wrapped < l.timer.interval := by
    show _ < l.interval
    omega
  unfold timerExpired
  rw [if_pos hlt]
  split <;> rfl

/-! ## The invariant -/

/-- Only the client that locked last may hold an unexpired lease, and the timer is the one
of its lease. -/
structure LockInv (s : LockRun ι) : Prop where
  owned : ∀ i l, s.last = some i → s.lease i = some l →
    s.locker.locked = true ∧ s.locker.timer = l.timer
  live : ∀ i, s.Holds i → s.last = some i
  since : ∀ i l, s.lease i = some l → l.since ≤ timerTstamp s.time l.flags

omit [DecidableEq ι] in
theorem LockInv.start (time : Clock) : LockInv (lockStart time : LockRun ι) where
  owned := nofun
  live := by
    rintro i ⟨l, hl, -⟩
    cases hl
  since := nofun

omit [DecidableEq ι] in
/-- As long as somebody holds an unexpired lease, nobody else can lock. -/
theorem LockInv.lock_fails {s : LockRun ι} (h : LockInv s) {i : ι} (hi : s.Holds i)
    (flags time : Nat) : lockerLock s.locker s.time.wrapped flags time = (s.locker, lockFail) := by
  have hlast := h.live i hi
  obtain ⟨l, hl, hlive⟩ := hi
  obtain ⟨hlocked, htimer⟩ := h.owned i l hlast hl
  have hexpired := Lease.not_expired hlive (h.since i l hl)
  unfold lockerLock
  dsimp only
  rw [if_pos hlocked, htimer, hexpired]
  rfl

omit [DecidableEq ι] in
/-- A lock that did not fail. -/
theorem lockerLock_succeeds {self : Locker} {clock : Clock} {flags time : Nat}
    (h : (lockerLock self clock flags time).2 ≠ lockFail) :
    (lockerLock self clock flags time).1 =
      { timer := timerStart clock flags time, locked := true } := by
  unfold lockerLock at h ⊢
  dsimp only at h ⊢
  split_ifs at h ⊢
  · exact absurd rfl h
  · rfl
  · rfl

omit [DecidableEq ι] in
/-- A lock that fails changes nothing. -/
theorem lockerLock_refused {self : Locker} {clock : Clock} {flags time : Nat}
    (h : (lockerLock self clock flags time).2 = lockFail) :
    (lockerLock self clock flags time).1 = self := by
  unfold lockerLock at h ⊢
  dsimp only at h ⊢
  split_ifs at h ⊢
  · rfl
  · cases h
  · cases h

/-- A lock starts a lease, and only when no other one runs. -/
theorem LockInv.lock {s : LockRun ι} (h : LockInv s) (i : ι) (flags time : Nat) :
    LockInv (lockTurn s (.lock i flags time)) := by
  unfold lockTurn
  dsimp only
  split
  · rename_i hfail
    rw [lockerLock_refused hfail]
    exact h
  · rename_i hok
    rw [lockerLock_succeeds hok]
    have hnobody : ∀ j, ¬ s.Holds j := by
      intro j hj
      rw [h.lock_fails hj] at hok
      exact hok rfl
    refine ⟨?_, ?_, ?_⟩
    · rintro j l hj hl
      injection hj with hj
      subst hj
      refine ⟨rfl, ?_⟩
      dsimp only at hl
      rw [Function.update_self] at hl
      split at hl
      · cases hl
      · injection hl with hl
        subst hl
        show timerStart _ flags time = _
        unfold timerStart
        rw [timerTstamp_wrapped]
        rfl
    · rintro j ⟨l, hl, hlive⟩
      rcases eq_or_ne j i with rfl | hne
      · rfl
      · dsimp only at hl
        rw [Function.update_of_ne hne] at hl
        exact absurd ⟨l, hl, hlive⟩ (hnobody j)
    · intro j l hl
      dsimp only at hl
      rcases eq_or_ne j i with rfl | hne
      · rw [Function.update_self] at hl
        split at hl
        · cases hl
        · injection hl with hl
          subst hl
          exact Nat.le_refl _
      · rw [Function.update_of_ne hne] at hl
        exact h.since j l hl

/-- A restart by the owner starts the lease and the timer again together. -/
theorem LockInv.restart {s : LockRun ι} (h : LockInv s) {i : ι} (hlast : s.last = some i) :
    LockInv (lockTurn s (.restart i)) := by
  have hnew : ∀ l, (lockTurn s (.restart i)).lease i = some l →
      ∃ l₀, s.lease i = some l₀ ∧ l = { l₀ with since := timerTstamp s.time l₀.flags } := by
    intro l hl
    simp only [lockTurn, Function.update_self, Option.map_eq_some_iff] at hl
    obtain ⟨l₀, hl₀, heq⟩ := hl
    exact ⟨l₀, hl₀, heq.symm⟩
  have hother : ∀ j, j ≠ i → (lockTurn s (.restart i)).lease j = s.lease j := by
    intro j hne
    simp only [lockTurn, Function.update_of_ne hne]
  refine ⟨?_, ?_, ?_⟩
  · intro j l hj hl
    obtain rfl : i = j := Option.some.inj (hlast.symm.trans hj)
    obtain ⟨l₀, hl₀, rfl⟩ := hnew l hl
    obtain ⟨hlocked, htimer⟩ := h.owned i l₀ hlast hl₀
    refine ⟨hlocked, ?_⟩
    show timerRestart s.locker.timer _ = _
    rw [htimer]
    unfold timerRestart Lease.timer
    dsimp only
    rw [timerTstamp_wrapped]
  · rintro j ⟨l, hl, hlive⟩
    rcases eq_or_ne j i with rfl | hne
    · exact hlast
    · rw [hother j hne] at hl
      exact h.live j ⟨l, hl, hlive⟩
  · intro j l hl
    rcases eq_or_ne j i with rfl | hne
    · obtain ⟨l₀, -, rfl⟩ := hnew l hl
      exact Nat.le_refl _
    · rw [hother j hne] at hl
      exact h.since j l hl

/-- A release by the owner leaves nobody with a lease that runs. -/
theorem LockInv.release {s : LockRun ι} (h : LockInv s) {i : ι} (hlast : s.last = some i) :
    LockInv (lockTurn s (.release i)) := by
  have hsome : ∀ j l, (lockTurn s (.release i)).lease j = some l → j ≠ i ∧ s.lease j = some l := by
    intro j l hl
    rcases eq_or_ne j i with rfl | hne
    · simp [lockTurn] at hl
    · simp only [lockTurn, Function.update_of_ne hne] at hl
      exact ⟨hne, hl⟩
  refine ⟨?_, ?_, ?_⟩
  · intro j l hj hl
    obtain rfl : i = j := Option.some.inj (hlast.symm.trans hj)
    exact absurd rfl (hsome i l hl).1
  · rintro j ⟨l, hl, hlive⟩
    obtain ⟨hne, hl⟩ := hsome j l hl
    have hj := h.live j ⟨l, hl, hlive⟩
    exact absurd (Option.some.inj (hj.symm.trans hlast)) hne
  · intro j l hl
    exact h.since j l (hsome j l hl).2

/-- As time goes on, leases can only run out. -/
theorem LockInv.advance {s : LockRun ι} (h : LockInv s) {time : Clock}
    (hbefore : s.time.Before time) : LockInv (lockTurn s (.advance time)) := by
  refine ⟨h.owned, ?_, ?_⟩
  · rintro j ⟨l, hl, hlive⟩
    exact h.live j ⟨l, hl, Nat.lt_of_le_of_lt (hbefore.tstamp_le l.flags) hlive⟩
  · intro j l hl
    exact Nat.le_trans (h.since j l hl) (hbefore.tstamp_le l.flags)

/-- Every step keeps it, if locks are restarted and released by their owners. -/
theorem LockInv.step {s : LockRun ι} {call : LockCall ι} (h : LockInv s) (hallowed : call.Allowed s)
    (howned : call.Owned s) : LockInv (lockTurn s call) := by
  cases call with
  | lock i flags time => exact h.lock i flags time
  | restart i => exact h.restart howned
  | release i => exact h.release howned
  | advance time => exact h.advance hallowed

/-- **One owner.** If a lock is restarted and released only by a client since whose lock no
other one has succeeded, then at no moment two clients hold an unexpired lease. -/
theorem lock_one_owner {s : LockRun ι}
    (hs : ((lockSystem ι).restrict fun s call => call.Owned s).Reachable s) {i j : ι}
    (hi : s.Holds i) (hj : s.Holds j) : i = j := by
  have hinv : ((lockSystem ι).restrict fun s call => call.Owned s).Invariant LockInv := by
    apply TSys.Inductive.invariant
    constructor
    · rintro s ⟨time, rfl⟩
      exact .start time
    · rintro s call s' h ⟨howned, hallowed, rfl⟩
      exact h.step hallowed howned
  have h := hinv s hs
  exact Option.some.inj ((h.live i hi).symm.trans (h.live j hj))

end Clients

/-! ## A late release -/

instance (time time' : Clock) : Decidable (time.Before time') :=
  decidable_of_iff (time.milis ≤ time'.milis ∧ time.seconds ≤ time'.seconds ∧
    time.chrono ≤ time'.chrono) ⟨fun ⟨h₁, h₂, h₃⟩ => ⟨h₁, h₂, h₃⟩, fun ⟨h₁, h₂, h₃⟩ => ⟨h₁, h₂, h₃⟩⟩

instance (s : LockRun Nat) : (call : LockCall Nat) → Decidable (call.Allowed s)
  | .lock _ _ _ => inferInstanceAs (Decidable True)
  | .restart i => inferInstanceAs (Decidable (0 < s.unreleased i))
  | .release i => inferInstanceAs (Decidable (0 < s.unreleased i))
  | .advance time => inferInstanceAs (Decidable (s.time.Before time))

instance (s : LockRun Nat) : (call : LockCall Nat) → Decidable (call.Owned s)
  | .lock _ _ _ => inferInstanceAs (Decidable True)
  | .restart i => inferInstanceAs (Decidable (s.last = some i))
  | .release i => inferInstanceAs (Decidable (s.last = some i))
  | .advance _ => inferInstanceAs (Decidable True)

/-- A list of allowed calls is a run. -/
theorem lockSystem_foldl {P : LockRun Nat → LockCall Nat → Prop} {s : LockRun Nat}
    (hs : ((lockSystem Nat).restrict P).Reachable s) (calls : List (LockCall Nat))
    (hcalls : ∀ n (h : n < calls.length), P ((calls.take n).foldl lockTurn s) calls[n] ∧
      calls[n].Allowed ((calls.take n).foldl lockTurn s)) :
    ((lockSystem Nat).restrict P).Reachable (calls.foldl lockTurn s) :=
  hs.foldl lockTurn calls fun n hn => ⟨(hcalls n hn).1, (hcalls n hn).2, rfl⟩

/-- `ms` milliseconds after power up. -/
def clockAt (ms : Nat) : Clock := { milis := ms, seconds := 0, chrono := 0 }

/-- Client 0 locks for 10 ms; the lease expires, and client 1 takes over. -/
def lockIntercept : List (LockCall Nat) :=
  [.lock 0 timerMs 10, .advance (clockAt 20), .lock 1 timerMs 100]

/-- Client 0 releases what is no longer its own, and client 2 locks. -/
def lockLateRelease : List (LockCall Nat) :=
  lockIntercept ++ [.release 0, .lock 2 timerMs 100]

theorem lock_one_owner_intercept :
    (lockIntercept.foldl lockTurn (lockStart (clockAt 0))).Holds 1 ∧
      ∀ i, (lockIntercept.foldl lockTurn (lockStart (clockAt 0))).Holds i → i = 1 := by
  have hone : (lockIntercept.foldl lockTurn (lockStart (clockAt 0))).Holds 1 :=
    ⟨⟨timerMs, 20, 100⟩, by decide, by decide⟩
  refine ⟨hone, fun i hi => ?_⟩
  exact lock_one_owner (lockSystem_foldl (.init ⟨_, rfl⟩) lockIntercept (by decide)) hi hone

/-- The locker does not know its owner: after a late release, two clients hold a lease. -/
theorem lock_late_release :
    ∃ s, (lockSystem Nat).Reachable s ∧ s.time.milis < 2 ^ 32 ∧ s.Holds 1 ∧ s.Holds 2 := by
  refine ⟨lockLateRelease.foldl lockTurn (lockStart (clockAt 0)), ?_, by decide, ?_, ?_⟩
  · apply TSys.Reachable.of_restrict (P := fun _ _ => True)
    apply lockSystem_foldl (.init ⟨_, rfl⟩)
    decide
  · exact ⟨⟨timerMs, 20, 100⟩, by decide, by decide⟩
  · exact ⟨⟨timerMs, 20, 100⟩, by decide, by decide⟩

end EmbeddedMx
