import Mathlib.Algebra.Group.Nat.Defs
import Mathlib.Order.Basic

/-!
# Timers (`timer.h`)

A timer stores the clock reading at its start and an interval; interval 0 means
that it is stopped. Clock readings and intervals are 32-bit, differences wrap.
-/

namespace EmbeddedMx

/-- The readings of `clock_get_milis`, `clock_get_seconds`, `clock_get_chrono`. -/
structure Clock where
  milis : Nat
  seconds : Nat
  chrono : Nat
deriving DecidableEq, Repr

def timerMs : Nat := 0
def timerSec : Nat := 1
def timerChrono : Nat := 2

structure Timer where
  start : Nat
  interval : Nat
  flags : Nat
deriving DecidableEq, Repr

/-- `timer_tstamp` -/
def timerTstamp (clock : Clock) (flags : Nat) : Nat :=
  if flags &&& timerSec ≠ 0 then clock.seconds
  else if flags &&& timerChrono ≠ 0 then clock.chrono
  else clock.milis

/-- `timer_start` -/
def timerStart (clock : Clock) (flags interval : Nat) : Timer :=
  { start := timerTstamp clock flags, interval := interval, flags := flags }

/-- `timer_stop` -/
def timerStop : Timer := { start := 0, interval := 0, flags := 0 }

/-- `timer_restart` -/
def timerRestart (self : Timer) (clock : Clock) : Timer :=
  { self with start := timerTstamp clock self.flags }

/-- `timer_running` -/
def timerRunning (self : Timer) : Bool := self.interval ≠ 0

/-- `timer_value` -/
def timerValue (self : Timer) (clock : Clock) : Nat :=
  (timerTstamp clock self.flags + 2 ^ 32 - self.start) % 2 ^ 32

/-- `timer_remaining` -/
def timerRemaining (self : Timer) (clock : Clock) : Nat :=
  let value := timerValue self clock
  if value < self.interval then self.interval - value else 0

/-- `timer_expired` -/
def timerExpired (self : Timer) (clock : Clock) : Bool :=
  if self.interval = 0 then false
  else if timerValue self clock < self.interval then false
  else true

@[simp] theorem timerRunning_stop : timerRunning timerStop = false := rfl

@[simp] theorem timerExpired_stop (clock : Clock) : timerExpired timerStop clock = false := rfl

/-- A timer is not expired at the instant it is started. -/
theorem timerExpired_start (clock : Clock) (flags : Nat) {interval : Nat} (h : 0 < interval) :
    timerExpired (timerStart clock flags interval) clock = false := by
  have hvalue : timerValue (timerStart clock flags interval) clock = 0 := by
    simp only [timerValue, timerStart]
    omega
  unfold timerExpired
  rw [hvalue]
  simp [timerStart, h]

end EmbeddedMx
