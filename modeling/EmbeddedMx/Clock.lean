import Mathlib.Data.UInt
import EmbeddedMx.Timer

/-!
# The clock (`timer.c`)

Milliseconds and seconds are counted in 32 bits each. The part of a second that has not
been counted yet is not stored: it is taken to be the milliseconds modulo 1000. But the
millisecond counter wraps at a number that is 296 above a multiple of 1000, so the wrap
moves that part: back by 296 ms, or forward by 704 ms if the call ends less than 296 ms
after a full second.
-/

namespace EmbeddedMx

/-- `clock_ms`, `clock_s`, `clock_chrono` -/
structure ClockState where
  clockMs : UInt32
  clockS : UInt32
  clockChrono : UInt32
deriving DecidableEq, Repr

/-- The clock at start-up. -/
def clockStart : ClockState := { clockMs := 0, clockS := 0, clockChrono := 0 }

/-- Update clock values. -/
def clockUpdate (self : ClockState) (ms chrono : UInt32) : ClockState :=
  if ms ≠ 0 then
    { clockS := self.clockS + (self.clockMs % 1000 + ms) / 1000
      clockMs := self.clockMs + ms
      clockChrono := chrono }
  else { self with clockChrono := chrono }

/-- What `clock_get_milis`, `clock_get_seconds` and `clock_get_chrono` return. -/
def ClockState.reading (self : ClockState) : Clock :=
  { milis := self.clockMs.toNat
    seconds := self.clockS.toNat
    chrono := if self.clockChrono ≠ 0 then self.clockChrono.toNat else self.clockS.toNat }

theorem clockUpdate_ms (self : ClockState) (ms chrono : UInt32) :
    (clockUpdate self ms chrono).clockMs.toNat = (self.clockMs.toNat + ms.toNat) % 2 ^ 32 := by
  unfold clockUpdate
  split
  · exact UInt32.toNat_add _ _
  · rename_i hms
    rw [not_not.mp hms]
    exact (Nat.mod_eq_of_lt self.clockMs.toNat_lt).symm

theorem clockUpdate_s (self : ClockState) (ms chrono : UInt32) :
    (clockUpdate self ms chrono).clockS.toNat =
      (self.clockS.toNat + (self.clockMs.toNat % 1000 + ms.toNat) % 2 ^ 32 / 1000) % 2 ^ 32 := by
  unfold clockUpdate
  split
  · rw [UInt32.toNat_add, UInt32.toNat_div, UInt32.toNat_add, UInt32.toNat_mod]
    rfl
  · rename_i hms
    have hlt := self.clockS.toNat_lt
    have hzero : ms.toNat = 0 := by
      rw [not_not.mp hms]
      rfl
    rw [hzero]
    show self.clockS.toNat = _
    omega

/-! ## Seconds -/

/-- The calls of `clock_update`, each with its `ms` and `chrono`. -/
def clockUpdates (self : ClockState) (calls : List (UInt32 × UInt32)) : ClockState :=
  calls.foldl (fun self c => clockUpdate self c.1 c.2) self

/-- The milliseconds that the calls add up to. -/
def elapsed (calls : List (UInt32 × UInt32)) : Nat := (calls.map fun c => c.1.toNat).sum

/-- A call of `ms` milliseconds, `t` milliseconds after start-up, carries the millisecond
counter past its wrap, and ends less than 296 ms after a full second. -/
def WrapsEarly (t ms : Nat) : Prop :=
  2 ^ 32 ≤ t % 2 ^ 32 + ms ∧ (t % 2 ^ 32 % 1000 + ms) % 1000 < 296

instance (t ms : Nat) : Decidable (WrapsEarly t ms) := inferInstanceAs (Decidable (_ ∧ _))

/-- The number of such calls, the first of them `t` milliseconds after start-up. -/
def earlyWraps (t : Nat) : List (UInt32 × UInt32) → Nat
  | [] => 0
  | c :: calls =>
      (if WrapsEarly t c.1.toNat then 1 else 0) + earlyWraps (t + c.1.toNat) calls

/-- The clock `t` milliseconds after start-up, with `early` early wraps so far. `seconds` is
what `clock_s` would be if it did not wrap. -/
structure ClockAt (t early seconds : Nat) (clock : ClockState) : Prop where
  ms : clock.clockMs.toNat = t % 2 ^ 32
  s : clock.clockS.toNat = seconds % 2 ^ 32
  sum : 1000 * seconds + t % 2 ^ 32 % 1000 + 296 * (t / 2 ^ 32) = t + 1000 * early

theorem clockStart_at : ClockAt 0 0 0 clockStart := ⟨rfl, rfl, rfl⟩

/-- One call. -/
theorem ClockAt.update {t early seconds : Nat} {self : ClockState}
    (h : ClockAt t early seconds self) {ms : UInt32} (hms : ms.toNat < 2 ^ 31)
    (chrono : UInt32) :
    ∃ seconds', ClockAt (t + ms.toNat) (early + if WrapsEarly t ms.toNat then 1 else 0) seconds'
      (clockUpdate self ms chrono) := by
  refine ⟨seconds + (t % 2 ^ 32 % 1000 + ms.toNat) / 1000, ?_, ?_, ?_⟩
  · rw [clockUpdate_ms, h.ms]
    omega
  · rw [clockUpdate_s, h.ms, h.s]
    omega
  · have hsum := h.sum
    by_cases hwrap : 2 ^ 32 ≤ t % 2 ^ 32 + ms.toNat
    · have hmod : (t + ms.toNat) % 2 ^ 32 = t % 2 ^ 32 + ms.toNat - 2 ^ 32 := by omega
      have hdiv : (t + ms.toNat) / 2 ^ 32 = t / 2 ^ 32 + 1 := by omega
      rw [hmod, hdiv]
      split
      · rename_i hearly
        have hrest := hearly.2
        omega
      · rename_i hlate
        have hrest : ¬ (t % 2 ^ 32 % 1000 + ms.toNat) % 1000 < 296 := fun hlt => hlate ⟨hwrap, hlt⟩
        omega
    · have hmod : (t + ms.toNat) % 2 ^ 32 = t % 2 ^ 32 + ms.toNat := by omega
      have hdiv : (t + ms.toNat) / 2 ^ 32 = t / 2 ^ 32 := by omega
      rw [hmod, hdiv, if_neg fun hearly => hwrap hearly.1]
      omega

/-- A run. -/
theorem ClockAt.updates {t early seconds : Nat} {self : ClockState}
    (h : ClockAt t early seconds self) {calls : List (UInt32 × UInt32)}
    (hms : ∀ c ∈ calls, c.1.toNat < 2 ^ 31) :
    ∃ seconds', ClockAt (t + elapsed calls) (early + earlyWraps t calls) seconds'
      (clockUpdates self calls) := by
  induction calls generalizing t early seconds self with
  | nil => exact ⟨seconds, h⟩
  | cons c calls ih =>
      obtain ⟨hc, hcalls⟩ := List.forall_mem_cons.mp hms
      obtain ⟨seconds₁, h₁⟩ := h.update hc c.2
      obtain ⟨seconds₂, h₂⟩ := ih h₁ hcalls
      refine ⟨seconds₂, ?_⟩
      rw [Nat.add_assoc, Nat.add_assoc] at h₂
      exact h₂

/-- No call wraps the counter twice. -/
theorem earlyWraps_le (calls : List (UInt32 × UInt32)) (t : Nat) :
    earlyWraps t calls + t / 2 ^ 32 ≤ (t + elapsed calls) / 2 ^ 32 := by
  induction calls generalizing t with
  | nil => exact (Nat.zero_add _).le
  | cons c calls ih =>
      have hcalls := ih (t + c.1.toNat)
      have helapsed : t + elapsed (c :: calls) = t + c.1.toNat + elapsed calls := by
        unfold elapsed
        rw [List.map_cons, List.sum_cons, Nat.add_assoc]
      rw [helapsed, earlyWraps]
      split
      · rename_i hearly
        have hwrap := hearly.1
        omega
      · omega

/-- **The seconds stay close behind true time** if and only if the early wraps, which set
them ahead by 704 ms each, do not outweigh the others, which set them back by 296 ms each,
by more than the part of a second that has not been counted. -/
theorem clock_seconds_close_behind (calls : List (UInt32 × UInt32))
    (hms : ∀ c ∈ calls, c.1.toNat < 2 ^ 31) (htotal : elapsed calls < 1000 * 2 ^ 32) :
    ((clockUpdates clockStart calls).clockS.toNat ≤ elapsed calls / 1000 ∧
        (elapsed calls - 296 * (elapsed calls / 2 ^ 32)) / 1000 ≤
          (clockUpdates clockStart calls).clockS.toNat) ↔
      1000 * earlyWraps 0 calls ≤
        296 * (elapsed calls / 2 ^ 32) + elapsed calls % 2 ^ 32 % 1000 := by
  obtain ⟨seconds, h⟩ := clockStart_at.updates hms
  have hwraps := earlyWraps_le calls 0
  have hsum := h.sum
  rw [h.s]
  simp only [Nat.zero_add] at hsum hwraps ⊢
  constructor
  · rintro ⟨hbehind, hclose⟩
    by_contra hahead
    -- the counter of the seconds does not wrap far enough to hide it
    omega
  · intro hearly
    omega

/-- Four calls, the third of which ends with a full second behind the wrap, and the last one
704 ms before the next full second. -/
def callsAcrossWrap : List (UInt32 × UInt32) :=
  [(2147483500, 0), (2147483500, 0), (1000, 0), (296, 0)]

/-- The clock is ahead: 4294969 seconds after 4294968296 ms. -/
theorem clock_seconds_ahead :
    (∀ c ∈ callsAcrossWrap, c.1.toNat < 2 ^ 31) ∧ elapsed callsAcrossWrap < 1000 * 2 ^ 32 ∧
      ¬ (clockUpdates clockStart callsAcrossWrap).clockS.toNat ≤
        elapsed callsAcrossWrap / 1000 := by
  have hms : callsAcrossWrap.all (fun c => c.1.toNat < 2 ^ 31) = true := by decide +kernel
  exact ⟨fun c hc => of_decide_eq_true (List.all_eq_true.mp hms c hc), by decide +kernel,
    by decide +kernel⟩

/-- The same time in other steps: the wrap comes 296 ms after a full second. -/
theorem clock_seconds_close_behind_steps :
    let calls : List (UInt32 × UInt32) := [(2147483500, 0), (2147483500, 0), (296, 0), (1000, 0)]
    (clockUpdates clockStart calls).clockS.toNat ≤ elapsed calls / 1000 ∧
      (elapsed calls - 296 * (elapsed calls / 2 ^ 32)) / 1000 ≤
        (clockUpdates clockStart calls).clockS.toNat := by
  intro calls
  have hms : calls.all (fun c => c.1.toNat < 2 ^ 31) = true := by decide +kernel
  exact (clock_seconds_close_behind calls
    (fun c hc => of_decide_eq_true (List.all_eq_true.mp hms c hc)) (by decide +kernel)).mpr
    (by decide +kernel)

/-! ## Timers of milliseconds -/

/-- The clock is updated, or the timer is restarted. -/
inductive ClockCall
  | update (ms chrono : UInt32)
  | restart
deriving DecidableEq, Repr

/-- A call, with the clock and the timer before and after it. -/
def ClockCall.exec (x : ClockState × Timer) : ClockCall → ClockState × Timer
  | .update ms chrono => (clockUpdate x.1 ms chrono, x.2)
  | .restart => (x.1, timerRestart x.2 x.1.reading)

/-- The milliseconds since the last restart, if there were `d` of them before the call. -/
def ClockCall.since (d : Nat) : ClockCall → Nat
  | .update ms _ => d + ms.toNat
  | .restart => 0

/-- The timer counts milliseconds, and was started `d` milliseconds ago. -/
structure CountsMs (interval d : Nat) (x : ClockState × Timer) : Prop where
  flags : x.2.flags = timerMs
  interval : x.2.interval = interval
  start : (x.2.start + d) % 2 ^ 32 = x.1.clockMs.toNat
  start_lt : x.2.start < 2 ^ 32

theorem timerTstamp_ms (clock : ClockState) :
    timerTstamp clock.reading timerMs = clock.clockMs.toNat := rfl

theorem countsMs_start (clock : ClockState) (interval : Nat) :
    CountsMs interval 0 (clock, timerStart clock.reading timerMs interval) where
  flags := rfl
  interval := rfl
  start := Nat.mod_eq_of_lt clock.clockMs.toNat_lt
  start_lt := clock.clockMs.toNat_lt

theorem CountsMs.exec {interval d : Nat} {x : ClockState × Timer} (h : CountsMs interval d x)
    (c : ClockCall) : CountsMs interval (c.since d) (c.exec x) := by
  cases c with
  | update ms chrono =>
      refine ⟨h.flags, h.interval, ?_, h.start_lt⟩
      have hstart := h.start
      show (x.2.start + (d + ms.toNat)) % 2 ^ 32 = (clockUpdate x.1 ms chrono).clockMs.toNat
      rw [clockUpdate_ms]
      omega
  | restart =>
      have hstamp : (timerRestart x.2 x.1.reading).start = x.1.clockMs.toNat := by
        unfold timerRestart
        rw [h.flags]
        exact timerTstamp_ms x.1
      refine ⟨h.flags, h.interval, ?_, ?_⟩
      · show ((timerRestart x.2 x.1.reading).start + 0) % 2 ^ 32 = x.1.clockMs.toNat
        rw [hstamp]
        exact Nat.mod_eq_of_lt x.1.clockMs.toNat_lt
      · show (timerRestart x.2 x.1.reading).start < 2 ^ 32
        rw [hstamp]
        exact x.1.clockMs.toNat_lt

theorem CountsMs.foldl {interval d : Nat} {x : ClockState × Timer} (h : CountsMs interval d x)
    (calls : List ClockCall) :
    CountsMs interval (calls.foldl ClockCall.since d) (calls.foldl ClockCall.exec x) := by
  induction calls generalizing d x with
  | nil => exact h
  | cons c calls ih => exact ih (h.exec c)

/-- The modular difference is the time since the start. -/
theorem CountsMs.value {interval d : Nat} {x : ClockState × Timer} (h : CountsMs interval d x)
    (hd : d < 2 ^ 32) : timerValue x.2 x.1.reading = d := by
  have hstart := h.start
  have hlt := h.start_lt
  unfold timerValue
  rw [h.flags, timerTstamp_ms, ← hstart]
  omega

/-- **Millisecond timers are exact**, whatever the clock was when they were started or
restarted, and whether or not it has wrapped since. -/
theorem ms_timer_exact (clock : ClockState) (interval : UInt32) (calls : List ClockCall)
    (hd : calls.foldl ClockCall.since 0 < 2 ^ 32) :
    let d := calls.foldl ClockCall.since 0
    let x := calls.foldl ClockCall.exec
      (clock, timerStart clock.reading timerMs interval.toNat)
    (timerExpired x.2 x.1.reading = true ↔ interval ≠ 0 ∧ interval.toNat ≤ d) ∧
      timerRemaining x.2 x.1.reading = interval.toNat - d := by
  intro d x
  have hcounts : CountsMs interval.toNat d x := (countsMs_start clock interval.toNat).foldl calls
  have hvalue := hcounts.value hd
  have hzero : interval = 0 ↔ interval.toNat = 0 := UInt32.toNat_inj.symm
  constructor
  · unfold timerExpired
    rw [hvalue, hcounts.interval, ne_eq, hzero]
    split
    · rename_i hstopped
      simp [hstopped]
    · rename_i hrunning
      simp [hrunning]
  · unfold timerRemaining
    dsimp only
    rw [hvalue, hcounts.interval]
    split <;> omega

/-- A timer of 10 ms, started 3 ms before the wrap. -/
theorem ms_timer_exact_wrap :
    let clock : ClockState := { clockMs := 4294967293, clockS := 4294967, clockChrono := 0 }
    let x := [ClockCall.update 4 0, .update 5 0].foldl ClockCall.exec
      (clock, timerStart clock.reading timerMs 10)
    (timerExpired x.2 x.1.reading = true ↔ (10 : UInt32) ≠ 0 ∧ 10 ≤ 9) ∧
      timerRemaining x.2 x.1.reading = 10 - 9 :=
  ms_timer_exact { clockMs := 4294967293, clockS := 4294967, clockChrono := 0 } 10
    [.update 4 0, .update 5 0] (by decide +kernel)

end EmbeddedMx
