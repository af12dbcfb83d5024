import Mathlib.Order.Basic

/-!
# Labelled transition systems

Runs of a component are paths of a labelled transition system: the label is
the call (or event) the environment chose. An invariant is proved once per
step and lifted to every reachable state by `Inductive.invariant`; a property
that needs the environment to respect a side condition on every step is an
invariant of the restricted system `T.restrict P`; a property proved of an
abstract system is carried down by a simulation.
-/

namespace EmbeddedMx.Lib

/-- A transition system with states `σ` and labels `ι`. -/
structure TSys (σ ι : Type*) where
  init : σ → Prop
  step : σ → ι → σ → Prop

namespace TSys

variable {σ ι τ κ : Type*}

/-- States reached by some finite run from an initial state. -/
inductive Reachable (T : TSys σ ι) : σ → Prop
  | init {s} : T.init s → Reachable T s
  | step {s i s'} : Reachable T s → T.step s i s' → Reachable T s'

/-- `P` holds in every reachable state. -/
def Invariant (T : TSys σ ι) (P : σ → Prop) : Prop := ∀ s, T.Reachable s → P s

/-- `P` holds initially and every step preserves it. -/
structure Inductive (T : TSys σ ι) (P : σ → Prop) : Prop where
  init : ∀ s, T.init s → P s
  step : ∀ s i s', P s → T.step s i s' → P s'

theorem Inductive.invariant {T : TSys σ ι} {P : σ → Prop} (h : T.Inductive P) :
    T.Invariant P := by
  intro s hreach
  induction hreach with
  | init hinit => exact h.init _ hinit
  | step _ hstep ih => exact h.step _ _ _ ih hstep

/-- The runs all of whose steps meet the side condition `P`. -/
def restrict (T : TSys σ ι) (P : σ → ι → Prop) : TSys σ ι where
  init := T.init
  step s i s' := P s i ∧ T.step s i s'

/-- The runs that begin in `s`. -/
def starting (T : TSys σ ι) (s : σ) : TSys σ ι where
  init := (· = s)
  step := T.step

/-- The runs with their history: the steps taken so far, each with the state before it. -/
def recorded (T : TSys σ ι) : TSys (σ × List (σ × ι)) ι where
  init x := T.init x.1 ∧ x.2 = []
  step x i x' := T.step x.1 i x'.1 ∧ x'.2 = x.2 ++ [(x.1, i)]

/-- A run with its history is a run. -/
theorem Reachable.of_recorded {T : TSys σ ι} {x : σ × List (σ × ι)} (h : T.recorded.Reachable x) :
    T.Reachable x.1 := by
  induction h with
  | init hinit => exact .init hinit.1
  | step _ hstep ih => exact .step ih hstep.1

/-- Every run has a history. -/
theorem Reachable.recorded {T : TSys σ ι} {s : σ} (h : T.Reachable s) :
    ∃ history, T.recorded.Reachable (s, history) := by
  induction h with
  | init hinit => exact ⟨[], .init ⟨hinit, rfl⟩⟩
  | @step s i s' _ hstep ih =>
      obtain ⟨history, hrecorded⟩ := ih
      exact ⟨history ++ [(s, i)], hrecorded.step ⟨hstep, rfl⟩⟩

/-- A run under a side condition is a run. -/
theorem Reachable.of_restrict {T : TSys σ ι} {P : σ → ι → Prop} {s : σ}
    (h : (T.restrict P).Reachable s) : T.Reachable s := by
  induction h with
  | init hinit => exact .init hinit
  | step _ hstep ih => exact .step ih hstep.2

/-- Every run begins somewhere. -/
theorem Reachable.starting {T : TSys σ ι} {s : σ} (h : T.Reachable s) :
    ∃ s₀, T.init s₀ ∧ (T.starting s₀).Reachable s := by
  induction h with
  | @init s hinit => exact ⟨s, hinit, .init rfl⟩
  | step _ hstep ih =>
      obtain ⟨s₀, hinit, hreach⟩ := ih
      exact ⟨s₀, hinit, hreach.step hstep⟩

/-- A run may go on from where another one has ended. -/
theorem Reachable.trans {T : TSys σ ι} {s₀ s : σ} (h₀ : T.Reachable s₀)
    (h : (T.starting s₀).Reachable s) : T.Reachable s := by
  induction h with
  | init hinit => exact hinit ▸ h₀
  | step _ hstep ih => exact ih.step hstep

/-- A run given by its labels, where `f` computes the steps. -/
theorem Reachable.foldl {T : TSys σ ι} {s : σ} (hs : T.Reachable s) (f : σ → ι → σ) (is : List ι)
    (hstep : ∀ k (hk : k < is.length),
      T.step ((is.take k).foldl f s) is[k] (f ((is.take k).foldl f s) is[k])) :
    T.Reachable (is.foldl f s) := by
  induction is generalizing s with
  | nil => exact hs
  | cons i is ih =>
      refine ih (hs.step (hstep 0 (Nat.succ_pos _))) fun k hk => ?_
      exact hstep (k + 1) (Nat.succ_lt_succ hk)

/-- A run given by its labels, where `f` computes the steps that there are. -/
theorem Reachable.foldlM {T : TSys σ ι} {s s' : σ} (hs : T.Reachable s) {f : σ → ι → Option σ}
    (hstep : ∀ s i s', f s i = some s' → T.step s i s') {is : List ι}
    (h : is.foldlM f s = some s') : T.Reachable s' := by
  induction is generalizing s with
  | nil =>
      cases h
      exact hs
  | cons i is ih =>
      rw [List.foldlM_cons] at h
      obtain ⟨s₁, hfirst, hrest⟩ := Option.bind_eq_some_iff.mp h
      exact ih (hs.step (hstep s i s₁ hfirst)) hrest

/-- A side condition may be weakened. -/
theorem Reachable.mono {T : TSys σ ι} {P Q : σ → ι → Prop} {s : σ}
    (h : (T.restrict P).Reachable s) (himp : ∀ s i, P s i → Q s i) :
    (T.restrict Q).Reachable s := by
  induction h with
  | init hinit => exact .init hinit
  | step _ hstep ih => exact .step ih ⟨himp _ _ hstep.1, hstep.2⟩

end TSys

end EmbeddedMx.Lib
