import Mathlib.Logic.Function.Iterate

/-!
# Runs that come to an end

A machine with one step function, and a condition that its environment keeps in
every state. `Ends step A P s` says that the run from `s` reaches a state with `P`
provided that the condition `A` holds on the way. It is proved by induction on
whatever decreases, and composed with `bind`: first to one kind of state, and from
every state of that kind on to the next.
-/

namespace EmbeddedMx.Lib

variable {σ : Type*}

/-- From `s` a state with `P` is reached, if `A` holds on the way. -/
inductive Ends (step : σ → σ) (A P : σ → Prop) : σ → Prop
  | now {s} : P s → Ends step A P s
  | next {s} : (A s → Ends step A P (step s)) → Ends step A P s

namespace Ends

variable {step : σ → σ} {A P Q : σ → Prop} {s : σ}

theorem bind (h : Ends step A P s) (hQ : ∀ s', P s' → Ends step A Q s') : Ends step A Q s := by
  induction h with
  | now hP => exact hQ _ hP
  | next _ ih => exact .next ih

theorem mono (h : Ends step A P s) (hQ : ∀ s', P s' → Q s') : Ends step A Q s :=
  h.bind fun s' hP => .now (hQ s' hP)

/-- If the condition holds until the end, then the end is reached. -/
theorem reached (h : Ends step A P s)
    (hA : ∀ k, (∀ j ≤ k, ¬ P (step^[j] s)) → A (step^[k] s)) : ∃ k, P (step^[k] s) := by
  induction h with
  | now hP => exact ⟨0, hP⟩
  | @next s _ ih =>
      by_cases hP : P s
      · exact ⟨0, hP⟩
      · have hfirst : A s := hA 0 fun j hj => by
          obtain rfl : j = 0 := Nat.le_zero.mp hj
          exact hP
        obtain ⟨k, hk⟩ := ih hfirst fun k hk => hA (k + 1) fun j hj => by
          cases j with
          | zero => exact hP
          | succ j => exact hk j (Nat.le_of_succ_le_succ hj)
        exact ⟨k + 1, hk⟩

end Ends

end EmbeddedMx.Lib
