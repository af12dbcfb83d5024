import Mathlib.Data.List.Basic
import Mathlib.Data.Nat.ModEq
import Mathlib.Logic.Function.Basic

/-!
# A sequence in a cyclic array

The items of a growing sequence are stored in `n` slots, each at its position modulo
`n`. Only a window of the last items is kept: those from the position `lo` on. As long
as the window is shorter than `n`, storing one more item behind its end overwrites
none of them.
-/

namespace EmbeddedMx.Lib

variable {α : Type*} {slots : Nat → α} {n lo : Nat} {xs : List α} {x : α}

/-- The items of `xs` from `lo` on are in their slots. -/
def Stores (slots : Nat → α) (n : Nat) (xs : List α) (lo : Nat) : Prop :=
  ∀ i x, lo ≤ i → xs[i]? = some x → slots (i % n) = x

/-- Positions less than `n` apart have different slots. -/
theorem mod_ne_of_window {i j : Nat} (hij : i < j) (hj : j < i + n) : i % n ≠ j % n := by
  intro heq
  have hdvd : n ∣ j - i := (Nat.modEq_iff_dvd' hij.le).mp heq
  have hle := Nat.le_of_dvd (Nat.sub_pos_of_lt hij) hdvd
  omega

namespace Stores

theorem nil (slots : Nat → α) (n lo : Nat) : Stores slots n [] lo := by
  intro i x _ hx
  cases hx

/-- The window gets smaller. -/
theorem mono {lo' : Nat} (h : Stores slots n xs lo) (hle : lo ≤ lo') : Stores slots n xs lo' :=
  fun i x hi hx => h i x (hle.trans hi) hx

/-- The slot behind the window is free. -/
theorem update (h : Stores slots n xs lo) (hroom : xs.length < lo + n) (y : α) :
    Stores (Function.update slots (xs.length % n) y) n xs lo := by
  intro i x hi hx
  have hlt : i < xs.length := (List.getElem?_eq_some_iff.mp hx).1
  have hne : i % n ≠ xs.length % n := mod_ne_of_window hlt (by omega)
  rw [Function.update_of_ne hne]
  exact h i x hi hx

/-- The item that has been stored behind the window becomes part of it. -/
theorem snoc (h : Stores slots n xs lo) (hslot : slots (xs.length % n) = x) :
    Stores slots n (xs ++ [x]) lo := by
  intro i y hi hy
  rcases Nat.lt_or_ge i xs.length with hlt | hge
  · rw [List.getElem?_append_left hlt] at hy
    exact h i y hi hy
  · rw [List.getElem?_append_right hge] at hy
    have hzero : i - xs.length = 0 := by
      have hlen := (List.getElem?_eq_some_iff.mp hy).1
      rw [List.length_singleton] at hlen
      omega
    rw [hzero] at hy
    injection hy with hy
    obtain rfl : i = xs.length := by omega
    rw [hslot, hy]

end Stores

end EmbeddedMx.Lib
