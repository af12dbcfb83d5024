import Mathlib.Logic.Function.Basic
import Mathlib.Data.List.Basic

/-!
# Digests computed symbol by symbol

A digest is a fold over a word. If a step of the fold loses neither the state (for a fixed
symbol) nor the symbol (for a fixed state), then the digest tells a word from every word
that differs from it in a single symbol, whatever the states and symbols are.
-/

namespace EmbeddedMx.Lib

variable {σ β : Type*} {f : σ → β → σ}

/-- What has been lost stays lost, and nothing else is. -/
theorem foldl_injective (hstate : ∀ b, Function.Injective fun s => f s b) (w : List β) :
    Function.Injective fun s => w.foldl f s := by
  induction w with
  | nil => exact Function.injective_id
  | cons b w ih => exact ih.comp (hstate b)

/-- A change of one symbol changes the digest. -/
theorem foldl_modify_ne (hstate : ∀ b, Function.Injective fun s => f s b)
    (hsymbol : ∀ s, Function.Injective (f s)) {g : β → β} (hg : ∀ b, g b ≠ b) {w : List β} {i : Nat}
    (hi : i < w.length) (s : σ) : (w.modify i g).foldl f s ≠ w.foldl f s := by
  induction w generalizing i s with
  | nil => exact absurd hi (Nat.not_lt_zero i)
  | cons b w ih =>
      cases i with
      | zero =>
          rw [List.modify_zero_cons, List.foldl_cons, List.foldl_cons]
          intro heq
          exact hg b (hsymbol s (foldl_injective hstate w heq))
      | succ i =>
          rw [List.modify_succ_cons, List.foldl_cons, List.foldl_cons]
          exact ih (Nat.lt_of_succ_lt_succ hi) (f s b)

/-- A change at one place of a word in two parts. -/
theorem modify_append (g : β → β) (w₁ w₂ : List β) (i : Nat) :
    (w₁ ++ w₂).modify i g =
      if i < w₁.length then w₁.modify i g ++ w₂ else w₁ ++ w₂.modify (i - w₁.length) g := by
  induction w₁ generalizing i with
  | nil => rfl
  | cons b w₁ ih =>
      cases i with
      | zero => rfl
      | succ i =>
          rw [List.cons_append, List.modify_succ_cons, List.modify_succ_cons, ih, List.length_cons]
          simp only [Nat.succ_lt_succ_iff, Nat.add_sub_add_right]
          split
          · rfl
          · rfl

/-- A change is a change. -/
theorem modify_ne {g : β → β} (hg : ∀ b, g b ≠ b) {w : List β} {i : Nat} (hi : i < w.length) :
    w.modify i g ≠ w := by
  intro heq
  have hget := List.getElem_modify g i w i (by rw [List.length_modify]; exact hi)
  rw [if_pos rfl] at hget
  simp only [heq] at hget
  exact hg _ hget.symm

end EmbeddedMx.Lib
