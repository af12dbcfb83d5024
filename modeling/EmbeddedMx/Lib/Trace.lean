import Mathlib.Data.List.Basic

/-!
# Traces

A step relation whose labels are lists of events: one step may produce none or
several. `Runs step s l t` says that a sequence of steps leads from `s` to `t` and
produces the events `l` altogether. An implementation that keeps a log refines
such a relation if what it appends to the log is the label of a run between
related states.
-/

namespace EmbeddedMx.Lib

variable {σ ε : Type*}

/-- Finitely many steps, with the events they produce in order. -/
inductive Runs (step : σ → List ε → σ → Prop) : σ → List ε → σ → Prop
  | refl (s) : Runs step s [] s
  | tail {s l t l' u} : Runs step s l t → step t l' u → Runs step s (l ++ l') u

namespace Runs

variable {step step' : σ → List ε → σ → Prop} {s t u : σ} {l l' : List ε}

theorem single (h : step s l t) : Runs step s l t := by
  have hrun := (Runs.refl s).tail h
  rwa [List.nil_append] at hrun

theorem trans (h : Runs step s l t) (h' : Runs step t l' u) : Runs step s (l ++ l') u := by
  induction h' with
  | refl => rwa [List.append_nil]
  | tail _ hstep ih =>
      rw [← List.append_assoc]
      exact ih.tail hstep

theorem mono (h : Runs step s l t) (hstep : ∀ s l t, step s l t → step' s l t) :
    Runs step' s l t := by
  induction h with
  | refl => exact .refl _
  | tail _ h ih => exact ih.tail (hstep _ _ _ h)

/-- A relation between state and trace that every step preserves holds after
every run. -/
theorem invariant {P : σ → List ε → Prop} (h : Runs step s l t)
    (hstep : ∀ {l₀ t l u}, P t l₀ → step t l u → P u (l₀ ++ l)) {l₀ : List ε} (h₀ : P s l₀) :
    P t (l₀ ++ l) := by
  induction h with
  | refl => rwa [List.append_nil]
  | tail _ hs ih =>
      rw [← List.append_assoc]
      exact hstep ih hs

end Runs

/-! ## Histories -/

/-- Every event of the trace is related to what happened before it. -/
def Each (P : List ε → ε → Prop) (l : List ε) : Prop :=
  ∀ pre x post, l = pre ++ x :: post → P pre x

theorem each_nil (P : List ε → ε → Prop) : Each P [] := by
  intro pre x post h
  cases pre <;> cases h

theorem each_cons {P : List ε → ε → Prop} {x : ε} {l : List ε} (hx : P [] x)
    (hl : Each (fun pre y => P (x :: pre) y) l) : Each P (x :: l) := by
  intro pre y post h
  cases pre with
  | nil =>
      cases h
      exact hx
  | cons z pre =>
      cases h
      exact hl pre y post rfl

theorem each_append {P : List ε → ε → Prop} {l l' : List ε} (hl : Each P l)
    (hl' : Each (fun pre x => P (l ++ pre) x) l') : Each P (l ++ l') := by
  induction l generalizing P with
  | nil => exact hl'
  | cons x l ih =>
      refine each_cons (hl [] x l rfl) (ih ?_ hl')
      intro pre y post h
      exact hl (x :: pre) y post (by rw [h]; rfl)

/-- A relation that does not look at the past. -/
theorem each_of_forall {P : List ε → ε → Prop} {l : List ε} (h : ∀ x ∈ l, ∀ pre, P pre x) :
    Each P l := by
  intro pre x post heq
  exact h x (heq ▸ List.mem_append_right _ List.mem_cons_self) pre

/-! ## Replays -/

/-- Events that a replay does not react to. -/
theorem foldlM_idle {f : σ → ε → Option σ} {l : List ε} (h : ∀ x ∈ l, ∀ s, f s x = some s) (s : σ) :
    l.foldlM f s = some s := by
  induction l with
  | nil => rfl
  | cons x l ih =>
      rw [List.foldlM_cons, h x List.mem_cons_self s]
      exact ih fun y hy => h y (List.mem_cons_of_mem _ hy)

/-- A replay of a longer trace goes on from where it was. -/
theorem foldlM_resume {f : σ → ε → Option σ} {s t : σ} {l : List ε} (h : l.foldlM f s = some t)
    (l' : List ε) : (l ++ l').foldlM f s = l'.foldlM f t := by
  rw [List.foldlM_append, h]
  rfl

end EmbeddedMx.Lib
