import Mathlib.Logic.Basic

/-!
# Computations that talk to their surroundings

A `Comp` works on a memory. It returns a value, gives up, or asks something of its
surroundings, which may change the memory before they answer. Two computations over
different memories are similar (`Comp.Sim`) if they ask the same things and keep a relation
between their memories, as long as the surroundings keep it too.

`Flow` is the value of a statement inside a function: the control goes on to the next
statement or leaves the function. `Comp.andThen` and `Comp.whileN` are the sequence and the
loop of such statements. A loop makes a bounded number of turns and gives up behind them.

`Comp.Post` is partial correctness: if the computation returns, then so. The loop rule needs an
invariant of the test and of the body.
-/

namespace EmbeddedMx.Lib

/-- A computation over the memory `σ` with the value `α`. -/
inductive Comp (Q : Type) (A : Q → Type) (σ α : Type)
  | ret (a : α) (s : σ)
  | stuck (s : σ)
  | ask (q : Q) (s : σ) (k : A q → σ → Comp Q A σ α)

/-- How a statement ends, `τ` being what is local to the function. -/
inductive Flow (τ : Type)
  | next (t : τ)
  | leave (status : Int)
deriving DecidableEq, Repr

namespace Comp

variable {Q : Type} {A : Q → Type} {σ σ' δ δ' α α' β β' γ τ τ' : Type}

def bind : Comp Q A σ α → (α → σ → Comp Q A σ β) → Comp Q A σ β
  | .ret a s, f => f a s
  | .stuck s, _ => .stuck s
  | .ask q s k, f => .ask q s fun a s => (k a s).bind f

/-- The computation next to a part of the memory that it does not use, but which its
surroundings may change. -/
def frame : Comp Q A σ α → δ → Comp Q A (δ × σ) α
  | .ret a s, d => .ret a (d, s)
  | .stuck s, d => .stuck (d, s)
  | .ask q s k, d => .ask q (d, s) fun a s => (k a s.2).frame s.1

/-- The next statement, if the control gets there. -/
def andThen (c : Comp Q A σ (Flow τ)) (k : τ → σ → Comp Q A σ (Flow τ)) :
    Comp Q A σ (Flow τ) :=
  c.bind fun r s =>
    match r with
    | .next t => k t s
    | .leave status => .ret (.leave status) s

/-- A loop of at most `n` turns. -/
def whileN (test : σ → Comp Q A σ Bool) (body : τ → σ → Comp Q A σ (Flow τ)) :
    Nat → τ → σ → Comp Q A σ (Flow τ)
  | 0, _, s => .stuck s
  | n + 1, t, s =>
      (test s).bind fun b s =>
        if b then (body t s).andThen (whileN test body n) else .ret (.next t) s

@[simp] theorem bind_ret (a : α) (s : σ) (f : α → σ → Comp Q A σ β) :
    (ret a s : Comp Q A σ α).bind f = f a s := rfl

theorem bind_assoc (c : Comp Q A σ α) (f : α → σ → Comp Q A σ β) (g : β → σ → Comp Q A σ γ) :
    (c.bind f).bind g = c.bind fun a s => (f a s).bind g := by
  induction c with
  | ret a s => rfl
  | stuck s => rfl
  | ask q s k ih =>
      simp only [bind]
      congr
      funext a s
      exact ih a s

theorem andThen_assoc (c : Comp Q A σ (Flow τ)) (f g : τ → σ → Comp Q A σ (Flow τ)) :
    (c.andThen f).andThen g = c.andThen fun t s => (f t s).andThen g := by
  unfold andThen
  rw [bind_assoc]
  congr
  funext r s
  cases r with
  | next t => rfl
  | leave status => rfl

theorem andThen_next (c : Comp Q A σ (Flow τ)) :
    (c.andThen fun t s => .ret (.next t) s) = c := by
  induction c with
  | ret r s => cases r <;> rfl
  | stuck s => rfl
  | ask q s k ih =>
      simp only [andThen, bind] at ih ⊢
      congr
      funext a s
      exact ih a s

/-! ## Similar computations -/

/-- The same questions are asked, and the same is returned up to `R`, while the memories
stay related by `I`. -/
inductive Sim (I : σ → σ' → Prop) (R : α → β → Prop) : Comp Q A σ α → Comp Q A σ' β → Prop
  | ret {a b s s'} : I s s' → R a b → Sim I R (.ret a s) (.ret b s')
  | stuck {s s'} : I s s' → Sim I R (.stuck s) (.stuck s')
  | ask {q s s' k k'} : I s s' → (∀ a s s', I s s' → Sim I R (k a s) (k' a s')) →
      Sim I R (.ask q s k) (.ask q s' k')

variable {I : σ → σ' → Prop}

theorem Sim.bind {R : α → α' → Prop} {S : β → β' → Prop} {c : Comp Q A σ α}
    {c' : Comp Q A σ' α'} {f : α → σ → Comp Q A σ β} {f' : α' → σ' → Comp Q A σ' β'}
    (h : Sim I R c c') (hf : ∀ a a' s s', R a a' → I s s' → Sim I S (f a s) (f' a' s')) :
    Sim I S (c.bind f) (c'.bind f') := by
  induction h with
  | ret hI hR => exact hf _ _ _ _ hR hI
  | stuck hI => exact .stuck hI
  | ask hI _ ih => exact .ask hI ih

theorem Sim.mono {R S : α → β → Prop} {c : Comp Q A σ α} {c' : Comp Q A σ' β}
    (h : Sim I R c c') (hRS : ∀ a b, R a b → S a b) : Sim I S c c' := by
  induction h with
  | ret hI hR => exact .ret hI (hRS _ _ hR)
  | stuck hI => exact .stuck hI
  | ask hI _ ih => exact .ask hI ih

/-- Both go on, or both leave with the same status. -/
inductive FlowRel (T : τ → τ' → Prop) : Flow τ → Flow τ' → Prop
  | next {t t'} : T t t' → FlowRel T (.next t) (.next t')
  | leave (status : Int) : FlowRel T (.leave status) (.leave status)

variable {T : τ → τ' → Prop}

theorem Sim.andThen {c : Comp Q A σ (Flow τ)} {c' : Comp Q A σ' (Flow τ')}
    {f : τ → σ → Comp Q A σ (Flow τ)} {f' : τ' → σ' → Comp Q A σ' (Flow τ')}
    (h : Sim I (FlowRel T) c c')
    (hf : ∀ t t' s s', T t t' → I s s' → Sim I (FlowRel T) (f t s) (f' t' s')) :
    Sim I (FlowRel T) (c.andThen f) (c'.andThen f') := by
  refine h.bind ?_
  rintro r r' s s' hr hI
  cases hr with
  | next ht => exact hf _ _ _ _ ht hI
  | leave status => exact .ret hI (.leave status)

/-- Loops with similar tests and similar bodies. -/
theorem Sim.whileN {test : σ → Comp Q A σ Bool} {test' : σ' → Comp Q A σ' Bool}
    {body : τ → σ → Comp Q A σ (Flow τ)} {body' : τ' → σ' → Comp Q A σ' (Flow τ')}
    (htest : ∀ s s', I s s' → Sim I Eq (test s) (test' s'))
    (hbody : ∀ t t' s s', T t t' → I s s' → Sim I (FlowRel T) (body t s) (body' t' s'))
    (n : Nat) {t : τ} {t' : τ'} {s : σ} {s' : σ'} (ht : T t t') (hI : I s s') :
    Sim I (FlowRel T) (Comp.whileN test body n t s) (Comp.whileN test' body' n t' s') := by
  induction n generalizing t t' s s' with
  | zero => exact .stuck hI
  | succ n ih =>
      refine (htest s s' hI).bind ?_
      rintro b _ s s' rfl hI
      cases b with
      | true => exact (hbody t t' s s' ht hI).andThen fun t t' s s' ht hI => ih ht hI
      | false => exact .ret hI (.next ht)

/-- The memories agree but for a part of each, and these parts are related. -/
def Beside (J : δ → δ' → Prop) (x : δ × σ) (x' : δ' × σ) : Prop := J x.1 x'.1 ∧ x.2 = x'.2

/-- A computation that uses neither of two related parts of the memory. -/
theorem Sim.frame {J : δ → δ' → Prop} (c : Comp Q A σ α) {d : δ} {d' : δ'} (hd : J d d') :
    Sim (Beside J) Eq (c.frame d) (c.frame d') := by
  induction c generalizing d d' with
  | ret a s => exact .ret ⟨hd, rfl⟩ rfl
  | stuck s => exact .stuck ⟨hd, rfl⟩
  | ask q s k ih =>
      refine .ask ⟨hd, rfl⟩ ?_
      rintro a ⟨d, s⟩ ⟨d', _⟩ ⟨hd, rfl⟩
      exact ih a s hd

/-! ## Partial correctness -/

/-- If the computation returns, then with `R`, as long as its surroundings change the memory
only by `E`. -/
def Post (E : σ → σ → Prop) (R : α → σ → Prop) : Comp Q A σ α → Prop
  | .ret a s => R a s
  | .stuck _ => True
  | .ask _ s k => ∀ a s', E s s' → (k a s').Post E R

section Post

variable {E : σ → σ → Prop}

theorem Post.bind {R : α → σ → Prop} {T : β → σ → Prop} {c : Comp Q A σ α}
    {f : α → σ → Comp Q A σ β} (h : c.Post E R) (hf : ∀ a s, R a s → (f a s).Post E T) :
    (c.bind f).Post E T := by
  induction c with
  | ret a s => exact hf a s h
  | stuck s => trivial
  | ask q s k ih => exact fun a s' hE => ih a s' (h a s' hE)

theorem Post.mono {R T : α → σ → Prop} {c : Comp Q A σ α} (h : c.Post E R)
    (hRT : ∀ a s, R a s → T a s) : c.Post E T := by
  induction c with
  | ret a s => exact hRT a s h
  | stuck s => trivial
  | ask q s k ih => exact fun a s' hE => ih a s' (h a s' hE)

/-- A computation that does not use a part of the memory leaves it as it is. -/
theorem Post.frame {R : α → σ → Prop} {c : Comp Q A σ α} (h : c.Post E R) (d : δ) :
    (c.frame d).Post (fun x y => y.1 = x.1 ∧ E x.2 y.2) fun a x => x.1 = d ∧ R a x.2 := by
  induction c generalizing d with
  | ret a s => exact ⟨rfl, h⟩
  | stuck s => trivial
  | ask q s k ih =>
      rintro a ⟨d', s'⟩ ⟨hd, hE⟩
      obtain rfl : d' = d := hd
      exact ih a s' (h a s' hE) d'

/-- `N` if the control goes on to the next statement, `L` if it leaves the function. -/
def FlowPost (N : τ → σ → Prop) (L : Int → σ → Prop) : Flow τ → σ → Prop
  | .next t, s => N t s
  | .leave status, s => L status s

variable {N : τ → σ → Prop} {L : Int → σ → Prop}

theorem Post.andThen {N' : τ → σ → Prop} {c : Comp Q A σ (Flow τ)}
    {f : τ → σ → Comp Q A σ (Flow τ)} (h : c.Post E (FlowPost N L))
    (hf : ∀ t s, N t s → (f t s).Post E (FlowPost N' L)) :
    (c.andThen f).Post E (FlowPost N' L) := by
  refine h.bind fun r s hr => ?_
  cases r with
  | next t => exact hf t s hr
  | leave status => exact hr

theorem Post.whileN {test : σ → Comp Q A σ Bool} {body : τ → σ → Comp Q A σ (Flow τ)}
    (htest : ∀ t s, N t s → (test s).Post E fun _ s => N t s)
    (hbody : ∀ t s, N t s → (body t s).Post E (FlowPost N L)) (n : Nat) {t : τ} {s : σ}
    (h : N t s) : (Comp.whileN test body n t s).Post E (FlowPost N L) := by
  induction n generalizing t s with
  | zero => trivial
  | succ n ih =>
      refine (htest t s h).bind fun b s hs => ?_
      cases b with
      | true => exact (hbody t s hs).andThen fun t s hs => ih hs
      | false => exact hs

end Post

end Comp

end EmbeddedMx.Lib
