import Mathlib.Data.List.Basic
import Mathlib.Order.Lattice

/-!
# Stable priority queues

Entries carry a priority; the queue lists them in the order in which they were pushed. Next
is the entry with the smallest priority, of several the one that was pushed first. Taking
out one entry after the other gives the order of the pops: level by level, and each level in
the order of the pushes.
-/

namespace EmbeddedMx.Lib

/-- The entries in the order in which they were pushed. -/
abbrev PrioQueue (ι α : Type*) := List (ι × α)

namespace PrioQueue

variable {ι α : Type*} [LinearOrder ι]

/-- No entry of the queue comes before `e`, by its priority. -/
def isNext (q : PrioQueue ι α) (e : ι × α) : Bool := q.all fun e' => e.1 ≤ e'.1

/-- The next entry: of the entries with the smallest priority, the one pushed first. -/
def peek? (q : PrioQueue ι α) : Option (ι × α) := q.find? (isNext q)

/-- The queue without its next entry. -/
def pop (q : PrioQueue ι α) : PrioQueue ι α := q.eraseP (isNext q)

/-- The entries that up to `n` pops return. -/
def pops : Nat → PrioQueue ι α → List (ι × α)
  | 0, _ => []
  | n + 1, q =>
      match q.peek? with
      | none => []
      | some e => e :: pops n q.pop

/-- The order in which pops return all entries. -/
def order (q : PrioQueue ι α) : List (ι × α) := pops q.length q

/-- The entries of one priority. -/
def level (q : PrioQueue ι α) (i : ι) : List (ι × α) := q.filter fun e => e.1 = i

theorem mem_level {q : PrioQueue ι α} {i : ι} {e : ι × α} :
    e ∈ q.level i ↔ e ∈ q ∧ e.1 = i := by
  rw [level, List.mem_filter, decide_eq_true_iff]

theorem level_append (q q' : PrioQueue ι α) (i : ι) :
    level (q ++ q') i = q.level i ++ level q' i := List.filter_append q q'

section Peek

variable {q : PrioQueue ι α} {e : ι × α}

theorem peek?_mem (h : q.peek? = some e) : e ∈ q := List.mem_of_find?_eq_some h

theorem peek?_le (h : q.peek? = some e) : ∀ e' ∈ q, e.1 ≤ e'.1 := by
  have hnext : isNext q e = true := List.find?_some h
  intro e' he'
  exact of_decide_eq_true (List.all_eq_true.mp hnext e' he')

/-- Exactly the empty queue has no next entry. -/
theorem peek?_none : q.peek? = none ↔ q = [] := by
  refine ⟨fun h => ?_, fun h => h ▸ rfl⟩
  by_contra hne
  -- some priority is the smallest
  obtain ⟨e, he, hmin⟩ : ∃ e ∈ q, ∀ e' ∈ q, e.1 ≤ e'.1 := by
    clear h
    induction q with
    | nil => exact absurd rfl hne
    | cons e q ih =>
        by_cases hq : q = []
        · exact ⟨e, List.mem_cons_self, by simp [hq]⟩
        · obtain ⟨e₁, he₁, hmin⟩ := ih hq
          rcases le_total e.1 e₁.1 with hle | hle
          · refine ⟨e, List.mem_cons_self, fun e' he' => ?_⟩
            rcases List.mem_cons.mp he' with rfl | he'
            · exact le_refl _
            · exact le_trans hle (hmin e' he')
          · refine ⟨e₁, List.mem_cons_of_mem _ he₁, fun e' he' => ?_⟩
            rcases List.mem_cons.mp he' with rfl | he'
            · exact hle
            · exact hmin e' he'
  refine List.find?_eq_none.mp h e he ?_
  exact List.all_eq_true.mpr fun e' he' => decide_eq_true (hmin e' he')

/-- The entries that could be next are those of the same priority. -/
theorem isNext_iff (h : q.peek? = some e) {e' : ι × α} (he' : e' ∈ q) :
    isNext q e' = true ↔ e'.1 = e.1 := by
  constructor
  · intro hnext
    exact le_antisymm (of_decide_eq_true (List.all_eq_true.mp hnext e (peek?_mem h)))
      (peek?_le h e' he')
  · intro heq
    refine List.all_eq_true.mpr fun e₁ he₁ => decide_eq_true ?_
    rw [heq]
    exact peek?_le h e₁ he₁

/-- Smaller priorities have no entries. -/
theorem level_of_lt (h : q.peek? = some e) {i : ι} (hi : i < e.1) : q.level i = [] := by
  rw [level, List.filter_eq_nil_iff]
  intro e' he' heq
  rw [decide_eq_true_iff] at heq
  exact absurd (peek?_le h e' he') (not_le_of_gt (heq ▸ hi))

/-- Where the next entry is. -/
theorem peek?_split (h : q.peek? = some e) :
    ∃ pre post, q = pre ++ e :: post ∧ q.pop = pre ++ post ∧ ∀ e' ∈ pre, e'.1 ≠ e.1 := by
  obtain ⟨hnext, pre, post, hsplit, hpre⟩ := List.find?_eq_some_iff_append.mp h
  have hnot : ∀ e' ∈ pre, ¬ isNext q e' = true := by
    intro e' he'
    simpa using hpre e' he'
  refine ⟨pre, post, hsplit, ?_, fun e' he' heq => ?_⟩
  · show q.eraseP (isNext q) = pre ++ post
    rw [show q.eraseP (isNext q) = (pre ++ e :: post).eraseP (isNext q) by rw [← hsplit],
      List.eraseP_append_right _ hnot, List.eraseP_cons_of_pos hnext]
  · have hmem : e' ∈ q := hsplit ▸ List.mem_append_left _ he'
    exact hnot e' he' ((isNext_iff h hmem).mpr heq)

/-- The next entry is the first one of its level. -/
theorem level_next (h : q.peek? = some e) : q.level e.1 = e :: q.pop.level e.1 := by
  obtain ⟨pre, post, hsplit, hpop, hpre⟩ := peek?_split h
  have hnil : level pre e.1 = [] := List.filter_eq_nil_iff.mpr (by simpa using hpre)
  rw [hpop]
  rw [hsplit, level_append, level_append, hnil, List.nil_append, List.nil_append]
  exact List.filter_cons_of_pos (decide_eq_true rfl)

/-- The other levels stay. -/
theorem level_pop (h : q.peek? = some e) {i : ι} (hi : i ≠ e.1) : q.pop.level i = q.level i := by
  obtain ⟨pre, post, hsplit, hpop, -⟩ := peek?_split h
  rw [hpop]
  rw [hsplit, level_append, level_append]
  congr 1
  exact (List.filter_cons_of_neg (by simpa using Ne.symm hi)).symm

theorem length_pop (h : q.peek? = some e) : q.pop.length + 1 = q.length := by
  obtain ⟨pre, post, hsplit, hpop, -⟩ := peek?_split h
  rw [hpop, hsplit, List.length_append, List.length_append, List.length_cons, Nat.add_assoc]

end Peek

theorem mem_of_mem_pop {q : PrioQueue ι α} {e : ι × α} (h : e ∈ q.pop) : e ∈ q :=
  List.mem_of_mem_eraseP h

/-- Level by level: the first entry is the next one, and a pop takes it away. -/
theorem flatMap_level {is : List ι} {q : PrioQueue ι α} {e : ι × α} (hsorted : is.Pairwise (· < ·))
    (his : e.1 ∈ is) (h : q.peek? = some e) :
    is.flatMap q.level = e :: is.flatMap q.pop.level := by
  induction is with
  | nil => cases his
  | cons i is ih =>
      obtain ⟨hfirst, hsorted⟩ := List.pairwise_cons.mp hsorted
      rw [List.flatMap_cons, List.flatMap_cons]
      rcases List.mem_cons.mp his with rfl | his
      · have hrest : is.flatMap q.pop.level = is.flatMap q.level :=
          List.flatMap_congr fun i hi => level_pop h (hfirst i hi).ne'
        rw [level_next h, hrest]
        rfl
      · have hlt := hfirst e.1 his
        rw [level_pop h hlt.ne, level_of_lt h hlt, List.nil_append, List.nil_append]
        exact ih hsorted his

/-- **The order of the pops**: level by level, each in the order of the pushes. -/
theorem order_eq {is : List ι} (hsorted : is.Pairwise (· < ·)) (his : ∀ i, i ∈ is)
    (q : PrioQueue ι α) : q.order = is.flatMap q.level := by
  unfold order
  generalize hn : q.length = n
  induction n generalizing q with
  | zero =>
      rw [List.eq_nil_of_length_eq_zero hn]
      exact (List.flatMap_eq_nil_iff.mpr fun i _ => rfl).symm
  | succ n ih =>
      rw [pops]
      cases hpeek : q.peek? with
      | none =>
          rw [peek?_none.mp hpeek] at hn
          cases hn
      | some e =>
          have hlength := length_pop hpeek
          dsimp only
          rw [ih q.pop (by omega), flatMap_level hsorted (his e.1) hpeek]

/-- No entry is lost. -/
theorem length_order (q : PrioQueue ι α) : q.order.length = q.length := by
  unfold order
  generalize hn : q.length = n
  induction n generalizing q with
  | zero => rfl
  | succ n ih =>
      rw [pops]
      cases hpeek : q.peek? with
      | none =>
          rw [peek?_none.mp hpeek] at hn
          cases hn
      | some e =>
          have hlength := length_pop hpeek
          dsimp only
          rw [List.length_cons, ih q.pop (by omega)]

/-- Every entry is returned. -/
theorem mem_order {is : List ι} (hsorted : is.Pairwise (· < ·)) (his : ∀ i, i ∈ is)
    {q : PrioQueue ι α} {e : ι × α} : e ∈ q.order ↔ e ∈ q := by
  rw [order_eq hsorted his, List.mem_flatMap]
  constructor
  · rintro ⟨i, -, he⟩
    exact (mem_level.mp he).1
  · intro he
    exact ⟨e.1, his e.1, mem_level.mpr ⟨he, rfl⟩⟩

end PrioQueue

end EmbeddedMx.Lib
