import Mathlib.Data.List.Sort

/-!
# The extremes of a collection

`Split le k xs low rest`: `low` are the `k` values of `xs` that come first in the order `le`
(all of them, if there are fewer), in any arrangement, and `rest` are the others. The two
parts are determined up to their arrangement, and a further value is worked in by a
comparison with the last one of `low` only.
-/

namespace EmbeddedMx.Lib

variable {α : Type*} {le : α → α → Prop}

/-- The first `k` of the values `xs` are `low`, the others are `rest`. -/
structure Split (le : α → α → Prop) (k : Nat) (xs low rest : List α) : Prop where
  perm : (low ++ rest).Perm xs
  length : low.length = min k xs.length
  le : ∀ a ∈ low, ∀ b ∈ rest, le a b

namespace Split

variable {k : Nat} {xs low rest : List α} {x b : α}

theorem nil : Split le k [] [] [] := ⟨.nil, (Nat.min_zero k).symm, nofun⟩

/-- The arrangement does not matter. -/
theorem rearrange (h : Split le k xs low rest) {xs' low' rest' : List α} (hxs : xs.Perm xs')
    (hlow : low.Perm low') (hrest : rest.Perm rest') : Split le k xs' low' rest' where
  perm := ((hlow.append hrest).symm.trans h.perm).trans hxs
  length := by rw [← hlow.length_eq, h.length, hxs.length_eq]
  le := fun a ha b hb => h.le a (hlow.mem_iff.mpr ha) b (hrest.mem_iff.mpr hb)

/-- As long as there is room there are no others. -/
theorem rest_nil (h : Split le k xs low rest) (hroom : low.length < k) : rest = [] := by
  have hlength := h.perm.length_eq
  have hmin := h.length
  rw [List.length_append] at hlength
  exact List.eq_nil_of_length_eq_zero (by omega)

/-- A further value, while there is room. -/
theorem fill (h : Split le k xs low rest) (hroom : low.length < k) (x : α) :
    Split le k (xs ++ [x]) (low ++ [x]) rest := by
  have hperm := h.perm
  have hmin := h.length
  rw [h.rest_nil hroom] at hperm ⊢
  rw [List.append_nil] at hperm
  refine ⟨?_, ?_, fun a _ b hb => absurd hb List.not_mem_nil⟩
  · rw [List.append_nil]
    exact hperm.append_right [x]
  · rw [List.length_append, List.length_append, List.length_singleton]
    have hlength := hperm.length_eq
    omega

/-- A further value that comes behind `low`. -/
theorem skip (h : Split le k xs low rest) (hfull : low.length = k)
    (hx : ∀ a ∈ low, le a x) : Split le k (xs ++ [x]) low (rest ++ [x]) where
  perm := by
    rw [← List.append_assoc]
    exact h.perm.append_right [x]
  length := by
    have hmin := h.length
    rw [List.length_append]
    omega
  le := by
    intro a ha b hb
    rcases List.mem_append.mp hb with hb | hb
    · exact h.le a ha b hb
    · exact List.mem_singleton.mp hb ▸ hx a ha

/-- A further value that comes before the last one of `low`. -/
theorem replace [IsTrans α le] {others : List α} (h : Split le k xs low rest)
    (hlow : low.Perm (b :: others)) (hlast : ∀ a ∈ low, le a b) (hfull : low.length = k)
    (hx : le x b) : Split le k (xs ++ [x]) (x :: others) (rest ++ [b]) where
  perm := by
    have hmoved : (x :: others ++ (rest ++ [b])).Perm (x :: (b :: others ++ rest)) := by
      rw [List.cons_append, ← List.append_assoc]
      exact (List.perm_append_singleton b (others ++ rest)).cons x
    have hsame := ((hlow.symm.append_right rest).trans h.perm).cons x
    exact (hmoved.trans hsame).trans (List.perm_append_singleton x xs).symm
  length := by
    have hmin := h.length
    have hlength := hlow.length_eq
    rw [List.length_cons] at hlength ⊢
    rw [List.length_append]
    omega
  le := by
    have hb : b ∈ low := hlow.mem_iff.mpr List.mem_cons_self
    intro a ha c hc
    have hab : le a b := by
      rcases List.mem_cons.mp ha with rfl | ha
      · exact hx
      · exact hlast a (hlow.mem_iff.mpr (List.mem_cons_of_mem _ ha))
    rcases List.mem_append.mp hc with hc | hc
    · exact IsTrans.trans a b c hab (h.le b hb c hc)
    · exact List.mem_singleton.mp hc ▸ hab

/-- The parts of a sorted arrangement. -/
theorem sorted [DecidableRel le] [Std.Total le] [IsTrans α le] [Std.Antisymm le]
    (h : Split le k xs low rest) {ys : List α} (hys : ys.Pairwise le) (hperm : ys.Perm xs) :
    low.Perm (ys.take k) ∧ rest.Perm (ys.drop k) := by
  have hlow := List.perm_insertionSort le low
  have hrest := List.perm_insertionSort le rest
  have hsorted : (low.insertionSort le ++ rest.insertionSort le).Pairwise le := by
    refine List.pairwise_append.mpr ⟨List.pairwise_insertionSort le low,
      List.pairwise_insertionSort le rest, fun a ha b hb => ?_⟩
    exact h.le a (hlow.mem_iff.mp ha) b (hrest.mem_iff.mp hb)
  have hparts : ys = low.insertionSort le ++ rest.insertionSort le :=
    (hperm.trans (h.perm.symm.trans (hlow.append hrest).symm)).eq_of_pairwise' hys hsorted
  rw [hparts]
  by_cases hroom : low.length < k
  · -- there are no others
    rw [h.rest_nil hroom, List.insertionSort_nil, List.append_nil,
      List.take_of_length_le (by rw [List.length_insertionSort]; exact hroom.le),
      List.drop_eq_nil_of_le (by rw [List.length_insertionSort]; exact hroom.le)]
    exact ⟨hlow.symm, .nil⟩
  · have hk : (low.insertionSort le).length = k := by
      have hmin := h.length
      rw [List.length_insertionSort]
      omega
    rw [List.take_left' hk, List.drop_left' hk]
    exact ⟨hlow.symm, hrest.symm⟩

end Split

/-- Some value comes first. -/
theorem exists_first (le : α → α → Prop) [Std.Total le] [IsTrans α le] [DecidableRel le]
    {xs : List α} (h : xs ≠ []) : ∃ a ∈ xs, ∀ b ∈ xs, le a b := by
  have hperm := List.perm_insertionSort le xs
  cases hsorted : xs.insertionSort le with
  | nil =>
      rw [hsorted] at hperm
      exact absurd hperm.nil_eq.symm h
  | cons a others =>
      have hpairwise := List.pairwise_insertionSort le xs
      rw [hsorted] at hpairwise hperm
      refine ⟨a, hperm.mem_iff.mp List.mem_cons_self, fun b hb => ?_⟩
      rcases List.mem_cons.mp (hperm.mem_iff.mpr hb) with rfl | hb
      · exact refl _
      · exact List.rel_of_pairwise_cons hpairwise hb

/-! ## Arrays -/

/-- The first `n` entries of an array. -/
def entries (f : Nat → α) (n : Nat) : List α := (List.range n).map f

theorem length_entries (f : Nat → α) (n : Nat) : (entries f n).length = n := by
  rw [entries, List.length_map, List.length_range]

theorem mem_entries {f : Nat → α} {n : Nat} {a : α} : a ∈ entries f n ↔ ∃ i < n, f i = a := by
  simp [entries]

/-- A value is appended. -/
theorem entries_append (f : Nat → α) (n : Nat) (x : α) :
    entries (Function.update f n x) (n + 1) = entries f n ++ [x] := by
  unfold entries
  rw [List.range_succ, List.map_append, List.map_singleton, Function.update_self]
  congr 1
  refine List.map_congr_left fun i hi => Function.update_of_ne ?_ _ _
  exact (List.mem_range.mp hi).ne

/-- A value is replaced. -/
theorem entries_update (f : Nat → α) {n i : Nat} (hi : i < n) (x : α) :
    ∃ others, (entries f n).Perm (f i :: others) ∧
      (entries (Function.update f i x) n).Perm (x :: others) := by
  have hperm : (List.range n).Perm (i :: (List.range n).erase i) :=
    List.perm_cons_erase (List.mem_range.mpr hi)
  refine ⟨((List.range n).erase i).map f, hperm.map f, ?_⟩
  have hothers : ((List.range n).erase i).map (Function.update f i x) =
      ((List.range n).erase i).map f := by
    refine List.map_congr_left fun j hj => Function.update_of_ne ?_ _ _
    rintro rfl
    exact List.nodup_range.not_mem_erase hj
  have hnew := hperm.map (Function.update f i x)
  rw [List.map_cons, Function.update_self, hothers] at hnew
  exact hnew

/-- A search for the last entry in the order: it stays with the best one so far, `idx`, and
goes on through `is`. -/
theorem foldl_last [Std.Total le] [IsTrans α le] {lt : α → α → Bool}
    (hlt : ∀ a b, lt a b = true ↔ ¬ le b a) (f : Nat → α) (is : List Nat) (idx : Nat) :
    let last := is.foldl (fun idx i => if lt (f idx) (f i) then i else idx) idx
    last ∈ idx :: is ∧ ∀ i ∈ idx :: is, le (f i) (f last) := by
  induction is generalizing idx with
  | nil => exact ⟨List.mem_cons_self, fun i hi => List.mem_singleton.mp hi ▸ refl _⟩
  | cons j is ih =>
      -- the better one of the two goes on
      obtain ⟨best, hbest, hmem, hidx, hj⟩ : ∃ best,
          (if lt (f idx) (f j) then j else idx) = best ∧ (best = idx ∨ best = j) ∧
            le (f idx) (f best) ∧ le (f j) (f best) := by
        by_cases h : lt (f idx) (f j) = true
        · have hidx := (Std.Total.total (f idx) (f j)).resolve_right ((hlt _ _).mp h)
          exact ⟨j, if_pos h, .inr rfl, hidx, refl _⟩
        · have hj := not_not.mp fun hnot => h ((hlt _ _).mpr hnot)
          exact ⟨idx, if_neg h, .inl rfl, refl _, hj⟩
      intro last
      obtain ⟨hlast, hall⟩ := ih best
      have heq : last = is.foldl (fun idx i => if lt (f idx) (f i) then i else idx) best := by
        show List.foldl _ _ (j :: is) = _
        rw [List.foldl_cons, hbest]
      rw [← heq] at hlast hall
      have hbest_le := hall best List.mem_cons_self
      constructor
      · rcases List.mem_cons.mp hlast with heq | hmem'
        · rw [heq]
          rcases hmem with rfl | rfl
          · exact List.mem_cons_self
          · exact List.mem_cons_of_mem _ List.mem_cons_self
        · exact List.mem_cons_of_mem _ (List.mem_cons_of_mem _ hmem')
      · intro i hi
        rcases List.mem_cons.mp hi with rfl | hi
        · exact IsTrans.trans _ _ _ hidx hbest_le
        · rcases List.mem_cons.mp hi with rfl | hi
          · exact IsTrans.trans _ _ _ hj hbest_le
          · exact hall i (List.mem_cons_of_mem _ hi)

end EmbeddedMx.Lib
