import Mathlib.Algebra.BigOperators.Group.List.Basic
import Mathlib.Algebra.Order.BigOperators.Group.List
import Mathlib.Data.UInt
import Mathlib.Order.Defs.LinearOrder
import Mathlib.Tactic.Ring
import Mathlib.Algebra.Order.Group.Int
import Mathlib.Algebra.Order.Group.Abs
import EmbeddedMx.Lib.Extremes

/-!
# Averages (`lib/avg.c`)

An average may leave out extreme values: the smallest ones are kept in the array `min`, and
of the values that have no place there the largest ones in the array `max`. Both arrays are
filled first and not sorted. A value that has no place in either is added to a sum.

The sum and the number of its values have 32 bits. While neither of them overflows the
average lies within the data; it is rounded up from `elements / 2` on, which for an odd
number of values is one too early.
-/

namespace EmbeddedMx

open EmbeddedMx.Lib

/-! ## The functions of `avg.c` -/

/-- An array of extremes (`NULL` for none) with its size, and how much of it is filled. -/
structure Extreme where
  data : Option (Nat → UInt32)
  size : Nat
  len : Nat

/-- `struct avg` -/
structure Avg where
  sum : UInt32
  elements : UInt32
  min : Extreme
  max : Extreme

/-- `avg_init` -/
def avgInit (min : Option (Nat → UInt32)) (min_size : UInt8) (max : Option (Nat → UInt32))
    (max_size : UInt8) : Avg :=
  { sum := 0
    elements := 0
    min := { data := min, size := min_size.toNat, len := 0 }
    max := { data := max, size := max_size.toNat, len := 0 } }

/-- The entry that comes last in the order `lt`. -/
def extremeLast (lt : UInt32 → UInt32 → Bool) (data : Nat → UInt32) (size : Nat) : Nat :=
  (List.range' 1 (size - 1)).foldl (fun idx i => if lt (data idx) (data i) then i else idx) 0

/-- What `avg_add_min` and `avg_add_max` share, with opposite orders: the value finds a place
in the array and `none` is returned, or a value that has no place in it. -/
def addExtreme (lt : UInt32 → UInt32 → Bool) (self : Extreme) (input : UInt32) :
    Extreme × Option UInt32 :=
  match self.data with
  | none => (self, some input)
  | some data =>
      if self.len < self.size then
        -- not full, just fill array
        ({ self with data := some (Function.update data self.len input), len := self.len + 1 },
          none)
      else
        let idx := extremeLast lt data self.size
        if lt input (data idx) then
          ({ self with data := some (Function.update data idx input) }, some (data idx))
        else (self, some input)

/-- `avg_add_min` -/
def avgAddMin (self : Extreme) (input : UInt32) : Extreme × Option UInt32 :=
  addExtreme (fun a b => a < b) self input

/-- `avg_add_max` -/
def avgAddMax (self : Extreme) (input : UInt32) : Extreme × Option UInt32 :=
  addExtreme (fun a b => a > b) self input

/-- `avg_add` -/
def avgAdd (self : Avg) (value : UInt32) : Avg :=
  match avgAddMin self.min value with
  | (min, none) => { self with min := min }
  | (min, some value) =>
      match avgAddMax self.max value with
      | (max, none) => { self with min := min, max := max }
      | (max, some value) =>
          { min := min
            max := max
            sum := self.sum + value
            elements := self.elements + 1 }

/-- `avg_ready` -/
def avgReady (self : Avg) : Bool := self.elements ≠ 0

/-- `avg_calculate` -/
def avgCalculate (self : Avg) : UInt32 :=
  if self.elements ≠ 0 then
    let ret := self.sum / self.elements
    if self.elements ≥ 2 then
      if self.sum % self.elements ≥ self.elements / 2 then ret + 1 else ret
    else ret
  else 0

/-- The average after `values` have been added. -/
def avgOf (min : Option (Nat → UInt32)) (min_size : UInt8) (max : Option (Nat → UInt32))
    (max_size : UInt8) (values : List UInt32) : Avg :=
  values.foldl avgAdd (avgInit min min_size max max_size)

/-! ## The extremes -/

/-- The filled part of an array. -/
def Extreme.filled (self : Extreme) : List UInt32 :=
  match self.data with
  | none => []
  | some data => entries data self.len

/-- The number of values that an array has room for. -/
def Extreme.room (self : Extreme) : Nat :=
  match self.data with
  | none => 0
  | some _ => self.size

/-- An array has entries. -/
def Extreme.Sized (self : Extreme) : Prop := self.data.isSome → 0 < self.size

section Extreme

variable {le : UInt32 → UInt32 → Prop} [Std.Total le] [IsTrans UInt32 le]
  {lt : UInt32 → UInt32 → Bool}

theorem extremeLast_spec (hlt : ∀ a b, lt a b = true ↔ ¬ le b a) (data : Nat → UInt32)
    {size : Nat} (hsize : 0 < size) :
    extremeLast lt data size < size ∧
      ∀ a ∈ entries data size, le a (data (extremeLast lt data size)) := by
  have hrange : 0 :: List.range' 1 (size - 1) = List.range size := by
    obtain ⟨n, rfl⟩ := Nat.exists_eq_add_of_lt hsize
    rw [List.range_eq_range', Nat.zero_add, List.range'_succ]
    rfl
  obtain ⟨hmem, hlast⟩ := foldl_last hlt data (List.range' 1 (size - 1)) 0
  rw [hrange] at hmem hlast
  refine ⟨List.mem_range.mp hmem, fun a ha => ?_⟩
  obtain ⟨i, hi, rfl⟩ := mem_entries.mp ha
  exact hlast i (List.mem_range.mpr hi)

/-- The values `xs` that were offered to an array, of which the `rest` was returned. -/
structure Extreme.Holds (le : UInt32 → UInt32 → Prop) (xs rest : List UInt32) (e : Extreme) :
    Prop where
  split : Split le e.room xs e.filled rest
  sized : e.Sized

/-- A value is offered. -/
theorem Extreme.Holds.add (hlt : ∀ a b, lt a b = true ↔ ¬ le b a) {xs rest : List UInt32}
    {e : Extreme} (h : e.Holds le xs rest) (x : UInt32) :
    (addExtreme lt e x).1.Holds le (xs ++ [x]) (rest ++ (addExtreme lt e x).2.toList) ∧
      (addExtreme lt e x).1.room = e.room := by
  obtain ⟨data, size, len⟩ := e
  obtain ⟨hsplit, hsized⟩ := h
  cases data with
  | none => exact ⟨⟨hsplit.skip rfl nofun, hsized⟩, rfl⟩
  | some data =>
      have hpos : 0 < size := hsized rfl
      have hlength : (entries data len).length = len := length_entries data len
      unfold addExtreme
      dsimp only
      split
      · -- there is room
        rename_i hroom
        refine ⟨⟨?_, fun _ => hpos⟩, rfl⟩
        have hfilled := hsplit.fill (by rw [Extreme.filled, hlength]; exact hroom) x
        show Split le size (xs ++ [x]) (entries (Function.update data len x) (len + 1)) (rest ++ [])
        rw [entries_append, List.append_nil]
        exact hfilled
      · rename_i hfull
        have hlen : len = size := by
          have hmin := hsplit.length
          rw [Extreme.filled, hlength, Extreme.room] at hmin
          dsimp only at hmin
          omega
        subst hlen
        obtain ⟨hidx, hlast⟩ := extremeLast_spec hlt data hpos
        split
        · -- the last entry is replaced
          rename_i hbefore
          obtain ⟨others, hold, hnew⟩ := entries_update data hidx x
          have hle : le x (data (extremeLast lt data len)) :=
            (Std.Total.total _ _).resolve_right ((hlt _ _).mp hbefore)
          have hreplaced := hsplit.replace hold hlast hlength hle
          exact ⟨⟨hreplaced.rearrange (.refl _) hnew.symm (.refl _), fun _ => hpos⟩, rfl⟩
        · rename_i hbehind
          have hle : le (data (extremeLast lt data len)) x :=
            not_not.mp fun hnot => hbehind ((hlt _ _).mpr hnot)
          have hskipped := hsplit.skip hlength fun a ha => IsTrans.trans _ _ _ (hlast a ha) hle
          exact ⟨⟨hskipped, fun _ => hpos⟩, rfl⟩

end Extreme

/-! ## Bookkeeping -/

/-- The number of values that an array can take; `NULL` counts as an array of size 0. -/
def arrayRoom (array : Option (Nat → UInt32)) (size : UInt8) : Nat :=
  if array.isSome then size.toNat else 0

/-- The values, smallest first. -/
def ascending (values : List UInt32) : List UInt32 := values.insertionSort (· ≤ ·)

/-- The `k` smallest values. -/
def smallestValues (k : Nat) (values : List UInt32) : List UInt32 := (ascending values).take k

/-- The `m` largest of the values that are not among the `k` smallest. -/
def largestValues (k m : Nat) (values : List UInt32) : List UInt32 :=
  ((ascending values).drop k).reverse.take m

/-- The values that are neither. -/
def keptValues (k m : Nat) (values : List UInt32) : List UInt32 :=
  ((ascending values).drop k).reverse.drop m

/-- The true sum. -/
def total (values : List UInt32) : Nat := (values.map UInt32.toNat).sum

theorem total_append (xs ys : List UInt32) : total (xs ++ ys) = total xs + total ys := by
  unfold total
  rw [List.map_append, List.sum_append]

theorem total_perm {xs ys : List UInt32} (h : xs.Perm ys) : total xs = total ys :=
  (h.map UInt32.toNat).sum_eq

theorem ascending_sorted (values : List UInt32) : (ascending values).Pairwise (· ≤ ·) :=
  List.pairwise_insertionSort (· ≤ ·) values

theorem ascending_perm (values : List UInt32) : (ascending values).Perm values :=
  List.perm_insertionSort (· ≤ ·) values

/-- The average `a` of the values `xs`: those in `rest` were returned by the array of the
smallest ones, those in `kept` by both arrays. -/
structure AvgHolds (k m : Nat) (xs rest kept : List UInt32) (a : Avg) : Prop where
  min : a.min.Holds (· ≤ ·) xs rest
  max : a.max.Holds (· ≥ ·) rest kept
  minRoom : a.min.room = k
  maxRoom : a.max.room = m
  sum : a.sum.toNat = total kept % 2 ^ 32
  elements : a.elements.toNat = kept.length % 2 ^ 32

/-- A value is added. -/
theorem AvgHolds.add {k m : Nat} {xs rest kept : List UInt32} {a : Avg}
    (h : AvgHolds k m xs rest kept a) (x : UInt32) :
    ∃ rest' kept', AvgHolds k m (xs ++ [x]) rest' kept' (avgAdd a x) := by
  have hless : ∀ a b : UInt32, decide (a < b) = true ↔ ¬ b ≤ a := by simp
  have hgreater : ∀ a b : UInt32, decide (a > b) = true ↔ ¬ b ≥ a := by simp
  obtain ⟨hmin, hminRoom⟩ := h.min.add hless x
  rw [h.minRoom] at hminRoom
  unfold avgAdd avgAddMin
  split
  · -- it has a place among the smallest
    rename_i min heq
    rw [heq] at hmin hminRoom
    rw [Option.toList_none, List.append_nil] at hmin
    exact ⟨rest, kept, hmin, h.max, hminRoom, h.maxRoom, h.sum, h.elements⟩
  · rename_i min value heq
    rw [heq] at hmin hminRoom
    obtain ⟨hmax, hmaxRoom⟩ := h.max.add hgreater value
    rw [h.maxRoom] at hmaxRoom
    unfold avgAddMax
    split
    · -- another one has a place among the largest
      rename_i max heq'
      rw [heq'] at hmax hmaxRoom
      rw [Option.toList_none, List.append_nil] at hmax
      exact ⟨rest ++ [value], kept, hmin, hmax, hminRoom, hmaxRoom, h.sum, h.elements⟩
    · rename_i max value' heq'
      rw [heq'] at hmax hmaxRoom
      refine ⟨rest ++ [value], kept ++ [value'], hmin, hmax, hminRoom, hmaxRoom, ?_, ?_⟩
      · have htotal : total [value'] = value'.toNat := List.sum_singleton
        rw [UInt32.toNat_add, h.sum, total_append, htotal]
        omega
      · rw [UInt32.toNat_add, h.elements, List.length_append, List.length_singleton]
        exact Nat.mod_add_mod _ _ _

section Runs

variable (min : Option (Nat → UInt32)) (min_size : UInt8) (max : Option (Nat → UInt32))
  (max_size : UInt8)

theorem extreme_init (le : UInt32 → UInt32 → Prop) (array : Option (Nat → UInt32)) (size : UInt8)
    (hsize : array.isSome → 0 < size) :
    let e : Extreme := { data := array, size := size.toNat, len := 0 }
    e.Holds le [] [] ∧ e.room = arrayRoom array size := by
  intro e
  have hsized : e.Sized := fun hsome => UInt8.lt_iff_toNat_lt.mp (hsize hsome)
  cases array with
  | none => exact ⟨⟨.nil, hsized⟩, rfl⟩
  | some data => exact ⟨⟨.nil, hsized⟩, rfl⟩

theorem avgInit_holds (hmin : min.isSome → 0 < min_size) (hmax : max.isSome → 0 < max_size) :
    AvgHolds (arrayRoom min min_size) (arrayRoom max max_size) [] [] []
      (avgInit min min_size max max_size) := by
  obtain ⟨hmins, hminRoom⟩ := extreme_init (· ≤ ·) min min_size hmin
  obtain ⟨hmaxs, hmaxRoom⟩ := extreme_init (· ≥ ·) max max_size hmax
  exact ⟨hmins, hmaxs, hminRoom, hmaxRoom, rfl, rfl⟩

/-- A run. -/
theorem avgOf_holds (hmin : min.isSome → 0 < min_size) (hmax : max.isSome → 0 < max_size)
    (values : List UInt32) : ∃ rest kept,
      AvgHolds (arrayRoom min min_size) (arrayRoom max max_size) values rest kept
        (avgOf min min_size max max_size values) := by
  induction values using List.reverseRecOn with
  | nil => exact ⟨[], [], avgInit_holds min min_size max max_size hmin hmax⟩
  | append_singleton values x ih =>
      obtain ⟨rest, kept, h⟩ := ih
      unfold avgOf
      rw [List.foldl_append]
      exact h.add x

end Runs

/-- The two arrays and the kept values are the parts of the sorted values. -/
theorem AvgHolds.parts {k m : Nat} {xs rest kept : List UInt32} {a : Avg}
    (h : AvgHolds k m xs rest kept a) :
    a.min.filled.Perm (smallestValues k xs) ∧ a.max.filled.Perm (largestValues k m xs) ∧
      kept.Perm (keptValues k m xs) := by
  have hsplit := h.min.split
  rw [h.minRoom] at hsplit
  obtain ⟨hmin, hrest⟩ := hsplit.sorted (ascending_sorted xs) (ascending_perm xs)
  have hsplit' := h.max.split
  rw [h.maxRoom] at hsplit'
  have hdescending : ((ascending xs).drop k).reverse.Pairwise (· ≥ ·) :=
    List.pairwise_reverse.mpr ((ascending_sorted xs).sublist (List.drop_sublist k _))
  obtain ⟨hmax, hkept⟩ :=
    hsplit'.sorted hdescending ((List.reverse_perm _).trans hrest.symm)
  exact ⟨hmin, hmax, hkept⟩

/-- What the accumulator holds, in terms of the sorted values. -/
theorem avgOf_parts (min : Option (Nat → UInt32)) (min_size : UInt8)
    (max : Option (Nat → UInt32)) (max_size : UInt8) (hmin : min.isSome → 0 < min_size)
    (hmax : max.isSome → 0 < max_size) (values : List UInt32) :
    (avgOf min min_size max max_size values).min.filled.Perm
        (smallestValues (arrayRoom min min_size) values) ∧
      (avgOf min min_size max max_size values).max.filled.Perm
        (largestValues (arrayRoom min min_size) (arrayRoom max max_size) values) ∧
      (avgOf min min_size max max_size values).elements.toNat =
        (keptValues (arrayRoom min min_size) (arrayRoom max max_size) values).length % 2 ^ 32 ∧
      (avgOf min min_size max max_size values).sum.toNat =
        total (keptValues (arrayRoom min min_size) (arrayRoom max max_size) values) % 2 ^ 32 := by
  obtain ⟨rest, kept, h⟩ := avgOf_holds min min_size max max_size hmin hmax values
  obtain ⟨hmins, hmaxs, hkept⟩ := h.parts
  exact ⟨hmins, hmaxs, h.elements.trans (by rw [hkept.length_eq]),
    h.sum.trans (by rw [total_perm hkept])⟩

/-- **Bookkeeping**: the arrays hold the extremes, `elements` and `sum` are the number and
the sum of the other values in 32 bits, and the order of the values does not matter. -/
theorem avg_bookkeeping (min : Option (Nat → UInt32)) (min_size : UInt8)
    (max : Option (Nat → UInt32)) (max_size : UInt8) (hmin : min.isSome → 0 < min_size)
    (hmax : max.isSome → 0 < max_size) (values : List UInt32) :
    (avgOf min min_size max max_size values).min.filled.Perm
        (smallestValues (arrayRoom min min_size) values) ∧
      (avgOf min min_size max max_size values).max.filled.Perm
        (largestValues (arrayRoom min min_size) (arrayRoom max max_size) values) ∧
      (avgOf min min_size max max_size values).elements.toNat =
        (keptValues (arrayRoom min min_size) (arrayRoom max max_size) values).length % 2 ^ 32 ∧
      (avgOf min min_size max max_size values).sum.toNat =
        total (keptValues (arrayRoom min min_size) (arrayRoom max max_size) values) % 2 ^ 32 ∧
      ∀ values', values'.Perm values →
        let a := avgOf min min_size max max_size values
        let a' := avgOf min min_size max max_size values'
        a'.min.filled.Perm a.min.filled ∧ a'.max.filled.Perm a.max.filled ∧
          a'.elements = a.elements ∧ a'.sum = a.sum := by
  obtain ⟨hmins, hmaxs, helements, hsum⟩ :=
    avgOf_parts min min_size max max_size hmin hmax values
  refine ⟨hmins, hmaxs, helements, hsum, ?_⟩
  intro values' hperm a a'
  obtain ⟨hmins', hmaxs', helements', hsum'⟩ :=
    avgOf_parts min min_size max max_size hmin hmax values'
  have hsame : ascending values' = ascending values :=
    ((ascending_perm values').trans (hperm.trans (ascending_perm values).symm)).eq_of_pairwise'
      (ascending_sorted values') (ascending_sorted values)
  unfold smallestValues at hmins hmins'
  unfold largestValues at hmaxs hmaxs'
  unfold keptValues at helements helements' hsum hsum'
  rw [hsame] at hmins' hmaxs' helements' hsum'
  exact ⟨hmins'.trans hmins.symm, hmaxs'.trans hmaxs.symm,
    UInt32.toNat_inj.mp (helements'.trans helements.symm),
    UInt32.toNat_inj.mp (hsum'.trans hsum.symm)⟩

/-- Two smallest ones and the largest one of five values are left out. -/
theorem avg_bookkeeping_five :
    let data : Nat → UInt32 := fun _ => 0
    let a := avgOf (some data) 2 (some data) 1 [7, 3, 9, 1, 5]
    a.min.filled.Perm [1, 3] ∧ a.max.filled.Perm [9] ∧ a.elements.toNat = 2 ∧ a.sum.toNat = 12 := by
  intro data a
  obtain ⟨hmin, hmax, helements, hsum, -⟩ :=
    avg_bookkeeping (some data) 2 (some data) 1 (by decide) (by decide) [7, 3, 9, 1, 5]
  exact ⟨hmin, hmax, helements, hsum⟩

/-! ## Rounding -/

/-- The quotient, rounded up if the remainder is at least `n / 2`, unless `n` is 1. -/
def roundedQuotient (s n : Nat) : Nat :=
  s / n + if 2 ≤ n ∧ n / 2 ≤ s % n then 1 else 0

theorem avgCalculate_eq (a : Avg) (h : a.elements.toNat ≠ 0) :
    (avgCalculate a).toNat = roundedQuotient a.sum.toNat a.elements.toNat := by
  have hne : a.elements ≠ 0 := fun heq => h (by rw [heq]; rfl)
  have htwo : a.elements ≥ 2 ↔ 2 ≤ a.elements.toNat := UInt32.le_iff_toNat_le
  have hhalf : a.sum % a.elements ≥ a.elements / 2 ↔
      a.elements.toNat / 2 ≤ a.sum.toNat % a.elements.toNat := by
    rw [ge_iff_le, UInt32.le_iff_toNat_le, UInt32.toNat_div, UInt32.toNat_mod]
    rfl
  unfold avgCalculate roundedQuotient
  rw [if_pos hne]
  dsimp only
  simp only [htwo, hhalf]
  by_cases htwo' : 2 ≤ a.elements.toNat
  · have hsum := a.sum.toNat_lt
    -- the quotient is at most half of a number of 32 bits
    have hquot : a.sum.toNat / a.elements.toNat < 2 ^ 31 :=
      Nat.div_lt_of_lt_mul (by omega)
    by_cases hhalf' : a.elements.toNat / 2 ≤ a.sum.toNat % a.elements.toNat
    · rw [if_pos htwo', if_pos hhalf', if_pos ⟨htwo', hhalf'⟩, UInt32.toNat_add, UInt32.toNat_div]
      exact Nat.mod_eq_of_lt (by show _ + 1 < _; omega)
    · rw [if_pos htwo', if_neg hhalf', if_neg fun h => hhalf' h.2, UInt32.toNat_div]
      rfl
  · rw [if_neg htwo', if_neg fun h => htwo' h.1, UInt32.toNat_div]
    rfl

/-- Rounding goes to the nearest integer except at an odd number of values, from 3 on, whose
remainder is the last one below one half. -/
theorem roundedQuotient_nearest {s n : Nat} (hn : 0 < n) :
    |2 * ((n : Int) * roundedQuotient s n - s)| ≤ n ↔
      ¬ (n % 2 = 1 ∧ 3 ≤ n ∧ s % n = n / 2) := by
  have hdiv := Nat.div_add_mod s n
  have hlt := Nat.mod_lt s hn
  unfold roundedQuotient
  generalize s / n = q at *
  generalize s % n = r at *
  subst hdiv
  split
  · have hexp : (n : Int) * ((q + 1 : Nat) : Int) - ((n * q + r : Nat) : Int) = n - r := by
      push_cast
      ring
    rw [hexp, abs_le]
    omega
  · have hexp : (n : Int) * ((q + 0 : Nat) : Int) - ((n * q + r : Nat) : Int) = -r := by
      push_cast
      ring
    rw [hexp, abs_le]
    omega

/-- Without arrays every value is kept. -/
theorem keptValues_zero (values : List UInt32) : (keptValues 0 0 values).Perm values := by
  unfold keptValues
  rw [List.drop_zero, List.drop_zero]
  exact (List.reverse_perm _).trans (ascending_perm values)

/-- **Rounding** of an average without arrays, as long as its sum and its number of values
fit 32 bits: it is the nearest integer, except for an odd number of values, from 3 on, if
the remainder is the last one below one half. -/
theorem avg_rounded (values : List UInt32) (hne : values ≠ []) (hsum : total values < 2 ^ 32)
    (hlength : values.length < 2 ^ 32) :
    |2 * ((values.length : Int) * (avgCalculate (avgOf none 0 none 0 values)).toNat -
        total values)| ≤ values.length ↔
      ¬ (values.length % 2 = 1 ∧ 3 ≤ values.length ∧
        total values % values.length = values.length / 2) := by
  have hpos : 0 < values.length := List.length_pos_iff.mpr hne
  obtain ⟨-, -, helements, htotal⟩ := avgOf_parts none 0 none 0 nofun nofun values
  have hkept := keptValues_zero values
  rw [show arrayRoom none 0 = 0 from rfl, hkept.length_eq, Nat.mod_eq_of_lt hlength] at helements
  rw [show arrayRoom none 0 = 0 from rfl, total_perm hkept, Nat.mod_eq_of_lt hsum] at htotal
  rw [avgCalculate_eq _ (by rw [helements]; exact hpos.ne'), helements, htotal]
  exact roundedQuotient_nearest hpos

/-- The average of 0, 0 and 1 is rounded up to 1. -/
theorem avg_rounded_up :
    ¬ |2 * ((3 : Int) * (avgCalculate (avgOf none 0 none 0 [0, 0, 1])).toNat - total [0, 0, 1])| ≤
      3 := by
  decide +kernel

/-- The average of 0, 1 and 1. -/
theorem avg_rounded_three :
    |2 * ((3 : Int) * (avgCalculate (avgOf none 0 none 0 [0, 1, 1])).toNat - total [0, 1, 1])| ≤
      3 :=
  (avg_rounded [0, 1, 1] (by decide) (by decide) (by decide)).mpr (by decide)

/-! ## The range of an average -/

/-- What rounding adds to the sum of `n` values. -/
def roundingSlack (n : Nat) : Nat := n - Nat.max 1 (n / 2)

theorem roundedQuotient_eq_div {s n : Nat} (hn : 0 < n) :
    roundedQuotient s n = (s + roundingSlack n) / n := by
  have hdiv := Nat.div_add_mod s n
  have hlt := Nat.mod_lt s hn
  have hmax : Nat.max 1 (n / 2) = if 2 ≤ n then n / 2 else 1 := by
    show max 1 (n / 2) = _
    split <;> omega
  unfold roundedQuotient roundingSlack
  rw [hmax]
  generalize s / n = q at *
  generalize s % n = r at *
  rw [← hdiv, Nat.add_assoc, Nat.mul_add_div hn]
  congr 1
  by_cases htwo : 2 ≤ n
  · rw [if_pos htwo]
    split
    · exact (Nat.div_eq_of_lt_le (by omega) (by omega)).symm
    · exact (Nat.div_eq_of_lt (by omega)).symm
  · rw [if_neg htwo, if_neg fun h => htwo h.1]
    exact (Nat.div_eq_of_lt (by omega)).symm

/-- The number of the kept values and their true sum have 32 bits: no addition overflows. -/
def SumFits (kept : List UInt32) : Prop := kept.length < 2 ^ 32 ∧ total kept < 2 ^ 32

instance (kept : List UInt32) : Decidable (SumFits kept) := inferInstanceAs (Decidable (_ ∧ _))

theorem mem_of_mem_kept {k m : Nat} {values : List UInt32} {v : UInt32}
    (hv : v ∈ keptValues k m values) : v ∈ values := by
  have hreverse := List.mem_of_mem_drop hv
  exact (ascending_perm values).mem_iff.mp (List.mem_of_mem_drop (List.mem_reverse.mp hreverse))

theorem total_le_mul {values : List UInt32} {hi : Nat} (h : ∀ v ∈ values, v.toNat ≤ hi) :
    total values ≤ hi * values.length := by
  have hsum := List.sum_le_card_nsmul (values.map UInt32.toNat) hi (by simpa using h)
  rw [List.length_map, Nat.nsmul_eq_mul, Nat.mul_comm] at hsum
  exact hsum

theorem mul_le_total {values : List UInt32} {lo : Nat} (h : ∀ v ∈ values, lo ≤ v.toNat) :
    lo * values.length ≤ total values := by
  have hsum := List.card_nsmul_le_sum (values.map UInt32.toNat) lo (by simpa using h)
  rw [List.length_map, Nat.nsmul_eq_mul, Nat.mul_comm] at hsum
  exact hsum

/-- What `avg_calculate` computes from the sum and the number, as far as these have 32 bits. -/
theorem avgCalculate_kept {min : Option (Nat → UInt32)} {min_size : UInt8}
    {max : Option (Nat → UInt32)} {max_size : UInt8} (hmin : min.isSome → 0 < min_size)
    (hmax : max.isSome → 0 < max_size) {values : List UInt32}
    (hready : avgReady (avgOf min min_size max max_size values) = true) {kept : List UInt32}
    (hkept : kept = keptValues (arrayRoom min min_size) (arrayRoom max max_size) values)
    (hlength : kept.length < 2 ^ 32) :
    0 < kept.length ∧ (avgCalculate (avgOf min min_size max max_size values)).toNat =
      (total kept % 2 ^ 32 + roundingSlack kept.length) / kept.length := by
  obtain ⟨-, -, helements, hsum⟩ := avgOf_parts min min_size max max_size hmin hmax values
  rw [← hkept, Nat.mod_eq_of_lt hlength] at helements
  rw [← hkept] at hsum
  have hne : (avgOf min min_size max max_size values).elements.toNat ≠ 0 := by
    intro hzero
    have hzero' : (avgOf min min_size max max_size values).elements = 0 :=
      UInt32.toNat_inj.mp hzero
    unfold avgReady at hready
    rw [hzero'] at hready
    cases hready
  have hpos : 0 < kept.length := Nat.pos_of_ne_zero (helements ▸ hne)
  refine ⟨hpos, ?_⟩
  rw [avgCalculate_eq _ hne, helements, hsum, roundedQuotient_eq_div hpos]

theorem roundingSlack_lt {n : Nat} (hn : 0 < n) : roundingSlack n < n :=
  Nat.sub_lt hn (Nat.lt_of_lt_of_le Nat.one_pos (Nat.le_max_left _ _))

/-- An average of values that are at least `lo` and at most `hi`. -/
theorem roundedSum_in_range {kept : List UInt32} (hpos : 0 < kept.length) {lo hi : Nat}
    (hlo : ∀ v ∈ kept, lo ≤ v.toNat) (hhi : ∀ v ∈ kept, v.toNat ≤ hi) :
    lo ≤ (total kept + roundingSlack kept.length) / kept.length ∧
      (total kept + roundingSlack kept.length) / kept.length ≤ hi := by
  have hlower := mul_le_total hlo
  have hupper := total_le_mul hhi
  have hslack := roundingSlack_lt hpos
  refine ⟨(Nat.le_div_iff_mul_le hpos).mpr (by omega), ?_⟩
  refine Nat.lt_succ_iff.mp ((Nat.div_lt_iff_lt_mul hpos).mpr ?_)
  rw [Nat.succ_mul]
  omega

/-- A sum that has lost `2 ^ 32` or more, of values that are not far above `lo`. -/
theorem roundedSum_below {kept : List UInt32} (hpos : 0 < kept.length) {lo : Nat}
    (hlost : 2 ^ 32 ≤ total kept)
    (hclose : total kept + kept.length ≤ lo * kept.length + 2 ^ 32) :
    (total kept % 2 ^ 32 + roundingSlack kept.length) / kept.length < lo := by
  have hslack := roundingSlack_lt hpos
  refine (Nat.div_lt_iff_lt_mul hpos).mpr ?_
  omega

/-- **The average lies within the data** if neither the number nor the sum of the kept values
overflows. And only then, where the values are close together: where their number fits 32 bits
and the kept ones exceed some `lo`, which no value is below, by at most `2 ^ 32 - n` in total. -/
theorem avg_within_data (min : Option (Nat → UInt32)) (min_size : UInt8)
    (max : Option (Nat → UInt32)) (max_size : UInt8) (hmin : min.isSome → 0 < min_size)
    (hmax : max.isSome → 0 < max_size) (values : List UInt32)
    (hready : avgReady (avgOf min min_size max max_size values) = true) :
    let r := avgCalculate (avgOf min min_size max max_size values)
    let kept := keptValues (arrayRoom min min_size) (arrayRoom max max_size) values
    (SumFits kept → (∃ lo ∈ values, lo ≤ r) ∧ ∃ hi ∈ values, r ≤ hi) ∧
      ∀ lo, (∀ v ∈ values, lo ≤ v.toNat) → kept.length < 2 ^ 32 →
        total kept + kept.length ≤ lo * kept.length + 2 ^ 32 →
        (((∃ lo ∈ values, lo ≤ r) ∧ ∃ hi ∈ values, r ≤ hi) ↔ SumFits kept) := by
  intro r kept
  have hfits : SumFits kept → (∃ lo ∈ values, lo ≤ r) ∧ ∃ hi ∈ values, r ≤ hi := by
    rintro ⟨hlength, hsum⟩
    obtain ⟨hpos, hr⟩ := avgCalculate_kept hmin hmax hready rfl hlength
    rw [Nat.mod_eq_of_lt hsum] at hr
    obtain ⟨v, hv⟩ := List.exists_mem_of_length_pos hpos
    have hne := List.ne_nil_of_mem (mem_of_mem_kept hv)
    obtain ⟨lo, hlo, hfirst⟩ := exists_first (· ≤ ·) hne
    obtain ⟨hi, hhi, hlast⟩ := exists_first (· ≥ ·) hne
    obtain ⟨hlower, hupper⟩ := roundedSum_in_range hpos
      (fun v hv => UInt32.le_iff_toNat_le.mp (hfirst v (mem_of_mem_kept hv)))
      (fun v hv => UInt32.le_iff_toNat_le.mp (hlast v (mem_of_mem_kept hv)))
    exact ⟨⟨lo, hlo, UInt32.le_iff_toNat_le.mpr (hr ▸ hlower)⟩,
      ⟨hi, hhi, UInt32.le_iff_toNat_le.mpr (hr ▸ hupper)⟩⟩
  refine ⟨hfits, fun lo hlo hlength hclose => ⟨?_, hfits⟩⟩
  rintro ⟨⟨v, hv, hle⟩, -⟩
  refine ⟨hlength, not_le.mp fun hlost => ?_⟩
  obtain ⟨hpos, hr⟩ := avgCalculate_kept hmin hmax hready rfl hlength
  -- the result is below `lo`, and `v` is not
  have hbelow := roundedSum_below hpos hlost hclose
  rw [← hr] at hbelow
  exact absurd ((hlo v hv).trans (UInt32.le_iff_toNat_le.mp hle)) (not_le.mpr hbelow)

/-- After an overflow the result may lie within the data by coincidence. -/
example : ¬ SumFits [0, 4294967295, 1] ∧
    avgCalculate (avgOf none 0 none 0 [0, 4294967295, 1]) = 0 := by
  decide +kernel

/-- The average of 2147483648 and 2147483648 is 0. -/
theorem avg_below_data :
    avgReady (avgOf none 0 none 0 [2147483648, 2147483648]) = true ∧
      ¬ ((∃ lo ∈ [2147483648, 2147483648],
          lo ≤ avgCalculate (avgOf none 0 none 0 [2147483648, 2147483648])) ∧
        ∃ hi ∈ [2147483648, 2147483648],
          avgCalculate (avgOf none 0 none 0 [2147483648, 2147483648]) ≤ hi) := by
  decide +kernel

/-- The average of 2147483647 and 2147483648, whose sum fits. -/
theorem avg_within_data_two :
    let values : List UInt32 := [2147483647, 2147483648]
    (∃ lo ∈ values, lo ≤ avgCalculate (avgOf none 0 none 0 values)) ∧
      ∃ hi ∈ values, avgCalculate (avgOf none 0 none 0 values) ≤ hi :=
  (avg_within_data none 0 none 0 nofun nofun [2147483647, 2147483648] (by decide +kernel)).1
    (by decide)

end EmbeddedMx
