import Mathlib.Data.List.Pairwise
import Mathlib.Tactic.Common

/-!
# Blocks laid out in a ring

A region of `size` cells is filled with blocks, each a header of `hdr` cells
followed by a body. Blocks are created at one end (`stop`) and reclaimed at the
other (`start`). Two shapes occur:

* *straight*: all blocks lie one behind the other from `start` to `stop`;
* *wrapped*: an older part fills `[start, size)` exactly and a newer part
  starts again at `0` and stops below `start`.

`Seg` is a contiguous run of blocks, `RingLayout` one of the two shapes. The lemmas
say that the blocks of a ring are pairwise disjoint and inside the region, and
that appending a block at `stop`, stretching the newest block to the end of the
region and dropping the oldest block keep the shape.
-/

namespace EmbeddedMx.Lib

/-- A block: the position of its header, the length of its body, and whether
it is still in use. -/
structure Block where
  idx : Nat
  len : Nat
  bound : Bool
deriving DecidableEq, Repr

/-- The first cell behind a block. -/
def Block.stop (hdr : Nat) (b : Block) : Nat := b.idx + hdr + b.len

/-- `b` marked as no longer in use if its header stands at `idx`. -/
def Block.unbindAt (idx : Nat) (b : Block) : Block :=
  if b.idx = idx then { b with bound := false } else b

@[simp] theorem Block.unbindAt_idx (idx : Nat) (b : Block) : (b.unbindAt idx).idx = b.idx := by
  unfold Block.unbindAt
  split <;> rfl

@[simp] theorem Block.unbindAt_len (idx : Nat) (b : Block) : (b.unbindAt idx).len = b.len := by
  unfold Block.unbindAt
  split <;> rfl

/-- `bs` are laid out one behind the other from `i` up to `j`. -/
def Seg (hdr : Nat) : Nat → List Block → Nat → Prop
  | i, [], j => i = j
  | i, b :: bs, j => b.idx = i ∧ Seg hdr (b.stop hdr) bs j

/-- The blocks `bs`, oldest first, occupy the ring of `size` cells from `start`
to `stop`. -/
inductive RingLayout (hdr size : Nat) : Nat → List Block → Nat → Prop
  | straight {start bs stop} : Seg hdr start bs stop → (bs = [] ∨ stop < size) →
      RingLayout hdr size start bs stop
  | wrapped {start old new stop} : Seg hdr start old size → Seg hdr 0 new stop →
      old ≠ [] → new ≠ [] → stop < start → RingLayout hdr size start (old ++ new) stop

variable {hdr size : Nat}

theorem seg_append {bs cs : List Block} {i j : Nat} :
    Seg hdr i (bs ++ cs) j ↔ ∃ k, Seg hdr i bs k ∧ Seg hdr k cs j := by
  induction bs generalizing i with
  | nil => simp [Seg]
  | cons b bs ih => simp only [List.cons_append, Seg, ih, and_assoc, exists_and_left]

theorem Seg.le {bs : List Block} {i j : Nat} (h : Seg hdr i bs j) :
    i + hdr * bs.length ≤ j := by
  induction bs generalizing i with
  | nil => simp [Seg] at h; simp [h]
  | cons b bs ih =>
      have hrest := ih h.2
      have hi := h.1
      simp only [Block.stop, List.length_cons, Nat.mul_succ] at *
      omega

/-- Every block of a run lies between its ends. -/
theorem Seg.mem_bounds {bs : List Block} {i j : Nat} (h : Seg hdr i bs j) :
    ∀ b ∈ bs, i ≤ b.idx ∧ b.stop hdr ≤ j := by
  induction bs generalizing i with
  | nil => intro b hb; exact absurd hb (by simp)
  | cons c bs ih =>
      intro b hb
      have hle := Seg.le h.2
      have hi := h.1
      rcases List.mem_cons.mp hb with rfl | hb
      · exact ⟨by omega, by omega⟩
      · obtain ⟨h1, h2⟩ := ih h.2 b hb
        unfold Block.stop at h1
        exact ⟨by omega, h2⟩

/-- The blocks of a run follow one another. -/
theorem Seg.pairwise {bs : List Block} {i j : Nat} (h : Seg hdr i bs j) :
    bs.Pairwise fun b c => b.stop hdr ≤ c.idx := by
  induction bs generalizing i with
  | nil => exact List.Pairwise.nil
  | cons b bs ih =>
      refine List.Pairwise.cons ?_ (ih h.2)
      intro c hc
      exact (Seg.mem_bounds h.2 c hc).1

/-- The run only depends on positions and lengths. -/
theorem Seg.map {bs : List Block} {i j : Nat} (f : Block → Block)
    (hf : ∀ b, (f b).idx = b.idx ∧ (f b).len = b.len) (h : Seg hdr i bs j) :
    Seg hdr i (bs.map f) j := by
  induction bs generalizing i with
  | nil => exact h
  | cons b bs ih =>
      refine ⟨(hf b).1.trans h.1, ?_⟩
      have hstop : (f b).stop hdr = b.stop hdr := by simp [Block.stop, hf b]
      rw [hstop]
      exact ih h.2

/-! ## Rings -/

theorem RingLayout.start_lt {start stop : Nat} {bs : List Block} (hh : 0 < hdr)
    (h : RingLayout hdr size start bs stop) (hne : bs ≠ []) : start < size := by
  cases h with
  | straight hseg hlt =>
      have hle := hseg.le
      rcases hlt with hnil | hlt
      · exact absurd hnil hne
      · omega
  | wrapped hold _ hne' _ _ =>
      have hle := hold.le
      have hpos := Nat.mul_pos hh (List.length_pos_iff.mpr hne')
      omega

theorem RingLayout.stop_lt {start stop : Nat} {bs : List Block} (hh : 0 < hdr)
    (h : RingLayout hdr size start bs stop) (hne : bs ≠ []) : stop < size := by
  cases h with
  | straight _ hlt => exact hlt.resolve_left hne
  | wrapped hold hnew hne' hne'' hlt =>
      have := RingLayout.start_lt hh (.wrapped hold hnew hne' hne'' hlt) hne
      omega

/-- Every block of a ring lies inside the region. -/
theorem RingLayout.mem_bounds {start stop : Nat} {bs : List Block}
    (h : RingLayout hdr size start bs stop) : ∀ b ∈ bs, b.stop hdr ≤ size := by
  intro b hb
  cases h with
  | straight hseg hlt =>
      have hbound := (hseg.mem_bounds b hb).2
      rcases hlt with rfl | hlt
      · exact absurd hb (by simp)
      · omega
  | wrapped hold hnew _ _ hlt =>
      rcases List.mem_append.mp hb with hb | hb
      · exact (hold.mem_bounds b hb).2
      · have := (hnew.mem_bounds b hb).2
        have := hold.le
        omega

/-- The blocks of a ring are pairwise disjoint. -/
theorem RingLayout.pairwise {start stop : Nat} {bs : List Block}
    (h : RingLayout hdr size start bs stop) :
    bs.Pairwise fun b c => b.stop hdr ≤ c.idx ∨ c.stop hdr ≤ b.idx := by
  cases h with
  | straight hseg _ => exact hseg.pairwise.imp Or.inl
  | wrapped hold hnew _ _ hlt =>
      rw [List.pairwise_append]
      refine ⟨hold.pairwise.imp Or.inl, hnew.pairwise.imp Or.inl, ?_⟩
      intro b hb c hc
      have hb' := (hold.mem_bounds b hb).1
      have hc' := (hnew.mem_bounds c hc).2
      exact Or.inr (by omega)

/-- Two blocks of a ring are equal or disjoint. -/
theorem RingLayout.eq_or_disjoint {start stop : Nat} {bs : List Block}
    (h : RingLayout hdr size start bs stop) {b c : Block} (hb : b ∈ bs) (hc : c ∈ bs) :
    b = c ∨ b.stop hdr ≤ c.idx ∨ c.stop hdr ≤ b.idx := by
  by_cases hbc : b = c
  · exact .inl hbc
  · have : Std.Symm fun x y : Block => x.stop hdr ≤ y.idx ∨ y.stop hdr ≤ x.idx :=
      ⟨fun _ _ => Or.symm⟩
    exact .inr (h.pairwise.forall hb hc hbc)

/-- With a non-empty header, a block is determined by its position. -/
theorem RingLayout.idx_inj {start stop : Nat} {bs : List Block} (hh : 0 < hdr)
    (h : RingLayout hdr size start bs stop) {b c : Block} (hb : b ∈ bs) (hc : c ∈ bs)
    (hidx : b.idx = c.idx) : b = c := by
  rcases h.eq_or_disjoint hb hc with heq | hdis
  · exact heq
  · unfold Block.stop at hdis
    omega

/-- No two blocks of a ring share a position. -/
theorem RingLayout.idx_nodup {start stop : Nat} {bs : List Block} (hh : 0 < hdr)
    (h : RingLayout hdr size start bs stop) : (bs.map (·.idx)).Nodup := by
  rw [List.Nodup, List.pairwise_map]
  refine h.pairwise.imp fun hdis heq => ?_
  unfold Block.stop at hdis
  omega

/-- A ring has at most `size` blocks. -/
theorem RingLayout.length_le {start stop : Nat} {bs : List Block} (hh : 0 < hdr)
    (h : RingLayout hdr size start bs stop) : bs.length ≤ size := by
  have hmul : ∀ n, n ≤ hdr * n := fun n => Nat.le_mul_of_pos_left n hh
  cases h with
  | straight hseg hlt =>
      have hle := hseg.le
      have := hmul bs.length
      rcases hlt with rfl | hlt
      · simp
      · omega
  | @wrapped old new _ hold hnew _ _ hlt =>
      have h1 := hold.le
      have h2 := hnew.le
      have := hmul old.length
      have := hmul new.length
      rw [List.length_append]
      omega

/-- The ring only depends on positions and lengths. -/
theorem RingLayout.map {start stop : Nat} {bs : List Block} (f : Block → Block)
    (hf : ∀ b, (f b).idx = b.idx ∧ (f b).len = b.len) (h : RingLayout hdr size start bs stop) :
    RingLayout hdr size start (bs.map f) stop := by
  cases h with
  | straight hseg hlt => exact .straight (hseg.map f hf) (by simpa using hlt)
  | wrapped hold hnew h1 h2 hlt =>
      rw [List.map_append]
      exact .wrapped (hold.map f hf) (hnew.map f hf) (by simpa using h1) (by simpa using h2) hlt

/-- `start ≤ stop` exactly in the straight shape. -/
theorem RingLayout.seg_of_le {start stop : Nat} {bs : List Block}
    (h : RingLayout hdr size start bs stop) (hle : start ≤ stop) :
    Seg hdr start bs stop ∧ (bs = [] ∨ stop < size) := by
  cases h with
  | straight hseg hlt => exact ⟨hseg, hlt⟩
  | wrapped _ _ _ _ hlt => omega

/-- The oldest block stands at `start`. -/
theorem RingLayout.head_idx {start stop : Nat} {b : Block} {bs : List Block}
    (h : RingLayout hdr size start (b :: bs) stop) : b.idx = start := by
  generalize hl : b :: bs = l at h
  cases h with
  | straight hseg _ => subst hl; exact hseg.1
  | @wrapped old new _ hold _ hne _ _ =>
      cases old with
      | nil => exact absurd rfl hne
      | cons c cs =>
          simp only [List.cons_append, List.cons.injEq] at hl
          rw [hl.1]
          exact hold.1

/-- A non-empty ring does not stop where it starts. -/
theorem RingLayout.start_ne_stop {start stop : Nat} {bs : List Block} (hh : 0 < hdr)
    (h : RingLayout hdr size start bs stop) (hne : bs ≠ []) : start ≠ stop := by
  cases h with
  | straight hseg _ =>
      have hle := hseg.le
      have := Nat.mul_pos hh (List.length_pos_iff.mpr hne)
      omega
  | wrapped _ _ _ _ hlt => omega

/-- An empty ring stops where it starts. -/
theorem RingLayout.nil_eq {start stop : Nat} (h : RingLayout hdr size start [] stop) :
    start = stop := by
  generalize hl : ([] : List Block) = l at h
  cases h with
  | straight hseg _ => subst hl; exact hseg
  | wrapped _ _ hne _ _ => exact absurd (List.append_eq_nil_iff.mp hl.symm).1 hne

/-- Append a block behind the newest one of a straight ring. -/
theorem RingLayout.push_straight {start stop len : Nat} {bs : List Block} (u : Bool)
    (h : RingLayout hdr size start bs stop) (hle : start ≤ stop) (hfit : stop + hdr + len < size) :
    RingLayout hdr size start (bs ++ [⟨stop, len, u⟩]) (stop + hdr + len) := by
  have hseg := (h.seg_of_le hle).1
  exact .straight (seg_append.mpr ⟨stop, hseg, rfl, rfl⟩) (.inr hfit)

/-- Append a block behind the newest one of a wrapped ring. -/
theorem RingLayout.push_wrapped {start stop len : Nat} {bs : List Block} (u : Bool)
    (h : RingLayout hdr size start bs stop) (hlt : stop < start) (hfit : stop + hdr + len < start) :
    RingLayout hdr size start (bs ++ [⟨stop, len, u⟩]) (stop + hdr + len) := by
  cases h with
  | straight hseg _ =>
      have := hseg.le
      omega
  | wrapped hold hnew h1 _ _ =>
      rw [List.append_assoc]
      exact .wrapped hold (seg_append.mpr ⟨stop, hnew, rfl, rfl⟩) h1 (by simp) hfit

/-- Stretch the newest block of a straight ring to the end of the region and
append a block at position `0`. -/
theorem RingLayout.push_wrap {start stop len : Nat} {bs : List Block} {last : Block} (u v : Bool)
    (h : RingLayout hdr size start (bs ++ [last]) stop) (hle : start ≤ stop)
    (hfit : hdr + len < start) :
    RingLayout hdr size start
      ((bs ++ [⟨last.idx, size - (last.idx + hdr), u⟩]) ++ [⟨0, len, v⟩]) (hdr + len) := by
  obtain ⟨hseg, hlt⟩ := h.seg_of_le hle
  have hsize : stop < size := hlt.resolve_left (by simp)
  obtain ⟨k, hbs, hk, hstop⟩ := seg_append.mp hseg
  have hstop' : last.stop hdr = stop := hstop
  unfold Block.stop at hstop'
  refine .wrapped (seg_append.mpr ⟨k, hbs, hk, ?_⟩) ⟨rfl, ?_⟩ (by simp) (by simp) hfit
  · show last.idx + hdr + (size - (last.idx + hdr)) = size
    omega
  · show 0 + hdr + len = hdr + len
    omega

/-- A ring ends behind its newest block. -/
theorem RingLayout.stop_last {start stop : Nat} {bs : List Block} {last : Block}
    (h : RingLayout hdr size start (bs ++ [last]) stop) : stop = last.stop hdr := by
  generalize hl : bs ++ [last] = l at h
  cases h with
  | straight hseg _ =>
      subst hl
      obtain ⟨_, _, _, hstop⟩ := seg_append.mp hseg
      exact hstop.symm
  | @wrapped old new _ hold hnew hold' hnew' hlt =>
      rw [← List.dropLast_concat_getLast hnew', ← List.append_assoc] at hl
      rw [← List.dropLast_concat_getLast hnew'] at hnew
      obtain ⟨_, hb⟩ := List.append_inj' hl rfl
      rw [← List.singleton_inj.mp hb] at hnew
      obtain ⟨_, _, _, hstop⟩ := seg_append.mp hnew
      exact hstop.symm

/-- Change the length of the newest block. -/
theorem RingLayout.resize_last {start stop len : Nat} {bs : List Block} {last : Block} (u : Bool)
    (h : RingLayout hdr size start (bs ++ [last]) stop)
    (hwrapped : last.idx < start → last.idx + hdr + len < start)
    (hstraight : start ≤ last.idx → last.idx + hdr + len < size) :
    RingLayout hdr size start (bs ++ [⟨last.idx, len, u⟩]) (last.idx + hdr + len) := by
  generalize hl : bs ++ [last] = l at h
  cases h with
  | straight hseg _ =>
      subst hl
      obtain ⟨k, hbs, hk, -⟩ := seg_append.mp hseg
      have hle := hbs.le
      exact .straight (seg_append.mpr ⟨k, hbs, hk, rfl⟩) (.inr (hstraight (by omega)))
  | @wrapped old new _ hold hnew hold' hnew' hlt =>
      -- the newest block belongs to the part at the start of the region
      rw [← List.dropLast_concat_getLast hnew', ← List.append_assoc] at hl
      rw [← List.dropLast_concat_getLast hnew'] at hnew
      obtain ⟨rfl, hb⟩ := List.append_inj' hl rfl
      rw [← List.singleton_inj.mp hb] at hnew
      obtain ⟨k, hnew₁, hk, hstop⟩ := seg_append.mp hnew
      have hstop' : last.stop hdr = stop := hstop
      unfold Block.stop at hstop'
      rw [List.append_assoc]
      exact .wrapped hold (seg_append.mpr ⟨k, hnew₁, hk, rfl⟩) hold' (by simp) (hwrapped (by omega))

/-- Drop the oldest block. -/
theorem RingLayout.pop {start stop : Nat} {b : Block} {bs : List Block} (hh : 0 < hdr)
    (h : RingLayout hdr size start (b :: bs) stop) :
    RingLayout hdr size (b.stop hdr % size) bs stop := by
  generalize hl : b :: bs = l at h
  cases h with
  | straight hseg hlt =>
      subst hl
      have hstop := hlt.resolve_left (by simp)
      have hle := hseg.2.le
      rw [Nat.mod_eq_of_lt (by omega)]
      exact .straight hseg.2 (.inr hstop)
  | @wrapped old new _ hold hnew h1 h2 hlt =>
      cases old with
      | nil => exact absurd rfl h1
      | cons c cs =>
          simp only [List.cons_append, List.cons.injEq] at hl
          obtain ⟨rfl, rfl⟩ := hl
          have hsize : b.stop hdr ≤ size := (hold.mem_bounds b (by simp)).2
          cases cs with
          | nil =>
              -- the older part is used up: the ring is straight again
              have hend : b.stop hdr = size := hold.2
              rw [hend, Nat.mod_self]
              have hstart := hold.le
              refine .straight hnew (.inr ?_)
              simp only [List.length_singleton] at hstart
              omega
          | cons d ds =>
              have hle := hold.2.le
              have hpos : 0 < hdr * (ds.length + 1) := Nat.mul_pos hh (Nat.succ_pos _)
              have hb := hold.1
              rw [List.length_cons] at hle
              rw [Nat.mod_eq_of_lt (by omega)]
              refine .wrapped hold.2 hnew (by simp) h2 ?_
              unfold Block.stop
              omega

end EmbeddedMx.Lib
