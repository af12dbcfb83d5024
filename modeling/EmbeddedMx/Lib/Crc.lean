import Mathlib.Data.List.Basic
import Mathlib.Logic.Function.Iterate

/-!
# Cyclic redundancy checks

The check of a sequence of bits is what they leave in a shift register of `w` bits
with the feedback `p`, the generator polynomial without its leading term. Bits come
most significant first (`crcBit`).

The register is linear: what two sequences leave differs by what their difference
leaves in an empty register (`crcBits_xor`). It takes in its own content and is
empty then (`crcBits_msbFirst`), so a sequence followed by its check leaves nothing.
And if the constant term of the polynomial is not zero, no bits are lost: an error
within `w` consecutive bits leaves something (`crcBits_burst`).
-/

namespace EmbeddedMx.Lib

variable {w : Nat}

/-- The bit `b` is shifted into the register `s`. -/
def crcBit (p s : BitVec w) (b : Bool) : BitVec w :=
  if s.msb ^^ b then (s <<< 1) ^^^ p else s <<< 1

/-- The bits are shifted in, one after the other. -/
def crcBits (p s : BitVec w) (bits : List Bool) : BitVec w := bits.foldl (crcBit p) s

theorem crcBits_append (p s : BitVec w) (bits bits' : List Bool) :
    crcBits p s (bits ++ bits') = crcBits p (crcBits p s bits) bits' :=
  List.foldl_append ..

/-! ## Linearity -/

theorem xor_exchange (a b c d : BitVec w) : a ^^^ b ^^^ (c ^^^ d) = a ^^^ c ^^^ (b ^^^ d) := by
  rw [BitVec.xor_assoc, ← BitVec.xor_assoc b, BitVec.xor_comm b, BitVec.xor_assoc c,
    ← BitVec.xor_assoc]

/-- What is fed back. -/
def crcFeedback (p : BitVec w) (b : Bool) : BitVec w := if b then p else 0

theorem crcFeedback_xor (p : BitVec w) (b c : Bool) :
    crcFeedback p (b ^^ c) = crcFeedback p b ^^^ crcFeedback p c := by
  cases b <;> cases c <;> simp [crcFeedback]

theorem crcBit_eq (p s : BitVec w) (b : Bool) :
    crcBit p s b = s <<< 1 ^^^ crcFeedback p (s.msb ^^ b) := by
  unfold crcBit crcFeedback
  split <;> simp

theorem crcBit_xor (p s t : BitVec w) (b c : Bool) :
    crcBit p (s ^^^ t) (b ^^ c) = crcBit p s b ^^^ crcBit p t c := by
  have hbit : ((s ^^^ t).msb ^^ (b ^^ c)) = ((s.msb ^^ b) ^^ (t.msb ^^ c)) := by
    rw [BitVec.msb_xor]
    cases s.msb <;> cases t.msb <;> cases b <;> cases c <;> rfl
  rw [crcBit_eq, crcBit_eq, crcBit_eq, BitVec.shiftLeft_xor_distrib, hbit, crcFeedback_xor,
    xor_exchange]

/-- What two sequences leave differs by what their difference leaves. -/
theorem crcBits_xor (p s t : BitVec w) {bits bits' : List Bool} (h : bits.length = bits'.length) :
    crcBits p (s ^^^ t) (List.zipWith xor bits bits') = crcBits p s bits ^^^ crcBits p t bits' := by
  induction bits generalizing s t bits' with
  | nil =>
    cases bits' with
    | nil => rfl
    | cons c bits' => cases h
  | cons b bits ih =>
    cases bits' with
    | nil => cases h
    | cons c bits' =>
      show crcBits p (crcBit p (s ^^^ t) (b ^^ c)) (List.zipWith xor bits bits') = _
      rw [crcBit_xor, ih _ _ (Nat.succ.inj h)]
      rfl

/-! ## Bits of words -/

/-- The first `k` bits of `v`, most significant first. -/
def msbFirst (k : Nat) (v : BitVec w) : List Bool := (List.range k).map v.getMsbD

@[simp] theorem length_msbFirst (k : Nat) (v : BitVec w) : (msbFirst k v).length = k := by
  simp [msbFirst]

theorem msbFirst_succ (k : Nat) (v : BitVec w) :
    msbFirst (k + 1) v = v.msb :: msbFirst k (v <<< 1) := by
  unfold msbFirst
  rw [List.range_succ_eq_map, List.map_cons, List.map_map, BitVec.msb_eq_getMsbD_zero]
  refine congrArg _ (List.map_congr_left fun i _ => ?_)
  rw [BitVec.getMsbD_shiftLeft]
  rfl

/-- A narrow word at the upper end of a wide one. -/
theorem msbFirst_setWidth {n k : Nat} (v : BitVec n) (hn : n ≤ w) :
    msbFirst k (v.setWidth w <<< (w - n)) = msbFirst k v := by
  unfold msbFirst
  refine List.map_congr_left fun i _ => ?_
  rw [BitVec.getMsbD_shiftLeft, BitVec.getMsbD_setWidth]
  rw [decide_eq_true (by omega), Bool.true_and, show i + (w - n) + n - w = i by omega]

/-- Two words put together. -/
theorem msbFirst_append {n m : Nat} (u : BitVec n) (v : BitVec m) :
    msbFirst (n + m) (u ++ v) = msbFirst n u ++ msbFirst m v := by
  unfold msbFirst
  rw [List.range_add, List.map_append, List.map_map]
  congr 1
  · refine List.map_congr_left fun i hi => ?_
    rw [BitVec.getMsbD_append, if_neg (Nat.not_le_of_lt (List.mem_range.mp hi))]
  · refine List.map_congr_left fun i _ => ?_
    show (u ++ v).getMsbD (n + i) = v.getMsbD i
    rw [BitVec.getMsbD_append, if_pos (Nat.le_add_right n i), Nat.add_sub_cancel_left]

/-- The difference of two words is that of their bits. -/
theorem msbFirst_xor (k : Nat) (u v : BitVec w) :
    msbFirst k (u ^^^ v) = List.zipWith xor (msbFirst k u) (msbFirst k v) := by
  unfold msbFirst
  rw [List.zipWith_map, List.zipWith_self]
  exact List.map_congr_left fun i _ => BitVec.getMsbD_xor

/-- Every sequence of `w` bits is a word. -/
theorem exists_msbFirst {bits : List Bool} (h : bits.length = w) :
    ∃ v : BitVec w, bits = msbFirst w v := by
  subst h
  refine ⟨BitVec.ofBoolListBE bits, List.ext_getElem (by simp) fun i hi _ => ?_⟩
  rw [List.getElem_eq_getD false]
  simp [msbFirst]

/-- The bits of a sequence of bytes. -/
def byteBits (bytes : List UInt8) : List Bool := bytes.flatMap fun b => msbFirst 8 b.toBitVec

theorem length_byteBits (bytes : List UInt8) : (byteBits bytes).length = 8 * bytes.length := by
  induction bytes with
  | nil => rfl
  | cons b bytes ih =>
    rw [byteBits, List.flatMap_cons, List.length_append, length_msbFirst, List.length_cons]
    rw [byteBits] at ih
    omega

theorem byteBits_append (bytes bytes' : List UInt8) :
    byteBits (bytes ++ bytes') = byteBits bytes ++ byteBits bytes' :=
  List.flatMap_append

/-- The difference of two sequences of bytes is that of their bits. -/
theorem byteBits_xor {bytes bytes' : List UInt8} (h : bytes.length = bytes'.length) :
    byteBits (List.zipWith (· ^^^ ·) bytes bytes') =
      List.zipWith xor (byteBits bytes) (byteBits bytes') := by
  induction bytes generalizing bytes' with
  | nil => rfl
  | cons b bytes ih =>
    cases bytes' with
    | nil => cases h
    | cons c bytes' =>
      have hbits : msbFirst 8 (b ^^^ c).toBitVec =
          List.zipWith xor (msbFirst 8 b.toBitVec) (msbFirst 8 c.toBitVec) := msbFirst_xor 8 _ _
      have hrest := ih (Nat.succ.inj h)
      unfold byteBits at hrest ⊢
      rw [List.zipWith_cons_cons, List.flatMap_cons, List.flatMap_cons, List.flatMap_cons, hbits,
        hrest, List.zipWith_append (by simp)]

/-! ## Empty bits -/

/-- No bit is set: the register only turns. -/
def crcTurn (p s : BitVec w) : BitVec w := crcBit p s false

theorem crcTurn_xor (p s t : BitVec w) : crcTurn p (s ^^^ t) = crcTurn p s ^^^ crcTurn p t :=
  crcBit_xor p s t false false

theorem crcTurns_xor (p : BitVec w) (n : Nat) (s t : BitVec w) :
    (crcTurn p)^[n] (s ^^^ t) = (crcTurn p)^[n] s ^^^ (crcTurn p)^[n] t := by
  induction n generalizing s t with
  | zero => rfl
  | succ n ih =>
    rw [Function.iterate_succ_apply, crcTurn_xor, ih]
    rfl

theorem crcBits_replicate (p s : BitVec w) (n : Nat) :
    crcBits p s (List.replicate n false) = (crcTurn p)^[n] s := by
  induction n generalizing s with
  | zero => rfl
  | succ n ih =>
    rw [List.replicate_succ, Function.iterate_succ_apply]
    exact ih _

/-- The register and the word that comes in are one. -/
theorem crcBits_msbFirst (p t v : BitVec w) (k : Nat) :
    crcBits p (t ^^^ v) (msbFirst k v) = (crcTurn p)^[k] t ^^^ v <<< k := by
  induction k generalizing t v with
  | zero => simp [msbFirst, crcBits]
  | succ k ih =>
    rw [msbFirst_succ, Function.iterate_succ_apply]
    show crcBits p (crcBit p (t ^^^ v) v.msb) (msbFirst k (v <<< 1)) = _
    -- the bit that comes in meets itself at the upper end
    have hstep : crcBit p (t ^^^ v) v.msb = crcTurn p t ^^^ v <<< 1 := by
      have hbit := crcBit_xor p t v false v.msb
      rw [Bool.false_xor] at hbit
      rw [hbit]
      simp [crcTurn, crcBit]
    rw [hstep, ih, ← BitVec.shiftLeft_add, Nat.add_comm 1 k]

/-- A whole word comes in. -/
theorem crcBits_word (p s v : BitVec w) :
    crcBits p s (msbFirst w v) = (crcTurn p)^[w] (s ^^^ v) := by
  have h := crcBits_msbFirst p (s ^^^ v) v w
  rw [BitVec.xor_assoc, BitVec.xor_self, BitVec.xor_zero] at h
  rw [h]
  simp

/-! ## What is detected -/

section Detection

variable {p : BitVec w} (hp : p.getLsbD 0 = true)

include hp

/-- The register loses nothing: the feedback shows in its last bit. -/
theorem crcTurn_ne_zero {s : BitVec w} (hs : s ≠ 0) : crcTurn p s ≠ 0 := by
  intro hzero
  unfold crcTurn crcBit at hzero
  rw [Bool.xor_false] at hzero
  split at hzero
  · have hbit := congrArg (fun x => x.getLsbD 0) hzero
    simp [hp] at hbit
  · rename_i hmsb
    refine hs (BitVec.eq_of_getMsbD_eq fun i hi => ?_)
    cases i with
    | zero =>
      rw [← BitVec.msb_eq_getMsbD_zero]
      simpa using hmsb
    | succ i =>
      have hbit := congrArg (fun x => x.getMsbD i) hzero
      simpa using hbit

theorem crcTurns_ne_zero {s : BitVec w} (hs : s ≠ 0) (n : Nat) : (crcTurn p)^[n] s ≠ 0 := by
  induction n generalizing s with
  | zero => exact hs
  | succ n ih =>
    rw [Function.iterate_succ_apply]
    exact ih (crcTurn_ne_zero hp hs)

/-- A sequence is followed by its check exactly if that leaves nothing. -/
theorem crcBits_check (s v : BitVec w) (bits : List Bool) :
    crcBits p s (bits ++ msbFirst w v) = 0 ↔ crcBits p s bits = v := by
  rw [crcBits_append, crcBits_word]
  constructor
  · intro hzero
    by_contra hne
    exact crcTurns_ne_zero hp (mt BitVec.xor_eq_zero_iff.mp hne) w hzero
  · intro heq
    rw [heq, BitVec.xor_self, ← BitVec.xor_self (x := v), crcTurns_xor]
    exact BitVec.xor_self

end Detection

/-- Some bits are set, and they lie within `k` consecutive bits. -/
def Burst (k : Nat) (bits : List Bool) : Prop :=
  true ∈ bits ∧ ∃ i, ∀ j, bits[j]? = some true → i ≤ j ∧ j < i + k

/-- A burst in a sequence of at least `k` bits: `k` bits, not all of them zero, between
zeros. -/
theorem Burst.split {k : Nat} {bits : List Bool} (h : Burst k bits) (hk : k ≤ bits.length) :
    ∃ (i j : Nat) (mid : List Bool),
      bits = List.replicate i false ++ mid ++ List.replicate j false ∧
      mid.length = k ∧ true ∈ mid := by
  obtain ⟨htrue, i, hi⟩ := h
  -- the window must not go beyond the end
  let a := min i (bits.length - k)
  have hwindow : ∀ j, bits[j]? = some true → a ≤ j ∧ j < a + k := by
    intro j hj
    have hlt : j < bits.length := (List.getElem?_eq_some_iff.mp hj).1
    have := hi j hj
    omega
  have hzeros : ∀ l : List Bool, true ∉ l → l = List.replicate l.length false := by
    intro l hl
    refine List.eq_replicate_iff.mpr ⟨rfl, fun b hb => ?_⟩
    cases b with
    | false => rfl
    | true => exact absurd hb hl
  have hpre : true ∉ bits.take a := by
    intro hmem
    obtain ⟨j, hj⟩ := List.mem_iff_getElem?.mp hmem
    rw [List.getElem?_take] at hj
    split at hj
    · have := hwindow j hj
      omega
    · cases hj
  have hpost : true ∉ (bits.drop a).drop k := by
    intro hmem
    obtain ⟨j, hj⟩ := List.mem_iff_getElem?.mp hmem
    rw [List.drop_drop, List.getElem?_drop] at hj
    have := hwindow _ hj
    omega
  have hsplit : bits = bits.take a ++ (bits.drop a).take k ++ (bits.drop a).drop k := by
    rw [List.append_assoc, List.take_append_drop, List.take_append_drop]
  refine ⟨(bits.take a).length, ((bits.drop a).drop k).length, (bits.drop a).take k, ?_, ?_, ?_⟩
  · rw [← hzeros _ hpre, ← hzeros _ hpost]
    exact hsplit
  · rw [List.length_take, List.length_drop]
    omega
  · rw [hsplit] at htrue
    rcases List.mem_append.mp htrue with hmem | hmem
    · exact (List.mem_append.mp hmem).resolve_left hpre
    · exact absurd hmem hpost

/-- **A burst is detected**: it leaves something in an empty register. -/
theorem crcBits_burst {p : BitVec w} (hp : p.getLsbD 0 = true) {bits : List Bool}
    (h : Burst w bits) (hw : w ≤ bits.length) : crcBits p 0 bits ≠ 0 := by
  obtain ⟨i, j, mid, rfl, hlen, htrue⟩ := h.split hw
  obtain ⟨v, rfl⟩ := exists_msbFirst hlen
  have hne : v ≠ 0 := by
    rintro rfl
    obtain ⟨k, -, hk⟩ := List.mem_map.mp htrue
    simp at hk
  have hempty : (crcTurn p)^[i] 0 = 0 := by
    have hself := crcTurns_xor p i 0 0
    rwa [BitVec.xor_self, BitVec.xor_self] at hself
  have hword : (0 : BitVec w) ^^^ v = v := BitVec.zero_xor
  rw [crcBits_append, crcBits_append, crcBits_replicate, crcBits_replicate, hempty,
    crcBits_word, hword]
  exact crcTurns_ne_zero hp (crcTurns_ne_zero hp hne _) _

end EmbeddedMx.Lib
