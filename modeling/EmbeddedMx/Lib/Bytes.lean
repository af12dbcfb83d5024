import Mathlib.Data.Nat.Init
import Mathlib.Tactic.Ring

/-!
# Byte memories and little-endian words

A memory is a total function from addresses to bytes. Everything stored in it
(words, records, payloads) goes through the two block operations `read` and
`write`; two facts about them carry the rest of the development:

* a block that was just written reads back (`read_write_same`);
* a block disjoint from the written one is unchanged (`read_write_apart`).

Words of `n` bytes are little-endian blocks (`load`, `store`).
-/

namespace EmbeddedMx.Lib

/-- A flat byte-addressed memory. -/
abbrev Mem := Nat → UInt8

/-- The blocks `[a, a + n)` and `[b, b + k)` do not overlap. -/
def Apart (a n b k : Nat) : Prop := a + n ≤ b ∨ b + k ≤ a

instance (a n b k : Nat) : Decidable (Apart a n b k) :=
  inferInstanceAs (Decidable (a + n ≤ b ∨ b + k ≤ a))

theorem Apart.symm {a n b k : Nat} (h : Apart a n b k) : Apart b k a n := Or.symm h

/-- Sub-blocks of disjoint blocks are disjoint. -/
theorem Apart.mono {a n b k a' n' b' k' : Nat} (h : Apart a n b k)
    (ha : a ≤ a') (hn : a' + n' ≤ a + n) (hb : b ≤ b') (hk : b' + k' ≤ b + k) :
    Apart a' n' b' k' := by
  unfold Apart at *
  omega

namespace Mem

/-- The `n` bytes starting at address `a`. -/
def read (m : Mem) : Nat → Nat → List UInt8
  | _, 0 => []
  | a, n + 1 => m a :: read m (a + 1) n

/-- Overwrite the block starting at `a` with `bytes`. -/
def write (m : Mem) (a : Nat) (bytes : List UInt8) : Mem := fun x =>
  if a ≤ x ∧ x < a + bytes.length then bytes.getD (x - a) 0 else m x

@[simp] theorem read_zero (m : Mem) (a : Nat) : m.read a 0 = [] := rfl

@[simp] theorem length_read (m : Mem) (a n : Nat) : (m.read a n).length = n := by
  induction n generalizing a with
  | zero => rfl
  | succ n ih => simp [read, ih]

theorem getElem?_read (m : Mem) (a n i : Nat) :
    (m.read a n)[i]? = if i < n then some (m (a + i)) else none := by
  induction n generalizing a i with
  | zero => simp
  | succ n ih =>
      cases i with
      | zero => simp [read]
      | succ i =>
          simp only [read, List.getElem?_cons_succ, ih, Nat.add_lt_add_iff_right]
          rw [Nat.add_right_comm, Nat.add_assoc]

/-- Reading a longer block is reading its two halves. -/
theorem read_add (m : Mem) (a n k : Nat) :
    m.read a (n + k) = m.read a n ++ m.read (a + n) k := by
  induction n generalizing a with
  | zero => simp
  | succ n ih =>
      rw [Nat.add_right_comm, read, ih, read, List.cons_append]
      rw [show a + 1 + n = a + (n + 1) by omega]

theorem read_succ_last (m : Mem) (a n : Nat) :
    m.read a (n + 1) = m.read a n ++ [m (a + n)] := read_add m a n 1

/-- Blocks on which two memories agree read the same. -/
theorem read_congr {m m' : Mem} {a n : Nat} (h : ∀ x, a ≤ x → x < a + n → m' x = m x) :
    m'.read a n = m.read a n := by
  induction n generalizing a with
  | zero => rfl
  | succ n ih =>
      simp only [read, h a (Nat.le_refl a) (by omega), List.cons.injEq, true_and]
      exact ih fun x hx hxn => h x (by omega) (by omega)

/-- Blocks of the same bytes, not necessarily at the same address, read the same. -/
theorem read_eq_of_bytes {m m' : Mem} {a a' n : Nat} (h : ∀ i < n, m' (a' + i) = m (a + i)) :
    m'.read a' n = m.read a n := by
  apply List.ext_getElem?
  intro i
  rw [getElem?_read, getElem?_read]
  split
  · rename_i hi
    rw [h i hi]
  · rfl

theorem take_read (m : Mem) (a n k : Nat) : (m.read a n).take k = m.read a (min k n) := by
  induction n generalizing a k with
  | zero => simp
  | succ n ih =>
      cases k with
      | zero => simp
      | succ k => simp [read, ih, Nat.succ_min_succ]

/-- A part of a block that was read. -/
theorem read_middle {m : Mem} {a n : Nat} {l₁ l₂ l₃ : List UInt8}
    (h : m.read a n = l₁ ++ l₂ ++ l₃) : m.read (a + l₁.length) l₂.length = l₂ := by
  have hn : n = l₁.length + l₂.length + l₃.length := by
    simpa [Nat.add_assoc] using congrArg List.length h
  rw [hn, read_add, read_add, List.append_assoc, List.append_assoc] at h
  have htail := (List.append_inj h (length_read _ _ _)).2
  exact (List.append_inj htail (length_read _ _ _)).1

theorem write_of_outside (m : Mem) (a : Nat) (bytes : List UInt8) {x : Nat}
    (h : x < a ∨ a + bytes.length ≤ x) : m.write a bytes x = m x := by
  unfold write
  rw [if_neg (by omega)]

theorem write_of_inside (m : Mem) (a : Nat) (bytes : List UInt8) {x : Nat}
    (ha : a ≤ x) (hx : x < a + bytes.length) : m.write a bytes x = bytes.getD (x - a) 0 := by
  unfold write
  rw [if_pos ⟨ha, hx⟩]

@[simp] theorem write_nil (m : Mem) (a : Nat) : m.write a [] = m := by
  funext x
  exact write_of_outside m a [] (by simp only [List.length_nil]; omega)

/-- A written block reads back. -/
theorem read_write_same (m : Mem) (a : Nat) (bytes : List UInt8) :
    (m.write a bytes).read a bytes.length = bytes := by
  apply List.ext_getElem?
  intro i
  rw [getElem?_read]
  by_cases hi : i < bytes.length
  · rw [if_pos hi, write_of_inside m a bytes (by omega) (by omega), Nat.add_sub_cancel_left,
      List.getElem?_eq_getElem hi, List.getD_eq_getElem?_getD, List.getElem?_eq_getElem hi]
    rfl
  · rw [if_neg hi, List.getElem?_eq_none (by omega)]

/-- Two adjacent blocks may be written one after the other. -/
theorem write_append (m : Mem) (a : Nat) (xs ys : List UInt8) :
    (m.write a xs).write (a + xs.length) ys = m.write a (xs ++ ys) := by
  funext x
  simp only [write, List.length_append, List.getD_eq_getElem?_getD, List.getElem?_append]
  by_cases hx : x < a + xs.length
  · rw [if_neg (by omega)]
    by_cases ha : a ≤ x
    · rw [if_pos ⟨ha, hx⟩, if_pos ⟨ha, by omega⟩, if_pos (by omega)]
    · rw [if_neg (by omega), if_neg (by omega)]
  · by_cases hend : x < a + xs.length + ys.length
    · rw [if_pos (by omega), if_pos (by omega), if_neg (by omega),
        show x - (a + xs.length) = x - a - xs.length by omega]
    · rw [if_neg (by omega), if_neg (by omega), if_neg (by omega)]

/-- Writes of disjoint blocks may be exchanged. -/
theorem write_comm (m : Mem) {a b : Nat} {xs ys : List UInt8} (h : Apart a xs.length b ys.length) :
    (m.write a xs).write b ys = (m.write b ys).write a xs := by
  funext x
  unfold Apart at h
  by_cases hx : a ≤ x ∧ x < a + xs.length
  · rw [write_of_outside _ b ys (by omega), write_of_inside _ a xs hx.1 hx.2,
      write_of_inside _ a xs hx.1 hx.2]
  · rw [write_of_outside _ a xs (by omega)]
    unfold write
    rw [if_neg hx]

/-- Frame: a disjoint block is unchanged by a write. -/
theorem read_write_apart (m : Mem) {a n b : Nat} {bytes : List UInt8}
    (h : Apart a n b bytes.length) : (m.write b bytes).read a n = m.read a n := by
  apply read_congr
  intro x hx hxn
  exact write_of_outside m b bytes (by unfold Apart at h; omega)

/-- A byte written behind a block extends what is read. -/
theorem read_write_snoc (m : Mem) (a n : Nat) (b : UInt8) :
    (m.write (a + n) [b]).read a (n + 1) = m.read a n ++ [b] := by
  have hlast : (m.write (a + n) [b]) (a + n) = b := by
    rw [write_of_inside m (a + n) [b] (Nat.le_refl _) (by simp)]
    simp
  rw [read_succ_last, read_write_apart m (.inl (Nat.le_refl _)), hlast]

/-- Copy the `n` bytes at address `b` of `src` to address `a`. -/
def copy (m : Mem) (a : Nat) (src : Mem) (b n : Nat) : Mem := fun x =>
  if a ≤ x ∧ x < a + n then src (b + (x - a)) else m x

theorem copy_of_outside (m : Mem) (a : Nat) (src : Mem) (b n : Nat) {x : Nat}
    (h : x < a ∨ a + n ≤ x) : m.copy a src b n x = m x := by
  unfold copy
  rw [if_neg (by omega)]

theorem copy_of_inside (m : Mem) (a : Nat) (src : Mem) (b : Nat) {n i : Nat} (h : i < n) :
    m.copy a src b n (a + i) = src (b + i) := by
  unfold copy
  rw [if_pos (by omega), Nat.add_sub_cancel_left]

theorem read_copy_same (m : Mem) (a : Nat) (src : Mem) (b n : Nat) :
    (m.copy a src b n).read a n = src.read b n :=
  read_eq_of_bytes fun _ hi => copy_of_inside m a src b hi

/-- A copy is a write of what was read. -/
theorem copy_eq_write (m : Mem) (a : Nat) (src : Mem) (b n : Nat) :
    m.copy a src b n = m.write a (src.read b n) := by
  funext x
  unfold copy write
  rw [length_read]
  split
  · rename_i hx
    rw [List.getD_eq_getElem?_getD, getElem?_read, if_pos (by omega)]
    rfl
  · rfl

end Mem

/-! ## Little-endian words -/

/-- The `n` little-endian bytes of `v`; higher bits are dropped. -/
def toLe : Nat → Nat → List UInt8
  | 0, _ => []
  | n + 1, v => UInt8.ofNat v :: toLe n (v / 256)

/-- The value of a little-endian byte list. -/
def ofLe : List UInt8 → Nat
  | [] => 0
  | b :: bs => b.toNat + 256 * ofLe bs

@[simp] theorem length_toLe (n v : Nat) : (toLe n v).length = n := by
  induction n generalizing v with
  | zero => rfl
  | succ n ih => simp [toLe, ih]

theorem ofLe_lt (bs : List UInt8) : ofLe bs < 256 ^ bs.length := by
  induction bs with
  | nil => simp [ofLe]
  | cons b bs ih =>
      have hb : b.toNat < 256 := b.toNat_lt
      rw [ofLe, List.length_cons, Nat.pow_succ]
      omega

theorem ofLe_toLe (n v : Nat) : ofLe (toLe n v) = v % 256 ^ n := by
  induction n generalizing v with
  | zero => simp [toLe, ofLe, Nat.mod_one]
  | succ n ih =>
      rw [toLe, ofLe, ih, UInt8.toNat_ofNat', Nat.pow_succ' (n := n), Nat.mod_mul]

theorem ofLe_toLe_of_lt {n v : Nat} (h : v < 256 ^ n) : ofLe (toLe n v) = v := by
  rw [ofLe_toLe, Nat.mod_eq_of_lt h]

namespace Mem

/-- The `n`-byte word at address `a`. -/
def load (m : Mem) (a n : Nat) : Nat := ofLe (m.read a n)

/-- Store `v` as an `n`-byte word at address `a`. -/
def store (m : Mem) (a n v : Nat) : Mem := m.write a (toLe n v)

theorem load_lt (m : Mem) (a n : Nat) : m.load a n < 256 ^ n := by
  simpa [load] using ofLe_lt (m.read a n)

theorem load_store_same (m : Mem) (a : Nat) {n v : Nat} (h : v < 256 ^ n) :
    (m.store a n v).load a n = v := by
  have hread := read_write_same m a (toLe n v)
  rw [length_toLe] at hread
  rw [load, store, hread, ofLe_toLe_of_lt h]

theorem store_of_outside (m : Mem) (a n v : Nat) {x : Nat} (h : x < a ∨ a + n ≤ x) :
    m.store a n v x = m x :=
  write_of_outside m a _ (by simpa using h)

theorem read_store_apart (m : Mem) {a n b k v : Nat} (h : Apart a n b k) :
    (m.store b k v).read a n = m.read a n :=
  read_write_apart m (by simpa using h)

theorem load_store_apart (m : Mem) {a n b k v : Nat} (h : Apart a n b k) :
    (m.store b k v).load a n = m.load a n := by
  rw [load, read_store_apart m h, load]

theorem load_write_apart (m : Mem) {a n b : Nat} {bytes : List UInt8}
    (h : Apart a n b bytes.length) : (m.write b bytes).load a n = m.load a n := by
  rw [load, read_write_apart m h, load]

theorem load_congr {m m' : Mem} {a n : Nat} (h : ∀ x, a ≤ x → x < a + n → m' x = m x) :
    m'.load a n = m.load a n := by
  rw [load, read_congr h, load]

end Mem

end EmbeddedMx.Lib
