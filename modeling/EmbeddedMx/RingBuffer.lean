import Mathlib.Data.List.Infix
import Mathlib.Data.Nat.Bitwise
import Mathlib.Tactic.IntervalCases
import EmbeddedMx.Lib.Cyclic
import EmbeddedMx.Lib.TSys

/-!
# The ring buffer (`ringbuf.c`)

One caller puts bytes, another one gets them, and nothing keeps them apart: each load
and each store of the two shared indices and of the data is a step of its own. `mask` and
`data` are only written by `ringbuf_init`, so loading them is not.

Full and empty are told apart by one free slot. With `P` bytes put and `G` bytes got so
far, the indices are `P` and `G` modulo the size, and a copy of the other side's index is
one of these numbers at an earlier moment: too much caution, but never too little.
-/

namespace EmbeddedMx

open EmbeddedMx.Lib

/-! ## The functions of `ringbuf.c` -/

/-- `struct ringbuf` with its memory. -/
structure Ringbuf where
  data : Nat → UInt8
  mask : Nat
  putPtr : Nat
  getPtr : Nat

/-- `ringbuf_init`; the size is a `uint8_t`. -/
def ringbufInit (buffer : Nat → UInt8) (size : Nat) : Ringbuf :=
  { data := buffer, mask := (size + 255) % 256, putPtr := 0, getPtr := 0 }

/-- `(put_ptr - get_ptr) & mask` -/
def ringbufUsed (mask put get : Nat) : Nat := (put + 256 - get) % 256 &&& mask

/-- `(ptr + 1) & mask` -/
def ringbufNext (mask ptr : Nat) : Nat := (ptr + 1) &&& mask

/-- `ringbuf_put` -/
def ringbufPut (self : Ringbuf) (c : UInt8) : Ringbuf × Bool :=
  if ringbufUsed self.mask self.putPtr self.getPtr = self.mask then (self, false)
  else
    let data := Function.update self.data self.putPtr c
    ({ self with data := data, putPtr := ringbufNext self.mask self.putPtr }, true)

/-- `ringbuf_get` -/
def ringbufGet (self : Ringbuf) : Ringbuf × Option UInt8 :=
  if 0 < ringbufUsed self.mask self.putPtr self.getPtr then
    ({ self with getPtr := ringbufNext self.mask self.getPtr }, some (self.data self.getPtr))
  else (self, none)

/-- `ringbuf_elements` -/
def ringbufElements (self : Ringbuf) : Nat := ringbufUsed self.mask self.putPtr self.getPtr

/-! ## Two callers -/

/-- Where the caller of `ringbuf_put` is: the access that comes next, and what it holds. -/
inductive Putter
  | idle
  | loadPut (c : UInt8)
  | loadGet (c : UInt8) (put : Nat)
  | loadIndex (c : UInt8)
  | storeData (c : UInt8) (index : Nat)
  | loadNext (c : UInt8)
  | storePut (c : UInt8) (put : Nat)
deriving DecidableEq, Repr

/-- Where the caller of `ringbuf_get` is. -/
inductive Getter
  | idle
  | loadPut
  | loadGet (put : Nat)
  | loadIndex
  | loadData (index : Nat)
  | loadNext (c : UInt8)
  | storeGet (c : UInt8) (get : Nat)
deriving DecidableEq, Repr

/-- The buffer, the two callers, the bytes of the successful puts and those returned by
the successful gets. -/
structure RingRun where
  ring : Ringbuf
  putter : Putter
  getter : Getter
  puts : List UInt8
  gets : List UInt8

/-- Whose turn it is; a put that begins is one of the byte `c`. -/
inductive RingTurn
  | put (c : UInt8)
  | get
deriving DecidableEq, Repr

/-- The next access of the caller of `ringbuf_put`. -/
def putTurn (s : RingRun) (c : UInt8) : RingRun :=
  match s.putter with
  | .idle => { s with putter := .loadPut c }
  | .loadPut c => { s with putter := .loadGet c s.ring.putPtr }
  | .loadGet c put =>
      if ringbufUsed s.ring.mask put s.ring.getPtr = s.ring.mask then { s with putter := .idle }
      else { s with putter := .loadIndex c }
  | .loadIndex c => { s with putter := .storeData c s.ring.putPtr }
  | .storeData c index =>
      { s with
        ring := { s.ring with data := Function.update s.ring.data index c }
        putter := .loadNext c }
  | .loadNext c => { s with putter := .storePut c s.ring.putPtr }
  | .storePut c put =>
      { s with
        ring := { s.ring with putPtr := ringbufNext s.ring.mask put }
        putter := .idle
        puts := s.puts ++ [c] }

/-- The next access of the caller of `ringbuf_get`. -/
def getTurn (s : RingRun) : RingRun :=
  match s.getter with
  | .idle => { s with getter := .loadPut }
  | .loadPut => { s with getter := .loadGet s.ring.putPtr }
  | .loadGet put =>
      if 0 < ringbufUsed s.ring.mask put s.ring.getPtr then { s with getter := .loadIndex }
      else { s with getter := .idle }
  | .loadIndex => { s with getter := .loadData s.ring.getPtr }
  | .loadData index => { s with getter := .loadNext (s.ring.data index) }
  | .loadNext c => { s with getter := .storeGet c s.ring.getPtr }
  | .storeGet c get =>
      { s with
        ring := { s.ring with getPtr := ringbufNext s.ring.mask get }
        getter := .idle
        gets := s.gets ++ [c] }

def ringTurn (s : RingRun) : RingTurn → RingRun
  | .put c => putTurn s c
  | .get => getTurn s

/-- The two callers before their first call, with a buffer of `size` bytes. -/
def ringStart (buffer : Nat → UInt8) (size : Nat) : RingRun :=
  { ring := ringbufInit buffer (size % 256), putter := .idle, getter := .idle, puts := [],
    gets := [] }

/-- Every interleaving of the two callers. -/
def ringSystem (size : Nat) : TSys RingRun RingTurn where
  init s := ∃ buffer, s = ringStart buffer size
  step s turn s' := s' = ringTurn s turn

/-- The places of `data` that the two callers access next. -/
def RingRun.indices (s : RingRun) : List Nat :=
  (match s.putter with
    | .storeData _ index => [index]
    | _ => []) ++
  (match s.getter with
    | .loadData index => [index]
    | _ => [])

/-- A call of `ringbuf_put` that nobody interrupts. -/
theorem putTurn_call (s : RingRun) (c : UInt8) (hidle : s.putter = .idle) :
    ∃ k, (fun s => putTurn s c)^[k] s = { s with
      ring := (ringbufPut s.ring c).1
      puts := if (ringbufPut s.ring c).2 then s.puts ++ [c] else s.puts } := by
  unfold ringbufPut
  by_cases hfull : ringbufUsed s.ring.mask s.ring.putPtr s.ring.getPtr = s.ring.mask
  · refine ⟨3, ?_⟩
    cases s
    simp_all [putTurn]
  · refine ⟨7, ?_⟩
    cases s
    simp_all [putTurn]

/-- A call of `ringbuf_get` that nobody interrupts. -/
theorem getTurn_call (s : RingRun) (hidle : s.getter = .idle) :
    ∃ k, getTurn^[k] s = { s with
      ring := (ringbufGet s.ring).1
      gets := s.gets ++ (ringbufGet s.ring).2.toList } := by
  unfold ringbufGet
  by_cases hsome : 0 < ringbufUsed s.ring.mask s.ring.putPtr s.ring.getPtr
  · refine ⟨7, ?_⟩
    cases s
    simp_all [getTurn]
  · refine ⟨3, ?_⟩
    cases s
    simp_all [getTurn]

/-! ## Indices -/

section Indices

variable {k : Nat}

/-- The mask cuts an index to the size. -/
theorem ringbufNext_mod (k p : Nat) :
    ringbufNext (2 ^ k - 1) (p % 2 ^ k) = (p + 1) % 2 ^ k := by
  unfold ringbufNext
  rw [Nat.and_two_pow_sub_one_eq_mod, Nat.mod_add_mod]

/-- The difference of the indices is the number of bytes between them. -/
theorem ringbufUsed_mod (hk : k ≤ 8) {g p : Nat} (hle : g ≤ p) (hlt : p < g + 2 ^ k) :
    ringbufUsed (2 ^ k - 1) (p % 2 ^ k) (g % 2 ^ k) = p - g := by
  have hdvd : 2 ^ k ∣ 256 := Nat.pow_dvd_pow 2 hk
  have hget : g % 2 ^ k < 2 ^ k := Nat.mod_lt _ (Nat.two_pow_pos k)
  have hsize : 2 ^ k ≤ 256 := Nat.le_of_dvd (by decide) hdvd
  unfold ringbufUsed
  rw [Nat.and_two_pow_sub_one_eq_mod, Nat.mod_mod_of_dvd _ hdvd]
  have hmod : (p % 2 ^ k + 256 - g % 2 ^ k) % 2 ^ k = (p - g) % 2 ^ k := by
    have hsum : p % 2 ^ k + 256 - g % 2 ^ k + g % 2 ^ k ≡ p - g + g % 2 ^ k [MOD 2 ^ k] :=
      calc p % 2 ^ k + 256 - g % 2 ^ k + g % 2 ^ k
          = p % 2 ^ k + 256 := Nat.sub_add_cancel (by omega)
        _ ≡ p + 0 [MOD 2 ^ k] :=
            (Nat.mod_modEq p _).add ((Nat.modEq_zero_iff_dvd).mpr hdvd)
        _ = p - g + g := by omega
        _ ≡ p - g + g % 2 ^ k [MOD 2 ^ k] := (Nat.ModEq.refl _).add (Nat.mod_modEq g _).symm
    exact Nat.ModEq.add_right_cancel' _ hsum
  rw [hmod]
  exact Nat.mod_eq_of_lt (by omega)

/-- `size - 1`, also for the size 256, which is passed as 0. -/
theorem ringbufInit_mask (buffer : Nat → UInt8) (hk : k ≤ 8) :
    (ringbufInit buffer (2 ^ k % 256)).mask = 2 ^ k - 1 := by
  show (2 ^ k % 256 + 255) % 256 = 2 ^ k - 1
  interval_cases k <;> rfl

end Indices

/-! ## The invariant -/

/-- What the caller of `ringbuf_put` holds: a copy of its own index, and, behind the test,
room for one more byte. -/
def RingRun.PutterOk (n : Nat) (s : RingRun) : Prop :=
  match s.putter with
  | .idle => True
  | .loadPut _ => True
  | .loadGet _ put => put = s.puts.length % n
  | .loadIndex _ => s.puts.length + 2 ≤ s.gets.length + n
  | .storeData _ index => s.puts.length + 2 ≤ s.gets.length + n ∧ index = s.puts.length % n
  | .loadNext c => s.puts.length + 2 ≤ s.gets.length + n ∧ s.ring.data (s.puts.length % n) = c
  | .storePut c put => s.puts.length + 2 ≤ s.gets.length + n ∧
      s.ring.data (s.puts.length % n) = c ∧ put = s.puts.length % n

/-- What the caller of `ringbuf_get` holds: an older index of the other side, and, behind
the test, a byte to get. -/
def RingRun.GetterOk (n : Nat) (s : RingRun) : Prop :=
  match s.getter with
  | .idle => True
  | .loadPut => True
  | .loadGet put => ∃ p ≤ s.puts.length, s.gets.length ≤ p ∧ put = p % n
  | .loadIndex => s.gets.length < s.puts.length
  | .loadData index => s.gets.length < s.puts.length ∧ index = s.gets.length % n
  | .loadNext c => s.puts[s.gets.length]? = some c
  | .storeGet c get => s.puts[s.gets.length]? = some c ∧ get = s.gets.length % n

/-- The state of the buffer and its callers, for the size `2 ^ k`. -/
structure RingInv (k : Nat) (s : RingRun) : Prop where
  mask : s.ring.mask = 2 ^ k - 1
  putPtr : s.ring.putPtr = s.puts.length % 2 ^ k
  getPtr : s.ring.getPtr = s.gets.length % 2 ^ k
  order : s.gets <+: s.puts
  room : s.puts.length + 1 ≤ s.gets.length + 2 ^ k
  data : Stores s.ring.data (2 ^ k) s.puts s.gets.length
  putter : s.PutterOk (2 ^ k)
  getter : s.GetterOk (2 ^ k)

section Inv

variable {k : Nat} {s : RingRun}

theorem ringStart_inv (hk : k ≤ 8) (buffer : Nat → UInt8) :
    RingInv k (ringStart buffer (2 ^ k)) where
  mask := ringbufInit_mask buffer hk
  putPtr := (Nat.zero_mod _).symm
  getPtr := (Nat.zero_mod _).symm
  order := List.prefix_refl _
  room := by
    have hpos := Nat.two_pow_pos k
    show 0 + 1 ≤ 0 + 2 ^ k
    omega
  data := .nil _ _ _
  putter := trivial
  getter := trivial

/-- The number of elements is that of the bytes put and not yet got. -/
theorem RingInv.elements (h : RingInv k s) (hk : k ≤ 8) :
    ringbufElements s.ring = s.puts.length - s.gets.length := by
  have hle := h.order.length_le
  have hroom := h.room
  unfold ringbufElements
  rw [h.mask, h.putPtr, h.getPtr]
  exact ringbufUsed_mod hk hle (by omega)

/-- What the getter knows stays true with more bytes. -/
theorem RingRun.GetterOk.mono {n : Nat} {s' : RingRun} (h : s.GetterOk n)
    (hgetter : s'.getter = s.getter) (hgets : s'.gets = s.gets) (hputs : s.puts <+: s'.puts) :
    s'.GetterOk n := by
  have hle := hputs.length_le
  have hsome : ∀ c, s.puts[s.gets.length]? = some c → s'.puts[s.gets.length]? = some c := by
    intro c hc
    obtain ⟨hlt, rfl⟩ := List.getElem?_eq_some_iff.mp hc
    exact List.prefix_iff_getElem?.mp hputs _ hlt
  unfold RingRun.GetterOk at h ⊢
  rw [hgetter, hgets]
  split at h
  · trivial
  · trivial
  · obtain ⟨p, hp, hge, heq⟩ := h
    exact ⟨p, hp.trans hle, hge, heq⟩
  · exact Nat.lt_of_lt_of_le h hle
  · exact ⟨Nat.lt_of_lt_of_le h.1 hle, h.2⟩
  · exact hsome _ h
  · exact ⟨hsome _ h.1, h.2⟩

/-- What the putter knows stays true with fewer bytes that wait. -/
theorem RingRun.PutterOk.mono {n : Nat} {s' : RingRun} (h : s.PutterOk n)
    (hputter : s'.putter = s.putter) (hputs : s'.puts = s.puts)
    (hdata : s'.ring.data = s.ring.data) (hle : s.gets.length ≤ s'.gets.length) :
    s'.PutterOk n := by
  unfold RingRun.PutterOk at h ⊢
  rw [hputter, hputs, hdata]
  split at h
  · trivial
  · trivial
  · exact h
  · show s.puts.length + 2 ≤ s'.gets.length + n
    omega
  · exact ⟨by omega, h.2⟩
  · exact ⟨by omega, h.2⟩
  · exact ⟨by omega, h.2⟩

/-- A step of the caller of `ringbuf_put`. -/
theorem RingInv.put (h : RingInv k s) (hk : k ≤ 8) (c : UInt8) : RingInv k (putTurn s c) := by
  have hle := h.order.length_le
  have hroom := h.room
  have hgetter := h.getter
  have hputter := h.putter
  unfold RingRun.PutterOk at hputter
  unfold putTurn
  split
  · exact { h with putter := trivial }
  · exact { h with putter := h.putPtr }
  · rename_i c put heq
    rw [heq] at hputter
    dsimp only at hputter
    split
    · exact { h with putter := trivial }
    · -- the copy of `put_ptr` is its own index, so the test counts the bytes
      rename_i hnot
      rw [hputter, h.mask, h.getPtr, ringbufUsed_mod hk hle (by omega)] at hnot
      refine { h with putter := ?_ }
      show s.puts.length + 2 ≤ s.gets.length + 2 ^ k
      omega
  · rename_i c heq
    rw [heq] at hputter
    exact { h with putter := ⟨hputter, h.putPtr⟩ }
  · rename_i c index heq
    rw [heq] at hputter
    obtain ⟨hfree, rfl⟩ := hputter
    -- the slot behind the bytes that wait
    exact { h with
      data := h.data.update (by omega) c
      putter := ⟨hfree, Function.update_self _ _ _⟩ }
  · rename_i c heq
    rw [heq] at hputter
    exact { h with putter := ⟨hputter.1, hputter.2, h.putPtr⟩ }
  · rename_i c put heq
    rw [heq] at hputter
    obtain ⟨hfree, hslot, rfl⟩ := hputter
    have hlen : (s.puts ++ [c]).length = s.puts.length + 1 := by simp
    refine
      { mask := h.mask
        putPtr := ?_
        getPtr := h.getPtr
        order := h.order.trans (List.prefix_append _ _)
        room := ?_
        data := h.data.snoc hslot
        putter := trivial
        getter := ?_ }
    · show ringbufNext s.ring.mask (s.puts.length % 2 ^ k) = (s.puts ++ [c]).length % 2 ^ k
      rw [h.mask, ringbufNext_mod, hlen]
    · show (s.puts ++ [c]).length + 1 ≤ s.gets.length + 2 ^ k
      omega
    · exact hgetter.mono rfl rfl (List.prefix_append _ _)

/-- A step of the caller of `ringbuf_get`. -/
theorem RingInv.get (h : RingInv k s) (hk : k ≤ 8) : RingInv k (getTurn s) := by
  have hle := h.order.length_le
  have hroom := h.room
  have hputter := h.putter
  have hgetter := h.getter
  unfold RingRun.GetterOk at hgetter
  unfold getTurn
  split
  · exact { h with getter := trivial }
  · exact { h with getter := ⟨s.puts.length, le_refl _, hle, h.putPtr⟩ }
  · rename_i put heq
    rw [heq] at hgetter
    obtain ⟨p, hp, hge, rfl⟩ := hgetter
    split
    · -- there were bytes to get at the moment of the copy, and nobody else gets them
      rename_i hsome
      rw [h.mask, h.getPtr, ringbufUsed_mod hk hge (by omega)] at hsome
      refine { h with getter := ?_ }
      show s.gets.length < s.puts.length
      omega
    · exact { h with getter := trivial }
  · rename_i heq
    rw [heq] at hgetter
    exact { h with getter := ⟨hgetter, h.getPtr⟩ }
  · rename_i index heq
    rw [heq] at hgetter
    obtain ⟨hlt, rfl⟩ := hgetter
    refine { h with getter := ?_ }
    show s.puts[s.gets.length]? = some (s.ring.data (s.gets.length % 2 ^ k))
    obtain ⟨c, hc⟩ : ∃ c, s.puts[s.gets.length]? = some c := ⟨_, List.getElem?_eq_getElem hlt⟩
    rw [h.data _ c (le_refl _) hc]
    exact hc
  · rename_i c heq
    rw [heq] at hgetter
    exact { h with getter := ⟨hgetter, h.getPtr⟩ }
  · rename_i c get heq
    rw [heq] at hgetter
    obtain ⟨hc, rfl⟩ := hgetter
    have hlen : (s.gets ++ [c]).length = s.gets.length + 1 := by simp
    refine
      { mask := h.mask
        putPtr := h.putPtr
        getPtr := ?_
        order := ?_
        room := ?_
        data := h.data.mono (hlen ▸ Nat.le_succ _)
        putter := ?_
        getter := trivial }
    · show ringbufNext s.ring.mask (s.gets.length % 2 ^ k) = (s.gets ++ [c]).length % 2 ^ k
      rw [h.mask, ringbufNext_mod, hlen]
    · -- the byte behind the prefix
      obtain ⟨hlt, rfl⟩ := List.getElem?_eq_some_iff.mp hc
      exact List.concat_get_prefix h.order hlt
    · show s.puts.length + 1 ≤ (s.gets ++ [c]).length + 2 ^ k
      omega
    · exact hputter.mono rfl rfl rfl (hlen ▸ Nat.le_succ _)

/-- No access leaves the buffer. -/
theorem RingInv.indices_lt (h : RingInv k s) : ∀ index ∈ s.indices, index < 2 ^ k := by
  have hpos := Nat.two_pow_pos k
  have hputter := h.putter
  have hgetter := h.getter
  unfold RingRun.PutterOk at hputter
  unfold RingRun.GetterOk at hgetter
  intro index hindex
  rcases List.mem_append.mp hindex with hmem | hmem
  · split at hmem
    · rename_i c i heq
      rw [heq] at hputter
      rw [List.mem_singleton.mp hmem, hputter.2]
      exact Nat.mod_lt _ hpos
    · cases hmem
  · split at hmem
    · rename_i i heq
      rw [heq] at hgetter
      rw [List.mem_singleton.mp hmem, hgetter.2]
      exact Nat.mod_lt _ hpos
    · cases hmem

theorem ring_invariant (hk : k ≤ 8) : (ringSystem (2 ^ k)).Invariant (RingInv k) := by
  apply TSys.Inductive.invariant
  constructor
  · rintro s ⟨buffer, rfl⟩
    exact ringStart_inv hk buffer
  · rintro s turn s' h rfl
    cases turn with
    | put c => exact h.put hk c
    | get => exact h.get hk

end Inv

/-- **One producer and one consumer need no lock.** For every power of two up to 256 and
every interleaving of the accesses of both sides, the bytes got are a prefix of the bytes
put, no access leaves the buffer, and at most `size - 1` bytes wait. -/
theorem ringbuf_fifo {k : Nat} (hk : k ≤ 8) {s : RingRun} (hs : (ringSystem (2 ^ k)).Reachable s) :
    s.gets <+: s.puts ∧ (∀ index ∈ s.indices, index < 2 ^ k) ∧
      s.puts.length - s.gets.length ≤ 2 ^ k - 1 ∧
      ringbufElements s.ring = s.puts.length - s.gets.length := by
  have h := ring_invariant hk s hs
  have hroom := h.room
  exact ⟨h.order, h.indices_lt, by omega, h.elements hk⟩

theorem ringSystem_foldl {size : Nat} {s : RingRun} (hs : (ringSystem size).Reachable s)
    (turns : List RingTurn) : (ringSystem size).Reachable (turns.foldl ringTurn s) := by
  induction turns generalizing s with
  | nil => exact hs
  | cons turn turns ih => exact ih (hs.step rfl)

/-- A byte is put into a buffer of two bytes; the getter has found it when the next put
begins. -/
theorem ringbuf_fifo_overlap :
    let turns : List RingTurn := List.replicate 7 (.put 7) ++ List.replicate 3 .get ++
      [.put 8, .put 8] ++ List.replicate 4 .get
    let s := turns.foldl ringTurn (ringStart (fun _ => 0) (2 ^ 1))
    s.gets = [7] ∧ s.putter = .loadGet 8 1 ∧ s.gets <+: s.puts ∧ ringbufElements s.ring = 0 := by
  intro turns s
  obtain ⟨hfifo, -, -, helements⟩ :=
    ringbuf_fifo (k := 1) (by decide) (s := s) (ringSystem_foldl (.init ⟨_, rfl⟩) _)
  exact ⟨rfl, rfl, hfifo, helements⟩

end EmbeddedMx
