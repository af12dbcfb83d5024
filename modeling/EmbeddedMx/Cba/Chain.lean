import Mathlib.Data.List.Basic
import Mathlib.Data.List.Forall2
import Mathlib.Data.List.TakeWhile
import EmbeddedMx.Lib.Ring
import EmbeddedMx.Cba.Model

/-!
# The header chain

`CbaInv h bs` ties the three indices of the allocator to the chain `bs` of
chunks whose headers stand in the raw pool: the chunks form a `RingLayout` from
`tail_idx` to `free_idx`, the newest one stands at `head_idx`, the oldest one
is bound, and every header carries the recorded length and bound bit.

Both operations have one specification each: `cbaMalloc_inv` (what a call does
to the chain is `mallocBlocks`) and `cbaFree_inv` (`releaseBlocks`). Both write
nothing but chunk headers (`cbaMalloc_frame`, `cbaFree_frame`).
-/

namespace EmbeddedMx

open EmbeddedMx.Lib

/-- The address `cba_malloc` returned for a chunk. -/
def Cba.chunk (c : Cba) (b : Block) : Nat := c.buffer + b.idx + cbaHeaderLen

/-- The header at address `hd` records the block `b`. -/
structure HeaderOk (m : Mem) (hd : Nat) (b : Block) : Prop where
  bound : headerBound m hd = b.bound.toNat
  len : headerChunkLen m hd = b.len

/-- The allocator's state describes the chain `bs`, oldest chunk first. -/
structure CbaInv (h : Heap) (bs : List Block) : Prop where
  size_lt : h.cba.size < 2 ^ 16
  ring : RingLayout cbaHeaderLen h.cba.size h.cba.tailIdx bs h.cba.freeIdx
  head : ∀ b, bs.getLast? = some b → h.cba.headIdx = b.idx
  empty : bs = [] → h.cba.headIdx = 0 ∧ h.cba.tailIdx = 0
  oldest : ∀ b, bs.head? = some b → b.bound = true
  headers : ∀ b ∈ bs, HeaderOk h.mem (h.cba.buffer + b.idx) b

theorem cbaHeaderLen_pos : 0 < cbaHeaderLen := by decide

theorem Cba.chunk_ne_zero (c : Cba) (b : Block) : c.chunk b ≠ 0 :=
  Nat.ne_of_gt (Nat.add_pos_right _ cbaHeaderLen_pos)

theorem HeaderOk.congr {m m' : Mem} {hd : Nat} {b : Block} (h : HeaderOk m hd b)
    (hm : ∀ x, hd ≤ x → x < hd + cbaHeaderLen → m' x = m x) : HeaderOk m' hd b := by
  have hbits := headerBits_congr hm
  exact ⟨by rw [headerBound, hbits]; exact h.bound,
    by rw [headerChunkLen, hbits]; exact h.len⟩

/-- The initial allocator has an empty chain. -/
theorem cbaInit_inv (m : Mem) (buffer : Nat) {len : Nat} (hlen : len < 2 ^ 16) :
    CbaInv (cbaInit m buffer len) [] where
  size_lt := hlen
  ring := .straight rfl (.inl rfl)
  head := by simp
  empty := fun _ => ⟨rfl, rfl⟩
  oldest := by simp
  headers := by simp

/-- With an empty chain all three indices are zero. -/
theorem CbaInv.freeIdx_of_nil {h : Heap} (hinv : CbaInv h []) :
    h.cba.freeIdx = 0 ∧ h.cba.headIdx = 0 ∧ h.cba.tailIdx = 0 := by
  obtain ⟨hhead, htail⟩ := hinv.empty rfl
  have heq := hinv.ring.nil_eq
  exact ⟨by omega, hhead, htail⟩

theorem u16Sub_eq {a b : Nat} (hab : b ≤ a) (ha : a < 2 ^ 16) : u16Sub a b = a - b := by
  unfold u16Sub
  omega

/-- Unless the aligned length wraps to zero, a chunk is as long as requested. -/
theorem le_cbaChunkLen {len : Nat} (h : len ≤ 65532) : len ≤ cbaChunkLen len := by
  unfold cbaChunkLen cbaMinChunkLen cbaAlignment u16
  simp only
  split <;> split <;> omega

/-! ## Where `cba_malloc` puts a chunk -/

/-- The three outcomes of the space tests of `cba_allocate_chunk`. -/
inductive Placement
  | refuse
  | atFree
  | wrap
deriving DecidableEq, Repr

/-- The space tests of `cba_allocate_chunk`, called at `free_idx`. -/
def cbaPlacement (h : Heap) (len : Nat) : Placement :=
  let need := cbaChunkLen len + cbaHeaderLen
  if h.cba.freeIdx < h.cba.tailIdx then
    if need < u16Sub h.cba.tailIdx h.cba.freeIdx then .atFree else .refuse
  else if need < u16Sub h.cba.size h.cba.freeIdx then .atFree
  else if 0 < h.cba.tailIdx then
    if need < h.cba.tailIdx then .wrap else .refuse
  else .refuse

/-- The length the newest chunk is stretched to before wrapping. -/
def cbaStretchLen (h : Heap) : Nat := u16Sub h.cba.size (h.cba.headIdx + cbaHeaderLen)

/-- `cba_malloc` by outcome of its space tests. -/
theorem cbaMalloc_eq (h : Heap) (len : Nat) :
    cbaMalloc h len =
      match cbaPlacement h len with
      | .refuse => (h, 0)
      | .atFree => cbaReallocateChunk h h.cba.freeIdx (cbaChunkLen len)
      | .wrap =>
          let h := (cbaReallocateChunk h h.cba.headIdx (cbaStretchLen h)).1
          cbaReallocateChunk h h.cba.freeIdx (cbaChunkLen len) := by
  unfold cbaMalloc cbaAllocateChunk cbaPlacement cbaStretchLen
  by_cases hwrapped : h.cba.freeIdx < h.cba.tailIdx
  · by_cases hfit : cbaChunkLen len + cbaHeaderLen < u16Sub h.cba.tailIdx h.cba.freeIdx <;>
      simp [hwrapped, hfit]
  · by_cases hfit : cbaChunkLen len + cbaHeaderLen < u16Sub h.cba.size h.cba.freeIdx
    · simp [hwrapped, hfit]
    · by_cases htail : 0 < h.cba.tailIdx
      · by_cases hwrap : cbaChunkLen len + cbaHeaderLen < h.cba.tailIdx <;>
          simp [hwrapped, hfit, htail, hwrap]
      · simp [hwrapped, hfit, htail]

/-- Every length the call records in a header fits the twelve bits of
`chunk_len`. -/
def CbaFits (h : Heap) (len : Nat) : Prop :=
  match cbaPlacement h len with
  | .refuse => True
  | .atFree => cbaChunkLen len < 2 ^ 12
  | .wrap => cbaChunkLen len < 2 ^ 12 ∧ cbaStretchLen h < 2 ^ 12

instance (h : Heap) (len : Nat) : Decidable (CbaFits h len) := by
  unfold CbaFits
  cases cbaPlacement h len <;> infer_instance

/-- The chain with its newest chunk stretched to the end of the pool; the wrap
step rewrites that header as bound. -/
def stretchLast (size : Nat) : List Block → List Block
  | [] => []
  | [b] => [⟨b.idx, size - (b.idx + cbaHeaderLen), true⟩]
  | b :: c :: bs => b :: stretchLast size (c :: bs)

/-- What `cba_malloc` does to the chain. -/
def mallocBlocks (h : Heap) (len : Nat) (bs : List Block) : List Block :=
  match cbaPlacement h len with
  | .refuse => bs
  | .atFree => bs ++ [⟨h.cba.freeIdx, cbaChunkLen len, true⟩]
  | .wrap => stretchLast h.cba.size bs ++ [⟨0, cbaChunkLen len, true⟩]

theorem stretchLast_concat (size : Nat) (bs : List Block) (b : Block) :
    stretchLast size (bs ++ [b]) = bs ++ [⟨b.idx, size - (b.idx + cbaHeaderLen), true⟩] := by
  induction bs with
  | nil => rfl
  | cons c bs ih =>
      cases bs with
      | nil => rfl
      | cons d bs =>
          rw [List.cons_append, List.cons_append, stretchLast, ← List.cons_append, ih]
          rfl

/-- There is room for a body of `len` bytes behind a header at `idx`, before the tail or
before the end of the pool. -/
structure RoomAt (c : Cba) (idx len : Nat) : Prop where
  wrapped : idx < c.tailIdx → idx + cbaHeaderLen + len < c.tailIdx
  straight : c.tailIdx ≤ idx → idx + cbaHeaderLen + len < c.size

theorem CbaInv.idx_le {h : Heap} {bs : List Block} (hinv : CbaInv h bs) :
    h.cba.tailIdx ≤ h.cba.size ∧ h.cba.freeIdx ≤ h.cba.size := by
  by_cases hnil : bs = []
  · subst hnil
    have := hinv.freeIdx_of_nil
    omega
  · have := hinv.ring.start_lt cbaHeaderLen_pos hnil
    have := hinv.ring.stop_lt cbaHeaderLen_pos hnil
    omega

theorem RoomAt.lt_size {h : Heap} {bs : List Block} {idx len : Nat}
    (hroom : RoomAt h.cba idx len) (hinv : CbaInv h bs) :
    idx + cbaHeaderLen + len < h.cba.size := by
  have htail := hinv.idx_le.1
  have hwrapped := hroom.wrapped
  have hstraight := hroom.straight
  omega

/-- A chunk placed at `free_idx` fits before the tail or the end of the pool. -/
theorem CbaInv.atFree_room {h : Heap} {bs : List Block} {len : Nat} (hinv : CbaInv h bs)
    (hp : cbaPlacement h len = .atFree) : RoomAt h.cba h.cba.freeIdx (cbaChunkLen len) := by
  have hsize := hinv.size_lt
  have hbounds := hinv.idx_le
  unfold cbaPlacement at hp
  simp only at hp
  split at hp
  · rename_i hlt
    rw [u16Sub_eq (by omega) (by omega)] at hp
    split at hp
    · exact ⟨fun _ => by omega, fun _ => by omega⟩
    · cases hp
  · rename_i hlt
    rw [u16Sub_eq (by omega) (by omega)] at hp
    split at hp
    · exact ⟨fun _ => by omega, fun _ => by omega⟩
    · split at hp
      · split at hp <;> cases hp
      · cases hp

/-- A wrapping call finds the chain straight, non-empty and off the start of
the pool. -/
theorem CbaInv.wrap_room {h : Heap} {bs : List Block} {len : Nat} (hinv : CbaInv h bs)
    (hp : cbaPlacement h len = .wrap) :
    h.cba.tailIdx ≤ h.cba.freeIdx ∧ cbaHeaderLen + cbaChunkLen len < h.cba.tailIdx ∧
      ∃ init last, bs = init ++ [last] ∧ h.cba.headIdx = last.idx ∧
        last.stop cbaHeaderLen = h.cba.freeIdx ∧ h.cba.freeIdx < h.cba.size ∧
        cbaStretchLen h = h.cba.size - (last.idx + cbaHeaderLen) := by
  unfold cbaPlacement at hp
  simp only at hp
  split at hp
  · split at hp <;> cases hp
  · rename_i hle
    split at hp
    · cases hp
    · split at hp
      · rename_i htail
        split at hp
        · rename_i hfit
          obtain rfl | ⟨init, last, rfl⟩ := List.eq_nil_or_concat' bs
          · have := (hinv.empty rfl).2
            omega
          · have hhead := hinv.head last (by simp)
            obtain ⟨hseg, hlt⟩ := hinv.ring.seg_of_le (by omega)
            obtain ⟨k, _, _, hstop⟩ := seg_append.mp hseg
            have hstop' : last.stop cbaHeaderLen = h.cba.freeIdx := hstop
            have hfree := hlt.resolve_left (by simp)
            refine ⟨by omega, by omega, init, last, rfl, hhead, hstop', hfree, ?_⟩
            have hsize := hinv.size_lt
            unfold Block.stop at hstop'
            rw [cbaStretchLen, hhead, u16Sub_eq (by omega) hsize]
        · cases hp
      · cases hp

/-! ## `cba_malloc` on the chain -/

theorem headerOk_writeHeader (m : Mem) (hd i : Nat) {len : Nat} (hlen : len < 2 ^ 12) :
    HeaderOk (writeHeader m hd len) hd ⟨i, len, true⟩ :=
  ⟨headerBound_writeHeader m hd len,
    (headerChunkLen_writeHeader m hd len).trans (Nat.mod_eq_of_lt hlen)⟩

theorem HeaderOk.writeHeader {m : Mem} {hd hd' len : Nat} {b : Block} (h : HeaderOk m hd b)
    (hsep : hd + cbaHeaderLen ≤ hd' ∨ hd' + cbaHeaderLen ≤ hd) :
    HeaderOk (writeHeader m hd' len) hd b :=
  h.congr fun x hx hxn => writeHeader_of_outside m hd' len (by omega)

/-- The state after a call that places the chunk at `free_idx`. -/
theorem cbaMalloc_atFree {h : Heap} {bs : List Block} {len : Nat} (hinv : CbaInv h bs)
    (hp : cbaPlacement h len = .atFree) (hfit : cbaChunkLen len < 2 ^ 12) :
    cbaMalloc h len =
      ({ cba := { h.cba with
           headIdx := h.cba.freeIdx
           freeIdx := h.cba.freeIdx + cbaHeaderLen + cbaChunkLen len }
         mem := writeHeader h.mem (h.cba.buffer + h.cba.freeIdx) (cbaChunkLen len) },
       h.cba.buffer + h.cba.freeIdx + cbaHeaderLen) := by
  have hroom := (hinv.atFree_room hp).lt_size hinv
  rw [cbaMalloc_eq, hp, cbaReallocateChunk_eq, Nat.mod_eq_of_lt hfit,
    Nat.mod_eq_of_lt hroom]

/-- The state after a wrapping call. -/
theorem cbaMalloc_wrap {h : Heap} {bs : List Block} {len : Nat} (hinv : CbaInv h bs)
    (hp : cbaPlacement h len = .wrap) (hfit : cbaChunkLen len < 2 ^ 12)
    (hstretch : cbaStretchLen h < 2 ^ 12) :
    cbaMalloc h len =
      ({ cba := { h.cba with headIdx := 0, freeIdx := cbaHeaderLen + cbaChunkLen len }
         mem := writeHeader
           (writeHeader h.mem (h.cba.buffer + h.cba.headIdx) (cbaStretchLen h))
           h.cba.buffer (cbaChunkLen len) },
       h.cba.buffer + cbaHeaderLen) := by
  obtain ⟨htail, hroom, init, last, rfl, hhead, hstop, hfree, hlen⟩ := hinv.wrap_room hp
  unfold Block.stop at hstop
  have hend : h.cba.headIdx + cbaHeaderLen + cbaStretchLen h = h.cba.size := by omega
  -- the first chunk ends at the end of the buffer
  have hstretched := cbaReallocateChunk_eq h h.cba.headIdx (cbaStretchLen h)
  rw [Nat.mod_eq_of_lt hstretch, hend, Nat.mod_self] at hstretched
  rw [cbaMalloc_eq, hp]
  dsimp only
  rw [hstretched, cbaReallocateChunk_eq]
  dsimp only
  rw [Nat.mod_eq_of_lt hfit, Nat.zero_add, Nat.mod_eq_of_lt (by omega), Nat.add_zero]

/-- A call that finds no room changes nothing and returns `NULL`. -/
theorem cbaMalloc_refuse {h : Heap} {len : Nat} (hp : cbaPlacement h len = .refuse) :
    cbaMalloc h len = (h, 0) := by
  rw [cbaMalloc_eq, hp]

/-- The oldest chunk is bound also after a bound chunk was appended. -/
theorem oldest_concat {init : List Block} {last : Block}
    (hinit : ∀ b, init.head? = some b → b.bound = true) (hlast : last.bound = true) :
    ∀ b, (init ++ [last]).head? = some b → b.bound = true := by
  intro b hb
  cases init with
  | nil =>
      simp only [List.nil_append, List.head?_cons, Option.some.injEq] at hb
      rw [← hb]
      exact hlast
  | cons c init => exact hinit b (by simpa using hb)

theorem CbaInv.oldest_init {h : Heap} {init rest : List Block} (hinv : CbaInv h (init ++ rest)) :
    ∀ b, init.head? = some b → b.bound = true :=
  fun b hb => hinv.oldest b (by rw [List.head?_append, hb]; rfl)

/-- Writing the header of a chunk for which there is room at `free_idx` keeps the chain. -/
theorem CbaInv.place_atFree {h : Heap} {bs : List Block} {len : Nat} (hinv : CbaInv h bs)
    (hroom : RoomAt h.cba h.cba.freeIdx len) (hfit : len < 2 ^ 12) :
    CbaInv
      { cba := { h.cba with
          headIdx := h.cba.freeIdx
          freeIdx := h.cba.freeIdx + cbaHeaderLen + len }
        mem := writeHeader h.mem (h.cba.buffer + h.cba.freeIdx) len }
      (bs ++ [⟨h.cba.freeIdx, len, true⟩]) := by
  have hring : RingLayout cbaHeaderLen h.cba.size h.cba.tailIdx
      (bs ++ [⟨h.cba.freeIdx, len, true⟩]) (h.cba.freeIdx + cbaHeaderLen + len) := by
    rcases Nat.lt_or_ge h.cba.freeIdx h.cba.tailIdx with hlt | hle
    · exact hinv.ring.push_wrapped true hlt (hroom.wrapped hlt)
    · exact hinv.ring.push_straight true hle (hroom.straight hle)
  refine ⟨hinv.size_lt, hring, by simp, by simp, oldest_concat hinv.oldest rfl, fun b hb => ?_⟩
  rcases List.mem_append.mp hb with hold | hnew
  · -- an old header: disjoint from the new one by the ring layout
    have hsep : b.idx ≠ h.cba.freeIdx ∧ (b.stop cbaHeaderLen ≤ h.cba.freeIdx ∨
        h.cba.freeIdx + cbaHeaderLen + len ≤ b.idx) := by
      have hpw := List.pairwise_append.mp hring.pairwise
      have hdis := hpw.2.2 b hold _ (List.mem_singleton.mpr rfl)
      have := cbaHeaderLen_pos
      unfold Block.stop at hdis ⊢
      simp only at hdis
      omega
    unfold Block.stop at hsep
    exact (hinv.headers b hold).writeHeader (by omega)
  · rw [List.mem_singleton.mp hnew]
    exact headerOk_writeHeader _ _ _ hfit

/-- The chain invariant is kept when the chunk goes to `free_idx`. -/
theorem CbaInv.malloc_atFree {h : Heap} {bs : List Block} {len : Nat} (hinv : CbaInv h bs)
    (hp : cbaPlacement h len = .atFree) (hfit : cbaChunkLen len < 2 ^ 12) :
    CbaInv (cbaMalloc h len).1 (bs ++ [⟨h.cba.freeIdx, cbaChunkLen len, true⟩]) := by
  rw [cbaMalloc_atFree hinv hp hfit]
  exact hinv.place_atFree (hinv.atFree_room hp) hfit

/-- Writing the headers of the newest chunk, stretched to the end of the pool, and of a chunk
for which there is room at the start keeps the chain. -/
theorem CbaInv.place_wrap {h : Heap} {init : List Block} {last : Block} {len : Nat}
    (hinv : CbaInv h (init ++ [last])) (htail : h.cba.tailIdx ≤ h.cba.freeIdx)
    (hroom : cbaHeaderLen + len < h.cba.tailIdx) (hfit : len < 2 ^ 12)
    (hstretch : h.cba.size - (last.idx + cbaHeaderLen) < 2 ^ 12) :
    CbaInv
      { cba := { h.cba with headIdx := 0, freeIdx := cbaHeaderLen + len }
        mem := writeHeader (writeHeader h.mem (h.cba.buffer + last.idx)
          (h.cba.size - (last.idx + cbaHeaderLen))) h.cba.buffer len }
      (init ++ [⟨last.idx, h.cba.size - (last.idx + cbaHeaderLen), true⟩] ++ [⟨0, len, true⟩]) := by
  have hring := hinv.ring.push_wrap true true htail hroom
  refine ⟨hinv.size_lt, hring, by simp, by simp,
    oldest_concat (oldest_concat hinv.oldest_init rfl) rfl, fun b hb => ?_⟩
  rw [List.append_assoc] at hb hring
  have hpw := List.pairwise_append.mp hring.pairwise
  unfold Block.stop at hpw
  simp only [List.mem_append, List.cons_append, List.nil_append,
    List.mem_cons, List.not_mem_nil, or_false] at hb hpw
  rcases hb with hold | hlast | hnew
  · -- neither of the two written headers
    have h1 := hpw.2.2 b hold _ (.inl rfl)
    have h2 := hpw.2.2 b hold _ (.inr rfl)
    simp only at h1 h2
    have hok := hinv.headers b (List.mem_append_left _ hold)
    have := cbaHeaderLen_pos
    exact (hok.writeHeader (by omega)).writeHeader (by omega)
  · -- the stretched chunk lies behind the one placed at the start
    rw [hlast]
    exact (headerOk_writeHeader _ _ _ hstretch).writeHeader (by
      have hseg := (hinv.ring.seg_of_le htail).1
      have := (hseg.mem_bounds last (by simp)).1
      omega)
  · rw [hnew]
    exact headerOk_writeHeader _ _ _ hfit

/-- The chain invariant is kept when the call wraps. -/
theorem CbaInv.malloc_wrap {h : Heap} {bs : List Block} {len : Nat} (hinv : CbaInv h bs)
    (hp : cbaPlacement h len = .wrap) (hfit : cbaChunkLen len < 2 ^ 12)
    (hstretch : cbaStretchLen h < 2 ^ 12) :
    CbaInv (cbaMalloc h len).1
      (stretchLast h.cba.size bs ++ [⟨0, cbaChunkLen len, true⟩]) := by
  obtain ⟨htail, hroom, init, last, rfl, hhead, hstop, hfree, hlen⟩ := hinv.wrap_room hp
  rw [cbaMalloc_wrap hinv hp hfit hstretch, stretchLast_concat, hhead, hlen]
  exact hinv.place_wrap htail hroom hfit (hlen ▸ hstretch)

/-- **`cba_malloc` keeps the chain.** -/
theorem cbaMalloc_inv {h : Heap} {bs : List Block} {len : Nat} (hinv : CbaInv h bs)
    (hfits : CbaFits h len) : CbaInv (cbaMalloc h len).1 (mallocBlocks h len bs) := by
  unfold CbaFits at hfits
  unfold mallocBlocks
  cases hp : cbaPlacement h len with
  | refuse =>
      rw [cbaMalloc_refuse hp]
      exact hinv
  | atFree =>
      rw [hp] at hfits
      exact hinv.malloc_atFree hp hfits
  | wrap =>
      rw [hp] at hfits
      exact hinv.malloc_wrap hp hfits.1 hfits.2

/-! ## What a call leaves alone -/

/-- The two memories differ in headers of the chain `bs` only. -/
def HeaderFrame (c : Cba) (bs : List Block) (m m' : Mem) : Prop :=
  ∀ x, (∀ b ∈ bs, x < c.buffer + b.idx ∨ c.buffer + b.idx + cbaHeaderLen ≤ x) → m' x = m x

/-- Chunk bodies are not headers. -/
theorem HeaderFrame.body {h : Heap} {bs : List Block} {m m' : Mem}
    (hf : HeaderFrame h.cba bs m m')
    (hring : RingLayout cbaHeaderLen h.cba.size h.cba.tailIdx bs h.cba.freeIdx) {b : Block}
    (hb : b ∈ bs) {x : Nat} (hx : h.cba.chunk b ≤ x) (hxn : x < h.cba.chunk b + b.len) :
    m' x = m x := by
  apply hf
  intro c hc
  have hdis := hring.eq_or_disjoint hb hc
  unfold Cba.chunk at hx hxn
  unfold Block.stop at hdis
  rcases hdis with rfl | hdis
  · exact .inr hx
  · omega

/-- Memory outside the pool is not touched. -/
theorem HeaderFrame.outside {h : Heap} {bs : List Block} {m m' : Mem}
    (hf : HeaderFrame h.cba bs m m')
    (hring : RingLayout cbaHeaderLen h.cba.size h.cba.tailIdx bs h.cba.freeIdx) {x : Nat}
    (hx : x < h.cba.buffer ∨ h.cba.buffer + h.cba.size ≤ x) : m' x = m x := by
  apply hf
  intro c hc
  have := hring.mem_bounds c hc
  unfold Block.stop at this
  omega

/-- `old` is the chain `bs` after a call: the same headers, no body shorter, no
chunk unbound. -/
def Grown (bs old : List Block) : Prop :=
  List.Forall₂ (fun b c => c.idx = b.idx ∧ b.len ≤ c.len ∧ (b.bound = true → c.bound = true))
    bs old

theorem Grown.refl (bs : List Block) : Grown bs bs :=
  List.forall₂_same.mpr fun _ _ => ⟨rfl, Nat.le_refl _, id⟩

theorem Grown.concat {bs old : List Block} (hg : Grown bs old) {b c : Block}
    (hidx : c.idx = b.idx) (hlen : b.len ≤ c.len) (hbound : b.bound = true → c.bound = true) :
    Grown (bs ++ [b]) (old ++ [c]) := by
  induction hg with
  | nil => exact .cons ⟨hidx, hlen, hbound⟩ .nil
  | cons h _ ih => exact .cons h ih

theorem Grown.exists_mem {bs old : List Block} (hg : Grown bs old) {b : Block} (hb : b ∈ bs) :
    ∃ c ∈ old, c.idx = b.idx ∧ b.len ≤ c.len ∧ (b.bound = true → c.bound = true) := by
  induction hg with
  | nil => exact absurd hb (by simp)
  | cons hbc _ ih =>
      rcases List.mem_cons.mp hb with rfl | hb
      · exact ⟨_, List.mem_cons_self, hbc⟩
      · obtain ⟨c, hc, h⟩ := ih hb
        exact ⟨c, List.mem_cons_of_mem _ hc, h⟩

/-- **What a call of `cba_malloc` can do**: refuse without effect, or append
one bound chunk of the aligned length and return its address. -/
theorem cbaMalloc_cases {h : Heap} {bs : List Block} {len : Nat} (hinv : CbaInv h bs)
    (hfits : CbaFits h len) :
    (cbaMalloc h len = (h, 0) ∧ mallocBlocks h len bs = bs) ∨
    ∃ old i, mallocBlocks h len bs = old ++ [⟨i, cbaChunkLen len, true⟩] ∧ Grown bs old ∧
      (cbaMalloc h len).2 = h.cba.buffer + i + cbaHeaderLen ∧
      (cbaMalloc h len).1.cba.buffer = h.cba.buffer ∧
      (cbaMalloc h len).1.cba.size = h.cba.size ∧
      HeaderFrame h.cba (old ++ [⟨i, cbaChunkLen len, true⟩]) h.mem (cbaMalloc h len).1.mem := by
  unfold CbaFits at hfits
  unfold mallocBlocks
  cases hp : cbaPlacement h len with
  | refuse => exact .inl ⟨cbaMalloc_refuse hp, rfl⟩
  | atFree =>
      rw [hp] at hfits
      rw [cbaMalloc_atFree hinv hp hfits]
      refine .inr ⟨bs, _, rfl, .refl bs, rfl, rfl, rfl, ?_⟩
      intro x hx
      exact writeHeader_of_outside _ _ _
        (hx ⟨h.cba.freeIdx, cbaChunkLen len, true⟩ (List.mem_append_right _ (by simp)))
  | wrap =>
      rw [hp] at hfits
      obtain ⟨_, _, init, last, rfl, hhead, hstop, hfree, hlen⟩ := hinv.wrap_room hp
      rw [cbaMalloc_wrap hinv hp hfits.1 hfits.2]
      unfold Block.stop at hstop
      refine .inr ⟨_, 0, rfl, ?_, rfl, rfl, rfl, ?_⟩
      · rw [stretchLast_concat]
        exact (Grown.refl init).concat rfl (by simp only; omega) fun _ => rfl
      · rw [stretchLast_concat]
        intro x hx
        have h0 := hx ⟨0, cbaChunkLen len, true⟩ (by simp)
        have h1 := hx ⟨last.idx, h.cba.size - (last.idx + cbaHeaderLen), true⟩ (by simp)
        rw [Nat.add_zero] at h0
        show writeHeader _ _ _ x = h.mem x
        rw [writeHeader_of_outside _ _ _ h0, hhead, writeHeader_of_outside _ _ _ h1]

/-- No byte of the body of an allocated chunk is changed by `cba_malloc`. -/
theorem cbaMalloc_body {h : Heap} {bs : List Block} {len : Nat} (hinv : CbaInv h bs)
    (hfits : CbaFits h len) {b : Block} (hb : b ∈ bs) {x : Nat} (hx : h.cba.chunk b ≤ x)
    (hxn : x < h.cba.chunk b + b.len) : (cbaMalloc h len).1.mem x = h.mem x := by
  have hinv' := cbaMalloc_inv hinv hfits
  rcases cbaMalloc_cases hinv hfits with ⟨heq, _⟩ | ⟨old, i, hbs, hg, _, hbuf, _, hframe⟩
  · rw [heq]
  · rw [hbs] at hinv'
    obtain ⟨c, hc, hidx, hle, _⟩ := hg.exists_mem hb
    rw [← show (cbaMalloc h len).1.cba.chunk c = h.cba.chunk b by
      rw [Cba.chunk, Cba.chunk, hbuf, hidx]] at hx hxn
    refine HeaderFrame.body (h := (cbaMalloc h len).1) ?_ hinv'.ring
      (List.mem_append_left _ hc) hx (by omega)
    unfold HeaderFrame at hframe ⊢
    rw [hbuf]
    exact hframe

/-! ## `cba_free` on the chain -/

/-- What `cba_free` does to the chain: unbind the chunk, then drop the unbound
chunks at the tail. -/
def releaseBlocks (idx : Nat) (bs : List Block) : List Block :=
  (bs.map (Block.unbindAt idx)).dropWhile fun b => !b.bound

/-- The loop of `cba_free` moves the tail over the unbound chunks in front of
it and ends there, within any bound above the number of chunks. -/
theorem cbaFreeLoop_spec {turns : Nat} {h : Heap} {bs : List Block}
    (hring : RingLayout cbaHeaderLen h.cba.size h.cba.tailIdx bs h.cba.freeIdx)
    (hheaders : ∀ b ∈ bs, HeaderOk h.mem (h.cba.buffer + b.idx) b)
    (hturns : bs.length < turns) :
    ∃ tail, cbaFreeLoop turns h h.cba.tailIdx =
        { h with cba := { h.cba with tailIdx := tail } } ∧
      RingLayout cbaHeaderLen h.cba.size tail (bs.dropWhile fun b => !b.bound) h.cba.freeIdx := by
  induction turns generalizing h bs with
  | zero => omega
  | succ turns ih =>
      cases bs with
      | nil =>
          refine ⟨h.cba.tailIdx, ?_, hring⟩
          rw [cbaFreeLoop, if_pos hring.nil_eq]
      | cons b bs =>
          have hne := hring.start_ne_stop cbaHeaderLen_pos (by simp)
          have hidx := hring.head_idx
          have hok := hheaders b List.mem_cons_self
          rw [hidx] at hok
          rw [cbaFreeLoop, if_neg hne, hok.bound]
          cases hbound : b.bound with
          | true =>
              refine ⟨h.cba.tailIdx, ?_, ?_⟩
              · rw [if_pos (by rfl)]
              · simpa [List.dropWhile, hbound] using hring
          | false =>
              have hnext : cbaNextChunkIdx h h.cba.tailIdx =
                  b.stop cbaHeaderLen % h.cba.size := by
                rw [cbaNextChunkIdx, hok.len, Block.stop, hidx]
              obtain ⟨tail, heq, hring'⟩ := ih
                (h := { h with cba := { h.cba with
                  tailIdx := b.stop cbaHeaderLen % h.cba.size } })
                (hring.pop cbaHeaderLen_pos)
                (fun c hc => hheaders c (List.mem_cons_of_mem _ hc)) (by simpa using hturns)
              refine ⟨tail, ?_, ?_⟩
              · rw [if_neg (by decide), hnext]
                exact heq
              · simpa [List.dropWhile, hbound] using hring'

theorem releaseBlocks_oldest {idx : Nat} {bs : List Block} :
    ∀ b, (releaseBlocks idx bs).head? = some b → b.bound = true := by
  intro b hb
  have h := List.head?_dropWhile_not (fun b : Block => !b.bound) (bs.map (Block.unbindAt idx))
  unfold releaseBlocks at hb
  rw [hb] at h
  simpa using h

theorem releaseBlocks_mem {idx : Nat} {bs : List Block} {c : Block}
    (hc : c ∈ releaseBlocks idx bs) : ∃ b ∈ bs, c = b.unbindAt idx := by
  have := (List.dropWhile_suffix _).subset hc
  obtain ⟨b, hb, rfl⟩ := List.mem_map.mp this
  exact ⟨b, hb, rfl⟩

/-- A bound chunk other than the freed one stays in the chain. -/
theorem mem_releaseBlocks {idx : Nat} {bs : List Block} {b : Block} (hb : b ∈ bs)
    (hbound : b.bound = true) (hidx : b.idx ≠ idx) : b ∈ releaseBlocks idx bs := by
  have hsame : b.unbindAt idx = b := if_neg hidx
  have hmem : b ∈ bs.map (Block.unbindAt idx) := List.mem_map.mpr ⟨b, hb, hsame⟩
  rw [← List.takeWhile_append_dropWhile (p := fun b : Block => !b.bound)
    (l := bs.map (Block.unbindAt idx))] at hmem
  rcases List.mem_append.mp hmem with htake | hdrop
  · have := List.mem_takeWhile_imp htake
    simp [hbound] at this
  · exact hdrop

theorem HeaderOk.unbind {m : Mem} {buffer idx : Nat} {b : Block}
    (h : HeaderOk m (buffer + b.idx) b)
    (hsep : b.idx = idx ∨ b.idx + cbaHeaderLen ≤ idx ∨ idx + cbaHeaderLen ≤ b.idx) :
    HeaderOk (setHeaderBound m (buffer + idx) 0) (buffer + b.idx) (b.unbindAt idx) := by
  by_cases heq : b.idx = idx
  · subst heq
    refine ⟨?_, ?_⟩
    · simp [Block.unbindAt]
    · simpa using h.len
  · have hsame : b.unbindAt idx = b := if_neg heq
    rw [hsame]
    refine h.congr fun x hx hxn => setHeaderBound_of_outside m _ _ ?_
    omega

theorem cbaChunkIdx_chunk {h : Heap} {bs : List Block} (hinv : CbaInv h bs) {b : Block}
    (hb : b ∈ bs) : cbaChunkIdx h (h.cba.chunk b) = b.idx := by
  have hbound := hinv.ring.mem_bounds b hb
  have hsize := hinv.size_lt
  unfold Block.stop at hbound
  unfold cbaChunkIdx Cba.chunk u16
  omega

theorem cbaFreeLoop_mem (turns : Nat) (h : Heap) (idx : Nat) :
    (cbaFreeLoop turns h idx).mem = h.mem := by
  induction turns generalizing h idx with
  | zero => rfl
  | succ turns ih =>
      unfold cbaFreeLoop
      split
      · rfl
      · split
        · rfl
        · exact ih _ _

/-- `cba_free` writes the bound bit of the freed chunk. -/
theorem cbaFree_mem {h : Heap} {bs : List Block} (hinv : CbaInv h bs) {b : Block} (hb : b ∈ bs) :
    (cbaFree h (h.cba.chunk b)).mem = setHeaderBound h.mem (h.cba.buffer + b.idx) 0 := by
  unfold cbaFree
  rw [if_neg (h.cba.chunk_ne_zero b)]
  simp only [cbaChunkIdx_chunk hinv hb]
  split
  · split <;> exact cbaFreeLoop_mem _ _ _
  · rfl

/-- The headers after the bound bit of a chunk has been cleared. -/
theorem CbaInv.unbind_headers {h : Heap} {bs : List Block} (hinv : CbaInv h bs) {b : Block}
    (hb : b ∈ bs) : ∀ c ∈ bs.map (Block.unbindAt b.idx),
      HeaderOk (setHeaderBound h.mem (h.cba.buffer + b.idx) 0) (h.cba.buffer + c.idx) c := by
  intro c hc
  obtain ⟨a, ha, rfl⟩ := List.mem_map.mp hc
  rw [Block.unbindAt_idx]
  refine (hinv.headers a ha).unbind ?_
  rcases hinv.ring.eq_or_disjoint ha hb with rfl | hdis
  · exact .inl rfl
  · unfold Block.stop at hdis
    omega

/-- **`cba_free` keeps the chain** and writes the header of the freed chunk only. -/
theorem cbaFree_inv {h : Heap} {bs : List Block} (hinv : CbaInv h bs) {b : Block} (hb : b ∈ bs) :
    CbaInv (cbaFree h (h.cba.chunk b)) (releaseBlocks b.idx bs) ∧
      (cbaFree h (h.cba.chunk b)).cba.buffer = h.cba.buffer ∧
      (cbaFree h (h.cba.chunk b)).cba.size = h.cba.size ∧
      HeaderFrame h.cba bs h.mem (cbaFree h (h.cba.chunk b)).mem := by
  have hpos := cbaHeaderLen_pos
  -- the chain after clearing the bound bit
  have hring : RingLayout cbaHeaderLen h.cba.size h.cba.tailIdx (bs.map (Block.unbindAt b.idx))
      h.cba.freeIdx := hinv.ring.map _ (by simp)
  have hheaders := hinv.unbind_headers hb
  have hhead : ∀ c, (releaseBlocks b.idx bs).getLast? = some c → h.cba.headIdx = c.idx := by
    intro c hc
    have hne : releaseBlocks b.idx bs ≠ [] := by
      intro hnil
      rw [hnil] at hc
      cases hc
    have hsuf : releaseBlocks b.idx bs <:+ bs.map (Block.unbindAt b.idx) :=
      List.dropWhile_suffix _
    have hlast := hsuf.getLast hne
    rw [List.getLast?_eq_some_getLast hne, Option.some.injEq] at hc
    rw [← hc, hlast, List.getLast_map, Block.unbindAt_idx]
    exact hinv.head _ (List.getLast?_eq_some_getLast (by
      rintro rfl
      cases hb))
  have hsub : ∀ c ∈ releaseBlocks b.idx bs, c ∈ bs.map (Block.unbindAt b.idx) :=
    fun c hc => (List.dropWhile_suffix _).subset hc
  have hmem : HeaderFrame h.cba bs h.mem (setHeaderBound h.mem (h.cba.buffer + b.idx) 0) :=
    fun x hx => setHeaderBound_of_outside _ _ _ (hx b hb)
  unfold cbaFree
  rw [if_neg (h.cba.chunk_ne_zero b)]
  simp only [cbaChunkIdx_chunk hinv hb]
  by_cases htail : b.idx = h.cba.tailIdx
  · -- the freed chunk was the oldest: the loop reclaims the unbound prefix
    have hlen : (bs.map (Block.unbindAt b.idx)).length < h.cba.size + 1 := by
      have := hinv.ring.length_le hpos
      simp only [List.length_map]
      omega
    obtain ⟨tail, heq, hring'⟩ := cbaFreeLoop_spec
      (h := { h with mem := setHeaderBound h.mem (h.cba.buffer + b.idx) 0 })
      hring hheaders hlen
    simp only at heq hring'
    rw [← htail] at heq
    rw [if_pos htail]
    simp only [heq]
    by_cases hend : tail = h.cba.freeIdx
    · -- the whole chain was unbound
      rw [if_pos hend]
      have hnil : releaseBlocks b.idx bs = [] := by
        by_contra hne
        exact hring'.start_ne_stop hpos hne hend
      rw [hnil]
      exact ⟨⟨hinv.size_lt, .straight rfl (.inl rfl), by simp, fun _ => ⟨rfl, rfl⟩, by simp,
        by simp⟩, rfl, rfl, hmem⟩
    · rw [if_neg hend]
      refine ⟨⟨hinv.size_lt, hring', hhead, ?_, releaseBlocks_oldest,
        fun c hc => hheaders c (hsub c hc)⟩, rfl, rfl, hmem⟩
      intro hnil
      rw [show (bs.map (Block.unbindAt b.idx)).dropWhile (fun b => !b.bound) = [] from
        hnil] at hring'
      exact absurd hring'.nil_eq hend
  · -- an inner chunk: the oldest one is still bound, nothing is reclaimed
    rw [if_neg htail]
    have hkeep : releaseBlocks b.idx bs = bs.map (Block.unbindAt b.idx) := by
      cases bs with
      | nil => cases hb
      | cons c bs =>
          have hc := hinv.oldest c rfl
          have hne : c.idx ≠ b.idx := fun heq => htail (heq ▸ hinv.ring.head_idx)
          simp [releaseBlocks, Block.unbindAt, hne, hc]
    refine ⟨⟨hinv.size_lt, ?_, hhead, ?_, releaseBlocks_oldest,
      fun c hc => hheaders c (hsub c hc)⟩, rfl, rfl, hmem⟩
    · rw [hkeep]
      exact hring
    · intro hnil
      rw [hkeep, List.map_eq_nil_iff] at hnil
      rw [hnil] at hb
      cases hb

end EmbeddedMx
