import EmbeddedMx.Cba.Isolation

/-!
# `cba_realloc`

The build with `CBA_REALLOC`. A chunk that is large enough is kept; of the others only the
newest one may grow. `cba_allocate_chunk` is called at `head_idx`, as if the newest chunk
were not there: it grows in place, or it is stretched to the end of the pool, a chunk is
placed at the start, the content is moved and the stretched chunk is freed
(`CbaInv.allocate_head`).

Whatever happens, the chain afterwards holds one chunk in the place of the given one and all
other bound chunks as they were (`Reallocated`, `cbaRealloc_cases`).
-/

namespace EmbeddedMx

open EmbeddedMx.Lib

/-- Reallocate existing memory chunk. -/
def cbaRealloc (h : Heap) (chunk len : Nat) : Heap × Nat :=
  if chunk = 0 then (h, 0)
  else
    let idx := cbaChunkIdx h chunk
    let hd := h.cba.buffer + idx
    -- allocated chunk is big enough
    if headerChunkLen h.mem hd > len then (h, chunk)
    -- only last allocated chunk may be reallocated
    else if idx ≠ h.cba.headIdx then (h, 0)
    else
      let prevLen := headerChunkLen h.mem hd
      let (h, newChunk) := cbaAllocateChunk h h.cba.headIdx len
      if newChunk ≠ 0 ∧ newChunk ≠ hd + cbaHeaderLen then
        -- new chunk allocated, relocation needed
        let h := { h with mem := h.mem.copy newChunk h.mem (hd + cbaHeaderLen) prevLen }
        (cbaFree h (hd + cbaHeaderLen), newChunk)
      else (h, newChunk)

/-- What users of this build can do. -/
inductive ReallocOp
  | base (op : CbaOp)
  | realloc (chunk len : Nat)
deriving DecidableEq, Repr

/-- The user holds the chunk `cba_realloc` returned in the place of the old one, and still
the old one if it is `NULL`. -/
def CbaWorld.realloc (w : CbaWorld) (chunk len : Nat) : CbaWorld :=
  let r := cbaRealloc w.heap chunk len
  { heap := r.1, live := if r.2 = 0 then w.live else r.2 :: w.live.erase chunk }

/-- Only chunks that are held may be reallocated. -/
inductive ReallocStep : CbaWorld → ReallocOp → CbaWorld → Prop
  | base {w op w'} : CbaStep w op w' → ReallocStep w (.base op) w'
  | realloc {w chunk len} : chunk ∈ w.live → len < 2 ^ 16 →
      ReallocStep w (.realloc chunk len) (w.realloc chunk len)

/-- The runs of an allocator with `cba_realloc` over a pool of `size` bytes. -/
def reallocSystem (size : Nat) : TSys CbaWorld ReallocOp where
  init w := ∃ m buffer, w = ⟨cbaInit m buffer size, []⟩
  step := ReallocStep

/-- A run without `cba_realloc` is a run of this build. -/
theorem reallocSystem_of_cba {size : Nat} {w : CbaWorld} (hw : (cbaSystem size).Reachable w) :
    (reallocSystem size).Reachable w := by
  induction hw with
  | init hinit => exact .init hinit
  | step _ hstep ih => exact .step ih (.base hstep)

/-! ## `cba_allocate_chunk` called at `head_idx` -/

section Newest

variable {h : Heap} {init : List Block} {b : Block} {len : Nat}

/-- The free space begins behind the newest chunk. -/
theorem CbaInv.newest_bounds (hinv : CbaInv h (init ++ [b])) :
    h.cba.freeIdx = b.stop cbaHeaderLen ∧ h.cba.freeIdx < h.cba.size ∧
      h.cba.tailIdx < h.cba.size := by
  have hne : init ++ [b] ≠ [] := by simp
  exact ⟨hinv.ring.stop_last, hinv.ring.stop_lt cbaHeaderLen_pos hne,
    hinv.ring.start_lt cbaHeaderLen_pos hne⟩

/-- The three ends of the call: the newest chunk grows in place, the call goes on as
`cba_malloc` does when it wraps, or it is refused. -/
theorem CbaInv.allocate_head (hinv : CbaInv h (init ++ [b])) (len : Nat) :
    cbaAllocateChunk h b.idx len = (h, 0) ∨
    (RoomAt h.cba b.idx (cbaChunkLen len) ∧
      cbaAllocateChunk h b.idx len = cbaReallocateChunk h b.idx (cbaChunkLen len)) ∨
    (h.cba.size ≤ b.idx + cbaHeaderLen + cbaChunkLen len ∧ cbaPlacement h len = .wrap ∧
      cbaAllocateChunk h b.idx len = cbaMalloc h len) := by
  obtain ⟨hfree, hlt, htail⟩ := hinv.newest_bounds
  have hsize := hinv.size_lt
  unfold Block.stop at hfree
  by_cases hwrapped : b.idx < h.cba.tailIdx
  · unfold cbaAllocateChunk
    simp only [hwrapped, if_true]
    rw [u16Sub_eq (by omega) (by omega)]
    by_cases hfit : cbaChunkLen len + cbaHeaderLen < h.cba.tailIdx - b.idx
    · rw [if_pos hfit]
      exact .inr (.inl ⟨⟨fun _ => by omega, fun _ => by omega⟩, rfl⟩)
    · rw [if_neg hfit]
      exact .inl rfl
  · have hbehind : ¬h.cba.freeIdx < h.cba.tailIdx := by omega
    by_cases hfit : cbaChunkLen len + cbaHeaderLen < u16Sub h.cba.size b.idx
    · right
      left
      unfold cbaAllocateChunk
      simp only [hwrapped, hfit, if_true, if_false]
      rw [u16Sub_eq (by omega) (by omega)] at hfit
      exact ⟨⟨fun _ => by omega, fun _ => by omega⟩, trivial⟩
    · -- what does not fit at the head does not fit behind the newest chunk either
      have hfit' : ¬cbaChunkLen len + cbaHeaderLen < u16Sub h.cba.size h.cba.freeIdx := by
        rw [u16Sub_eq (by omega) (by omega)] at hfit ⊢
        omega
      by_cases hwrap : 0 < h.cba.tailIdx ∧ cbaChunkLen len + cbaHeaderLen < h.cba.tailIdx
      · right
        right
        rw [u16Sub_eq (by omega) (by omega)] at hfit
        refine ⟨by omega, ?_, ?_⟩
        · simp [cbaPlacement, hbehind, hfit', hwrap]
        · unfold cbaMalloc cbaAllocateChunk
          simp only [hwrapped, hbehind, hfit', if_false]
          rw [if_neg (by rw [u16Sub_eq (by omega) (by omega)]; exact hfit)]
      · left
        unfold cbaAllocateChunk
        simp only [hwrapped, hfit, if_false]
        by_cases hpos : 0 < h.cba.tailIdx
        · rw [if_pos hpos, if_neg fun hroom => hwrap ⟨hpos, hroom⟩]
        · rw [if_neg hpos]

/-- Growing the newest chunk in place keeps the chain. -/
theorem CbaInv.grow (hinv : CbaInv h (init ++ [b])) (hroom : RoomAt h.cba b.idx len)
    (hfit : len < 2 ^ 12) :
    CbaInv (cbaReallocateChunk h b.idx len).1 (init ++ [⟨b.idx, len, true⟩]) := by
  rw [cbaReallocateChunk_eq, Nat.mod_eq_of_lt hfit, Nat.mod_eq_of_lt (hroom.lt_size hinv)]
  refine ⟨hinv.size_lt, hinv.ring.resize_last true hroom.wrapped hroom.straight, by simp, by simp,
    oldest_concat hinv.oldest_init rfl, fun c hc => ?_⟩
  rcases List.mem_append.mp hc with hold | hnew
  · have hpw := List.pairwise_append.mp hinv.ring.pairwise
    have hdis := hpw.2.2 c hold b (List.mem_singleton.mpr rfl)
    unfold Block.stop at hdis
    exact (hinv.headers c (List.mem_append_left _ hold)).writeHeader (by omega)
  · rw [List.mem_singleton.mp hnew]
    exact headerOk_writeHeader _ _ _ hfit

end Newest

/-! ## What a call of `cba_realloc` does -/

/-- The call left `b'` in the place of the bound chunk `b`, with the old content, and all
other bound chunks as they were. -/
structure Reallocated (h h' : Heap) (bs bs' : List Block) (b b' : Block) : Prop where
  inv : CbaInv h' bs'
  buffer : h'.cba.buffer = h.cba.buffer
  size : h'.cba.size = h.cba.size
  mem : b' ∈ bs'
  bound : b'.bound = true
  content : ∀ i, i < b.len → i < b'.len →
    h'.mem (h.cba.chunk b' + i) = h.mem (h.cba.chunk b + i)
  others : ∀ c ∈ bs, c.bound = true → c ≠ b → c ∈ bs' ∧ c ≠ b'
  bodies : ∀ c ∈ bs, c ≠ b → ∀ i < c.len, h'.mem (h.cba.chunk c + i) = h.mem (h.cba.chunk c + i)
  released : b'.idx ≠ b.idx → headerBound h'.mem (h.cba.buffer + b.idx) = 0

section Outcomes

variable {h : Heap} {bs : List Block} {b : Block} {len : Nat}

/-- A chunk that is large enough is kept. -/
theorem Reallocated.kept (hinv : CbaInv h bs) (hb : b ∈ bs) (hbound : b.bound = true) :
    Reallocated h h bs bs b b where
  inv := hinv
  buffer := rfl
  size := rfl
  mem := hb
  bound := hbound
  content _ _ _ := rfl
  others _ hc _ hne := ⟨hc, hne⟩
  bodies _ _ _ _ _ := rfl
  released hne := absurd rfl hne

theorem CbaInv.apart (hinv : CbaInv h bs) {c : Block} (hb : b ∈ bs) (hc : c ∈ bs) (hne : b ≠ c) :
    b.idx + cbaHeaderLen + b.len ≤ c.idx ∨ c.idx + cbaHeaderLen + c.len ≤ b.idx := by
  have hdis := (hinv.ring.eq_or_disjoint hb hc).resolve_left hne
  unfold Block.stop at hdis
  exact hdis

/-- The newest chunk grew in place. -/
theorem Reallocated.grown {init : List Block} (hinv : CbaInv h (init ++ [b]))
    (hroom : RoomAt h.cba b.idx len) (hfit : len < 2 ^ 12) :
    Reallocated h (cbaReallocateChunk h b.idx len).1 (init ++ [b])
      (init ++ [⟨b.idx, len, true⟩]) b ⟨b.idx, len, true⟩ := by
  have hinv' := hinv.grow hroom hfit
  have hlast : b ∈ init ++ [b] := by simp
  rw [cbaReallocateChunk_eq] at hinv' ⊢
  refine ⟨hinv', rfl, rfl, by simp, rfl, ?_, ?_, ?_, fun hne => absurd rfl hne⟩
  · intro i _ _
    show writeHeader h.mem (h.cba.buffer + b.idx) len (h.cba.chunk b + i) = _
    apply writeHeader_of_outside
    unfold Cba.chunk
    omega
  · intro c hc hbound hne
    rcases List.mem_append.mp hc with hold | hnew
    · refine ⟨List.mem_append_left _ hold, fun heq => ?_⟩
      have hsep := hinv.apart hc hlast hne
      have hidx : c.idx = b.idx := by rw [heq]
      have := cbaHeaderLen_pos
      omega
    · exact absurd (List.mem_singleton.mp hnew) hne
  · intro c hc hne i hi
    have hsep := hinv.apart hc hlast hne
    apply writeHeader_of_outside
    unfold Cba.chunk
    omega

/-- The header of the freed chunk stays behind, unbound. -/
theorem cbaFree_unbinds (hinv : CbaInv h bs) (hb : b ∈ bs) :
    headerBound (cbaFree h (h.cba.chunk b)).mem (h.cba.buffer + b.idx) = 0 := by
  rw [cbaFree_mem hinv hb]
  exact headerBound_setHeaderBound _ _ _

/-- The wrap step stretches the newest chunk to the end of the pool and places a chunk at the
start, before all others; it changes no body. -/
theorem CbaInv.wrapped {init : List Block} (hinv : CbaInv h (init ++ [b]))
    (hp : cbaPlacement h len = .wrap) (hfits : CbaFits h len) {h₁ : Heap}
    (hh₁ : h₁ = (cbaMalloc h len).1) :
    h₁.cba.buffer = h.cba.buffer ∧ h₁.cba.size = h.cba.size ∧
    (∀ c ∈ init ++ [b], ∀ i < c.len, h₁.mem (h.cba.chunk c + i) = h.mem (h.cba.chunk c + i)) ∧
    ∃ sb, sb.idx = b.idx ∧ CbaInv h₁ (init ++ [sb] ++ [⟨0, cbaChunkLen len, true⟩]) ∧
      ∀ c ∈ init ++ [sb], cbaHeaderLen + cbaChunkLen len ≤ c.idx := by
  have hboth : cbaChunkLen len < 2 ^ 12 ∧ cbaStretchLen h < 2 ^ 12 := by
    unfold CbaFits at hfits
    rwa [hp] at hfits
  have hinv₁ := hinv.malloc_wrap hp hboth.1 hboth.2
  rw [stretchLast_concat, ← hh₁] at hinv₁
  have hcba : h₁.cba.buffer = h.cba.buffer ∧ h₁.cba.size = h.cba.size := by
    rw [hh₁, cbaMalloc_wrap hinv hp hboth.1 hboth.2]
    exact ⟨rfl, rfl⟩
  refine ⟨hcba.1, hcba.2, ?_, ⟨b.idx, h.cba.size - (b.idx + cbaHeaderLen), true⟩, rfl, hinv₁, ?_⟩
  · intro c hc i hi
    rw [hh₁]
    exact cbaMalloc_body hinv hfits hc (by omega) (by omega)
  · intro c hc
    have hdis := (List.pairwise_append.mp hinv₁.ring.pairwise).2.2 c hc _
      (List.mem_singleton_self _)
    have hpos := cbaHeaderLen_pos
    unfold Block.stop at hdis
    simp only [Nat.zero_add] at hdis
    omega

/-- The newest chunk was stretched to the end of the pool, its content moved to a new chunk
at the start, and the stretched chunk was freed. -/
theorem Reallocated.moved {init : List Block} (hinv : CbaInv h (init ++ [b]))
    (hp : cbaPlacement h len = .wrap) (hfits : CbaFits h len) (hlong : b.len ≤ cbaChunkLen len)
    {h₁ h₂ : Heap} (hh₁ : h₁ = (cbaMalloc h len).1)
    (hh₂ : h₂ = { h₁ with
      mem := h₁.mem.copy (h.cba.buffer + cbaHeaderLen) h₁.mem (h.cba.chunk b) b.len }) :
    ∃ bs', Reallocated h (cbaFree h₂ (h.cba.chunk b)) (init ++ [b]) bs' b
      ⟨0, cbaChunkLen len, true⟩ := by
  have hlast : b ∈ init ++ [b] := by simp
  obtain ⟨hbuffer, hsize, hbody, sb, hidx, hinv₁, hbehind⟩ := hinv.wrapped hp hfits hh₁
  obtain ⟨nb, hnb⟩ : ∃ nb : Block, nb = ⟨0, cbaChunkLen len, true⟩ := ⟨_, rfl⟩
  have hchunk : h₁.cba.chunk nb = h.cba.buffer + cbaHeaderLen := by
    rw [Cba.chunk, hbuffer, hnb, Nat.add_zero]
  rw [← hnb] at hinv₁ ⊢
  have hcba₂ : h₂.cba = h₁.cba := by rw [hh₂]
  have hmem₂ : h₂.mem = h₁.mem.copy (h.cba.buffer + cbaHeaderLen) h₁.mem (h.cba.chunk b) b.len := by
    rw [hh₂]
  have hchunk₂ : ∀ c, h₂.cba.chunk c = h.cba.chunk c := fun c => by
    rw [Cba.chunk, Cba.chunk, hcba₂, hbuffer]
  -- the content is copied into the body of the new chunk
  have hinv₂ : CbaInv h₂ (init ++ [sb] ++ [nb]) := by
    have hfit : 0 + (h₁.mem.read (h.cba.chunk b) b.len).length ≤ nb.len := by
      rw [Mem.length_read, Nat.zero_add, hnb]
      exact hlong
    have hwrite := hinv₁.write_body (b := nb) (by simp) hfit
    rw [hh₂, Mem.copy_eq_write]
    rwa [hchunk, Nat.add_zero] at hwrite
  -- the old chunk is freed
  have hsb : h₂.cba.chunk sb = h.cba.chunk b := by
    rw [hchunk₂, Cba.chunk, Cba.chunk, hidx]
  obtain ⟨hinv₃, hbuffer₃, hsize₃, hframe⟩ := cbaFree_inv hinv₂ (b := sb) (by simp)
  have hreleased := cbaFree_unbinds hinv₂ (b := sb) (by simp)
  rw [hsb] at hinv₃ hbuffer₃ hsize₃ hframe hreleased
  have hbody₃ : ∀ c ∈ init ++ [sb] ++ [nb], ∀ i < c.len,
      (cbaFree h₂ (h.cba.chunk b)).mem (h.cba.chunk c + i) = h₂.mem (h.cba.chunk c + i) :=
    fun c hc i hi => hframe.body hinv₂.ring hc (by rw [hchunk₂]; omega) (by rw [hchunk₂]; omega)
  have hother : ∀ c ∈ init ++ [b], c ≠ b →
      c ∈ init ++ [sb] ++ [nb] ∧ c.idx ≠ b.idx ∧ nb.stop cbaHeaderLen ≤ c.idx := by
    intro c hc hne
    have hold : c ∈ init :=
      (List.mem_append.mp hc).resolve_right fun hnew => hne (List.mem_singleton.mp hnew)
    have hstart := hbehind c (by simp [hold])
    refine ⟨by simp [hold], fun heq => hne ?_, ?_⟩
    · exact hinv.ring.idx_inj cbaHeaderLen_pos hc hlast heq
    · rw [hnb, Block.stop, Nat.zero_add]
      exact hstart
  have hpos := cbaHeaderLen_pos
  refine ⟨_, hinv₃, ?_, ?_, ?_, by rw [hnb], ?_, ?_, ?_, ?_⟩
  · rw [hbuffer₃, hcba₂, hbuffer]
  · rw [hsize₃, hcba₂, hsize]
  · have hstart := hbehind sb (by simp)
    exact mem_releaseBlocks (by simp) (by rw [hnb]) (by rw [hnb]; show 0 ≠ sb.idx; omega)
  · intro i hi hin
    have hdest : h.cba.chunk nb = h.cba.buffer + cbaHeaderLen := by
      rw [Cba.chunk, hnb, Nat.add_zero]
    rw [hbody₃ nb (by simp) i hin, hmem₂, hdest, Mem.copy_of_inside _ _ _ _ hi]
    exact hbody b hlast i hi
  · intro c hc hbound hne
    obtain ⟨hmem, hcidx, hstart⟩ := hother c hc hne
    refine ⟨mem_releaseBlocks hmem hbound (by rwa [hidx]), fun heq => ?_⟩
    rw [heq, Block.stop] at hstart
    omega
  · intro c hc hne i hi
    obtain ⟨hmem, _, hstart⟩ := hother c hc hne
    rw [hnb, Block.stop] at hstart
    rw [hbody₃ c hmem i hi, hmem₂, Mem.copy_of_outside]
    · exact hbody c hc i hi
    · right
      unfold Cba.chunk
      simp only at hstart
      omega
  · intro _
    rwa [hcba₂, hbuffer, hidx] at hreleased

/-- **What a call of `cba_realloc` can do**: refuse without effect, or leave one bound chunk
in the place of the given one. -/
theorem cbaRealloc_cases (hinv : CbaInv h bs) (hsize : h.cba.size ≤ 4099) (hb : b ∈ bs)
    (hbound : b.bound = true) (len : Nat) :
    cbaRealloc h (h.cba.chunk b) len = (h, 0) ∨
    ∃ bs' b', Reallocated h (cbaRealloc h (h.cba.chunk b) len).1 bs bs' b b' ∧
      (cbaRealloc h (h.cba.chunk b) len).2 = h.cba.chunk b' ∧
      (len < b'.len ∨ b'.len = cbaChunkLen len) := by
  have hpos := cbaHeaderLen_pos
  have haddr : h.cba.buffer + b.idx + cbaHeaderLen = h.cba.chunk b := rfl
  unfold cbaRealloc
  rw [if_neg (h.cba.chunk_ne_zero b)]
  simp only [cbaChunkIdx_chunk hinv hb, (hinv.headers b hb).len]
  by_cases hlarge : b.len > len
  · rw [if_pos hlarge]
    exact .inr ⟨bs, b, .kept hinv hb hbound, rfl, .inl hlarge⟩
  rw [if_neg hlarge]
  by_cases hhead : b.idx = h.cba.headIdx
  swap
  · rw [if_pos hhead]
    exact .inl rfl
  rw [if_neg (not_not.mpr hhead), ← hhead]
  -- the chunk at `head_idx` is the newest one
  obtain ⟨init, rfl⟩ : ∃ init, bs = init ++ [b] := by
    have hne := List.ne_nil_of_mem hb
    have hlast := hinv.head _ (List.getLast?_eq_some_getLast hne)
    refine ⟨bs.dropLast, ?_⟩
    rw [hinv.ring.idx_inj hpos hb (List.getLast_mem hne) (hhead.trans hlast),
      List.dropLast_concat_getLast]
  rcases hinv.allocate_head len with heq | ⟨hroom, heq⟩ | ⟨hfull, hp, heq⟩
  · rw [heq]
    exact .inl rfl
  · have hfit : cbaChunkLen len < 2 ^ 12 := by
      have hlt := hroom.lt_size hinv
      have hlen : cbaHeaderLen = 4 := rfl
      omega
    have hsame : (cbaReallocateChunk h b.idx (cbaChunkLen len)).2 = h.cba.chunk b := rfl
    rw [heq, hsame, haddr, if_neg (by simp)]
    exact .inr ⟨_, _, .grown hinv hroom hfit, hsame, .inr rfl⟩
  · have hfits := hinv.fits_of_size hsize len
    have hlong : b.len ≤ cbaChunkLen len := by
      obtain ⟨hfree, hlt, _⟩ := hinv.newest_bounds
      unfold Block.stop at hfree
      omega
    obtain ⟨hbuffer, _, _, sb, hidx, _, hbehind⟩ := hinv.wrapped hp hfits rfl
    have hnew : (cbaMalloc h len).2 = h.cba.buffer + cbaHeaderLen := by
      unfold CbaFits at hfits
      rw [hp] at hfits
      rw [cbaMalloc_wrap hinv hp hfits.1 hfits.2]
    have hmoved : h.cba.buffer + cbaHeaderLen ≠ h.cba.chunk b := by
      have hstart := hbehind sb (by simp)
      unfold Cba.chunk
      omega
    rw [heq, hnew, haddr, if_pos ⟨by omega, hmoved⟩]
    obtain ⟨bs', hre⟩ := Reallocated.moved hinv hp hfits hlong rfl rfl
    exact .inr ⟨bs', _, hre, rfl, .inr rfl⟩

end Outcomes

theorem Reallocated.chunk_eq {h h' : Heap} {bs bs' : List Block} {b b' : Block}
    (hre : Reallocated h h' bs bs' b b') (c : Block) : h'.cba.chunk c = h.cba.chunk c := by
  rw [Cba.chunk, Cba.chunk, hre.buffer]

/-! ## Runs -/

/-- A realloc step keeps the chunks in use bound. -/
theorem CbaWorldInv.realloc {w : CbaWorld} {bs : List Block} {p : Nat} (hinv : CbaWorldInv w bs)
    (hsize : w.heap.cba.size ≤ 4099) (hp : p ∈ w.live) (len : Nat) :
    (w.realloc p len).heap.cba.size = w.heap.cba.size ∧
      ∃ bs', CbaWorldInv (w.realloc p len) bs' := by
  obtain ⟨b, hb, hbound, rfl⟩ := hinv.live p hp
  rcases cbaRealloc_cases hinv.chain hsize hb hbound len with heq | ⟨bs', b', hre, hptr, _⟩
  · simp only [CbaWorld.realloc, heq, if_true]
    exact ⟨trivial, bs, hinv⟩
  · have hne : (cbaRealloc w.heap (w.heap.cba.chunk b) len).2 ≠ 0 := by
      rw [hptr]
      exact Cba.chunk_ne_zero _ _
    -- the other chunks in use
    have hother : ∀ q ∈ w.live.erase (w.heap.cba.chunk b), ∃ c ∈ bs', c ≠ b' ∧ c.bound = true ∧
        q = w.heap.cba.chunk c := by
      intro q hq
      obtain ⟨hqne, hq⟩ := hinv.nodup.mem_erase_iff.mp hq
      obtain ⟨c, hc, hcbound, rfl⟩ := hinv.live q hq
      obtain ⟨hc', hcne⟩ := hre.others c hc hcbound fun heq => hqne (by rw [heq])
      exact ⟨c, hc', hcne, hcbound, rfl⟩
    unfold CbaWorld.realloc
    simp only [if_neg hne]
    refine ⟨hre.size, bs', hre.inv, ?_, ?_⟩
    · rw [List.nodup_cons]
      refine ⟨fun hmem => ?_, hinv.nodup.erase _⟩
      obtain ⟨c, hc, hcne, _, heq⟩ := hother _ hmem
      rw [hptr, ← hre.chunk_eq b', ← hre.chunk_eq c] at heq
      exact hcne (hre.inv.chunk_inj hc hre.mem heq.symm)
    · intro q hq
      rcases List.mem_cons.mp hq with rfl | hq
      · exact ⟨b', hre.mem, hre.bound, hptr.trans (hre.chunk_eq b').symm⟩
      · obtain ⟨c, hc, _, hcbound, rfl⟩ := hother q hq
        exact ⟨c, hc, hcbound, (hre.chunk_eq c).symm⟩

theorem reallocSystem_invariant {size : Nat} (hsize : size ≤ 4099) :
    (reallocSystem size).Invariant fun w => w.heap.cba.size = size ∧ ∃ bs, CbaWorldInv w bs := by
  apply TSys.Inductive.invariant
  constructor
  · rintro w ⟨m, buffer, rfl⟩
    exact ⟨rfl, [], cbaInit_inv m buffer (by omega), List.nodup_nil, by simp⟩
  · rintro w op w' ⟨hw, bs, hinv⟩ hstep
    cases hstep with
    | @base op _ hstep =>
        have hfits : ∀ len, op = .malloc len → CbaFits w.heap len :=
          fun len _ => hinv.chain.fits_of_size (by omega) len
        exact ⟨(CbaStep.size_eq hinv hstep hfits).trans hw, CbaStep.inv hinv hstep hfits⟩
    | @realloc _ len hp _ =>
        have hre := hinv.realloc (by omega) hp len
        exact ⟨hre.1.trans hw, hre.2⟩

/-- **Reallocation preserves data.** A call of `cba_realloc` for a live chunk returns `NULL`
and changes nothing, or it returns a chunk that is as large as requested, begins with the
old content and is disjoint from every other live chunk. No other live payload changes, and
a chunk that was moved is left unbound. -/
theorem cba_realloc_preserves {size : Nat} (hsize : size ≤ 4099) {w : CbaWorld}
    (hw : (reallocSystem size).Reachable w) {p : Nat} (hp : p ∈ w.live) {len : Nat}
    (hlen : len ≤ size) :
    let r := cbaRealloc w.heap p len
    r = (w.heap, 0) ∨
    (r.2 ≠ 0 ∧ len ≤ r.1.recordedLen r.2 ∧
      (∀ n, n = min (w.heap.recordedLen p) (r.1.recordedLen r.2) →
        r.1.mem.read r.2 n = w.heap.mem.read p n) ∧
      (∀ q ∈ w.live, q ≠ p → r.1.Disjoint r.2 q ∧
        r.1.recordedLen q = w.heap.recordedLen q ∧
        r.1.mem.read q (w.heap.recordedLen q) = w.heap.mem.read q (w.heap.recordedLen q)) ∧
      (r.2 ≠ p → headerBound r.1.mem (w.heap.cba.buffer + cbaChunkIdx w.heap p) = 0)) := by
  intro r
  obtain ⟨hwsize, bs, hinv⟩ := reallocSystem_invariant hsize w hw
  obtain ⟨b, hb, hbound, rfl⟩ := hinv.live p hp
  rcases cbaRealloc_cases hinv.chain (by omega) hb hbound len with heq | ⟨bs', b', hre, hptr, hlong⟩
  · exact .inl heq
  have hchunk : r.2 = r.1.cba.chunk b' := hptr.trans (hre.chunk_eq b').symm
  have hrecorded : r.1.recordedLen r.2 = b'.len := by
    rw [hchunk, hre.inv.recordedLen_chunk hre.mem]
  have hle : len ≤ b'.len := by
    rcases hlong with hlt | heq
    · omega
    · rw [heq]
      exact le_cbaChunkLen (by omega)
  refine .inr ⟨?_, by rwa [hrecorded], ?_, ?_, ?_⟩
  · rw [hchunk]
    exact Cba.chunk_ne_zero _ _
  · rintro n rfl
    rw [hrecorded, hinv.chain.recordedLen_chunk hb, show r.2 = w.heap.cba.chunk b' from hptr]
    exact Mem.read_eq_of_bytes fun i hi => hre.content i (by omega) (by omega)
  · intro q hq hne
    obtain ⟨c, hc, hcbound, rfl⟩ := hinv.live q hq
    obtain ⟨hc', hcne⟩ := hre.others c hc hcbound fun heq => hne (by rw [heq])
    refine ⟨?_, ?_, ?_⟩
    · rw [hchunk, ← hre.chunk_eq]
      exact hre.inv.disjoint_chunk hre.mem hc' fun heq =>
        hcne (hre.inv.chunk_inj hc' hre.mem heq.symm)
    · rw [← hre.chunk_eq, hre.inv.recordedLen_chunk hc', hre.chunk_eq,
        hinv.chain.recordedLen_chunk hc]
    · rw [hinv.chain.recordedLen_chunk hc]
      exact Mem.read_eq_of_bytes (hre.bodies c hc fun heq => hne (by rw [heq]))
  · intro hne
    rw [cbaChunkIdx_chunk hinv.chain hb]
    refine hre.released fun heq => hne ?_
    rw [show r.2 = w.heap.cba.chunk b' from hptr, Cba.chunk, Cba.chunk, heq]

/-- The newest of three chunks does not fit behind the second one any more and moves into the
room the first one left. -/
theorem cba_realloc_preserves_moved :
    let w := ((((⟨cbaInit (fun _ => 0) 16 64, []⟩ : CbaWorld).malloc 24).malloc 8).malloc 4).free 20
    let r := cbaRealloc w.heap 60 18
    r.2 = 20 ∧ 18 ≤ r.1.recordedLen r.2 ∧ r.1.mem.read r.2 4 = w.heap.mem.read 60 4 ∧
      r.1.Disjoint r.2 48 ∧
      headerBound r.1.mem (w.heap.cba.buffer + cbaChunkIdx w.heap 60) = 0 := by
  intro w r
  have h1 := cbaSystem_malloc 24 (cbaSystem_init 64 16 fun _ => 0) (by decide)
  have h2 := cbaSystem_malloc 4 (cbaSystem_malloc 8 h1 (by decide)) (by decide)
  have hw : (reallocSystem 64).Reachable w :=
    reallocSystem_of_cba (cbaSystem_free 20 h2 (by decide +kernel))
  have hmoved : r.2 = 20 := by decide +kernel
  have hre : r = (w.heap, 0) ∨ _ :=
    cba_realloc_preserves (by decide) hw (by decide +kernel) (by decide)
  obtain ⟨_, hlen, hcontent, hothers, hreleased⟩ := hre.resolve_left fun heq => by
    rw [heq] at hmoved
    cases hmoved
  exact ⟨hmoved, hlen, hcontent 4 (by decide +kernel),
    (hothers 48 (by decide +kernel) (by decide)).1, hreleased (by rw [hmoved]; decide)⟩

end EmbeddedMx
