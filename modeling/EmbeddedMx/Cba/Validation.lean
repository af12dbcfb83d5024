import Mathlib.Data.List.Nodup
import EmbeddedMx.Cba.Isolation

/-!
# The validating build

With `CBA_VALIDATION` every chunk ends in a marker byte behind the bytes its owner asked for,
lengths are rounded up further and the space tests leave one more byte. The allocator reports
an exception when a header it reads, or the end of a chunk it reclaims, has lost its marker.

The heap operations are those of the default build but for the marker and the lengths, so
the header chain carries over; `MarkedInv` adds that all markers are in place. The owner of a
chunk never writes its last byte, so they stay in place until the tail has passed.
-/

namespace EmbeddedMx.Validating

open EmbeddedMx.Lib

def cbaEndMarker : UInt8 := 0x00
def cbaEndMarkerLen : Nat := 1

/-- The allocator and the messages of its calls of `cba_report_exception`. -/
structure CbaState where
  heap : Heap
  reports : List String

def cbaReportException (s : CbaState) (msg : String) : CbaState :=
  { s with reports := s.reports ++ [msg] }

def cbaValidateHeadMarker (s : CbaState) (hd : Nat) : CbaState :=
  if headerMarker s.heap.mem hd ≠ cbaHeadMarker then cbaReportException s "invalid head marker"
  else s

def cbaValidateEndMarker (s : CbaState) (hd : Nat) : CbaState :=
  if s.heap.mem (hd + cbaHeaderLen + headerChunkLen s.heap.mem hd - 1) ≠ cbaEndMarker then
    cbaReportException s "invalid end marker"
  else s

/-- Calculate aligned chunk length. -/
def cbaChunkLen (len : Nat) : Nat :=
  let len := if len < cbaMinChunkLen then cbaMinChunkLen else len
  u16 ((len / cbaAlignment + 1) * cbaAlignment)

/-- Find index of the given chunk's header. -/
def cbaChunkIdx (s : CbaState) (chunk : Nat) : CbaState × Nat :=
  let hd := chunk - cbaHeaderLen
  let s := cbaValidateHeadMarker s hd
  (s, u16 (hd - s.heap.cba.buffer))

/-- Find index of the next header. -/
def cbaNextChunkIdx (s : CbaState) (idx : Nat) : CbaState × Nat :=
  let hd := s.heap.cba.buffer + idx
  let s := cbaValidateHeadMarker s hd
  (s, (idx + cbaHeaderLen + headerChunkLen s.heap.mem hd) % s.heap.cba.size)

/-- Modify or create new memory chunk; returns `header->chunk`. -/
def cbaReallocateChunk (h : Heap) (idx len : Nat) : Heap × Nat :=
  let hd := h.cba.buffer + idx
  let mem := setHeaderMarker h.mem hd cbaHeadMarker
  let mem := setHeaderBound mem hd 1
  let mem := setHeaderChunkLen mem hd len
  let mem := mem.write (hd + cbaHeaderLen + len - 1) [cbaEndMarker]
  let freeIdx := (idx + cbaHeaderLen + headerChunkLen mem hd) % h.cba.size
  ({ cba := { h.cba with headIdx := idx, freeIdx := freeIdx }, mem := mem }, hd + cbaHeaderLen)

/-- Create new memory chunk; returns `NULL` when out of memory. -/
def cbaAllocateChunk (h : Heap) (idx len : Nat) : Heap × Nat :=
  let len := cbaChunkLen len
  if idx < h.cba.tailIdx then
    let available := u16Sub h.cba.tailIdx (idx + cbaEndMarkerLen)
    if len + cbaHeaderLen < available then cbaReallocateChunk h idx len else (h, 0)
  else
    let available := u16Sub h.cba.size (idx + cbaEndMarkerLen)
    if len + cbaHeaderLen < available then cbaReallocateChunk h idx len
    else if 0 < h.cba.tailIdx then
      let available := u16Sub h.cba.tailIdx cbaEndMarkerLen
      if len + cbaHeaderLen < available then
        let freeLen := u16Sub h.cba.size (h.cba.headIdx + cbaHeaderLen)
        let h := (cbaReallocateChunk h h.cba.headIdx freeLen).1
        cbaReallocateChunk h h.cba.freeIdx len
      else (h, 0)
    else (h, 0)

/-- Allocate new memory chunk. -/
def cbaMalloc (s : CbaState) (len : Nat) : CbaState × Nat :=
  let r := cbaAllocateChunk s.heap s.heap.cba.freeIdx len
  ({ s with heap := r.1 }, r.2)

/-- The loop of `cba_free`, with a bound on the number of turns as in the default build. -/
def cbaFreeLoop : Nat → CbaState → Nat → CbaState
  | 0, s, _ => s
  | turns + 1, s, idx =>
      if idx = s.heap.cba.freeIdx then s
      else
        let hd := s.heap.cba.buffer + idx
        let s := cbaValidateHeadMarker s hd
        if headerBound s.heap.mem hd = 1 then s
        else
          let s := cbaValidateEndMarker s hd
          let (s, idx) := cbaNextChunkIdx s idx
          let cba := { s.heap.cba with tailIdx := idx }
          cbaFreeLoop turns { s with heap := { s.heap with cba := cba } } idx

/-- Free memory chunk. -/
def cbaFree (s : CbaState) (chunk : Nat) : CbaState :=
  if chunk = 0 then s
  else
    let (s, idx) := cbaChunkIdx s chunk
    let hd := s.heap.cba.buffer + idx
    let s := cbaValidateHeadMarker s hd
    let s := { s with heap := { s.heap with mem := setHeaderBound s.heap.mem hd 0 } }
    if idx = s.heap.cba.tailIdx then
      let s := cbaFreeLoop (s.heap.cba.size + 1) s idx
      if s.heap.cba.tailIdx = s.heap.cba.freeIdx then { s with heap := cbaReset s.heap } else s
    else s

/-! ## What `cba_free` does to the heap -/

@[simp] theorem cbaValidateHeadMarker_heap (s : CbaState) (hd : Nat) :
    (cbaValidateHeadMarker s hd).heap = s.heap := by
  unfold cbaValidateHeadMarker
  split <;> rfl

@[simp] theorem cbaValidateEndMarker_heap (s : CbaState) (hd : Nat) :
    (cbaValidateEndMarker s hd).heap = s.heap := by
  unfold cbaValidateEndMarker
  split <;> rfl

/-- Validation does not change where the loop goes. -/
theorem cbaFreeLoop_heap (turns : Nat) (s : CbaState) (idx : Nat) :
    (cbaFreeLoop turns s idx).heap = EmbeddedMx.cbaFreeLoop turns s.heap idx := by
  induction turns generalizing s idx with
  | zero => rfl
  | succ turns ih =>
      unfold cbaFreeLoop EmbeddedMx.cbaFreeLoop
      split
      · rfl
      · simp only [cbaValidateHeadMarker_heap]
        split
        · exact cbaValidateHeadMarker_heap _ _
        · rw [ih]
          simp [cbaNextChunkIdx, EmbeddedMx.cbaNextChunkIdx]

/-- On the heap, `cba_free` is the one of the default build. -/
theorem cbaFree_heap (s : CbaState) (chunk : Nat) :
    (cbaFree s chunk).heap = EmbeddedMx.cbaFree s.heap chunk := by
  unfold cbaFree EmbeddedMx.cbaFree
  by_cases hnull : chunk = 0
  · rw [if_pos hnull, if_pos hnull]
  · rw [if_neg hnull, if_neg hnull]
    simp only [cbaChunkIdx, EmbeddedMx.cbaChunkIdx, apply_ite CbaState.heap,
      cbaValidateHeadMarker_heap, cbaFreeLoop_heap]
    congr

/-! ## Markers -/

/-- The chunk `b` with its header at `hd` begins and ends with its marker. -/
structure Marked (m : Mem) (hd : Nat) (b : Block) : Prop where
  pos : 0 < b.len
  head : headerMarker m hd = cbaHeadMarker
  last : m (hd + cbaHeaderLen + b.len - 1) = cbaEndMarker

theorem Marked.congr {m m' : Mem} {hd : Nat} {b : Block} (h : Marked m hd b)
    (hhead : ∀ x, hd ≤ x → x < hd + 2 → m' x = m x)
    (hlast : m' (hd + cbaHeaderLen + b.len - 1) = m (hd + cbaHeaderLen + b.len - 1)) :
    Marked m' hd b :=
  ⟨h.pos, (Mem.load_congr hhead).trans h.head, hlast.trans h.last⟩

/-- Outside of the chunk memory may change. -/
theorem Marked.of_outside {m m' : Mem} {hd : Nat} {b : Block} (h : Marked m hd b)
    (hm : ∀ x, hd ≤ x → x < hd + cbaHeaderLen + b.len → m' x = m x) : Marked m' hd b := by
  have hpos := h.pos
  have hlen : cbaHeaderLen = 4 := rfl
  exact h.congr (fun x hx hxn => hm x hx (by omega)) (hm _ (by omega) (by omega))

theorem headerMarker_writeHeader (m : Mem) (hd len : Nat) :
    headerMarker (writeHeader m hd len) hd = cbaHeadMarker := by
  unfold writeHeader headerMarker setHeaderChunkLen setHeaderBound setHeaderMarker
  rw [Mem.load_store_apart _ (.inl (by omega)), Mem.load_store_apart _ (.inl (by omega)),
    Mem.load_store_same _ _ (by decide)]

/-- The header and the end marker of a fresh chunk of length `len`. -/
def writeChunk (m : Mem) (hd len : Nat) : Mem :=
  (writeHeader m hd len).write (hd + cbaHeaderLen + len - 1) [cbaEndMarker]

theorem marked_writeChunk (m : Mem) (hd i : Nat) {len : Nat} (hpos : 0 < len) :
    Marked (writeChunk m hd len) hd ⟨i, len, true⟩ where
  pos := hpos
  head := by
    have hlen : cbaHeaderLen = 4 := rfl
    rw [← headerMarker_writeHeader m hd len]
    exact Mem.load_write_apart _ (.inl (by omega))
  last := by
    unfold writeChunk
    rw [Mem.write_of_inside _ _ _ (Nat.le_refl _) (by simp), Nat.sub_self]
    rfl

/-- A fresh chunk that does not overlap `b` leaves its markers in place. -/
theorem Marked.writeChunk {m : Mem} {hd hd' len : Nat} {b : Block} (h : Marked m hd b)
    (hsep : hd + cbaHeaderLen + b.len ≤ hd' ∨ hd' + cbaHeaderLen + len ≤ hd) :
    Marked (writeChunk m hd' len) hd b := by
  have hlen : cbaHeaderLen = 4 := rfl
  refine h.of_outside fun x hx hxn => ?_
  unfold Validating.writeChunk
  rw [Mem.write_of_outside, writeHeader_of_outside]
  · omega
  · rw [List.length_singleton]
    omega

/-- What stands outside of a header may be written before or after it. -/
theorem writeHeader_write (m : Mem) {hd len a : Nat} {bytes : List UInt8}
    (h : Apart a bytes.length hd cbaHeaderLen) :
    writeHeader (m.write a bytes) hd len = (writeHeader m hd len).write a bytes := by
  have hlen : cbaHeaderLen = 4 := rfl
  unfold Apart at h
  have hstore : ∀ (m : Mem) (b v : Nat), b = hd ∨ b = hd + 2 →
      (m.write a bytes).store b 2 v = (m.store b 2 v).write a bytes := by
    intro m b v hb
    refine Mem.write_comm m ?_
    rw [length_toLe]
    unfold Apart
    omega
  have hbits : ∀ m : Mem, headerBits (m.write a bytes) hd = headerBits m hd := fun m =>
    Mem.load_write_apart m (by unfold Apart; omega)
  unfold writeHeader setHeaderChunkLen setHeaderBound setHeaderMarker
  rw [hstore m _ _ (.inl rfl), hbits, hstore _ _ _ (.inr rfl), hbits, hstore _ _ _ (.inr rfl)]

theorem cbaReallocateChunk_eq (h : Heap) (idx : Nat) {len : Nat} (hpos : 0 < len)
    (hfit : len < 2 ^ 12) :
    cbaReallocateChunk h idx len =
      ({ cba := { h.cba with
           headIdx := idx
           freeIdx := (idx + cbaHeaderLen + len) % h.cba.size }
         mem := writeChunk h.mem (h.cba.buffer + idx) len },
       h.cba.buffer + idx + cbaHeaderLen) := by
  have hlen : headerChunkLen (writeChunk h.mem (h.cba.buffer + idx) len) (h.cba.buffer + idx) =
      len := by
    have hhd : cbaHeaderLen = 4 := rfl
    have hbits : headerBits (writeChunk h.mem (h.cba.buffer + idx) len) (h.cba.buffer + idx) =
        headerBits (writeHeader h.mem (h.cba.buffer + idx) len) (h.cba.buffer + idx) :=
      Mem.load_write_apart _ (by unfold Apart; omega)
    rw [headerChunkLen, hbits, ← headerChunkLen, headerChunkLen_writeHeader, Nat.mod_eq_of_lt hfit]
  unfold writeChunk writeHeader at hlen ⊢
  simp only [cbaReallocateChunk, hlen]

/-! ## The chain with its markers -/

/-- The header chain `bs`, all of whose chunks carry their markers. -/
structure MarkedInv (h : Heap) (bs : List Block) : Prop extends CbaInv h bs where
  marked : ∀ b ∈ bs, Marked h.mem (h.cba.buffer + b.idx) b

section Chain

variable {h : Heap} {bs : List Block} {b : Block} {len : Nat}

theorem init_marked (m : Mem) (buffer : Nat) {size : Nat} (hsize : size < 2 ^ 16) :
    MarkedInv (cbaInit m buffer size) [] :=
  ⟨cbaInit_inv m buffer hsize, by simp⟩

/-- The owner writes into a chunk and not to its last byte. -/
theorem MarkedInv.write_body (hinv : MarkedInv h bs) (hb : b ∈ bs) {off : Nat}
    {bytes : List UInt8} (hoff : off + bytes.length < b.len) :
    MarkedInv { h with mem := h.mem.write (h.cba.chunk b + off) bytes } bs := by
  refine ⟨hinv.toCbaInv.write_body hb (Nat.le_of_lt hoff), fun c hc => ?_⟩
  have hlen : cbaHeaderLen = 4 := rfl
  have hdis := hinv.ring.eq_or_disjoint hb hc
  unfold Cba.chunk
  unfold Block.stop at hdis
  rcases hdis with rfl | hdis
  · exact (hinv.marked b hb).congr (fun x _ hxn => Mem.write_of_outside _ _ _ (by omega))
      (Mem.write_of_outside _ _ _ (by omega))
  · exact (hinv.marked c hc).of_outside fun x _ _ => Mem.write_of_outside _ _ _ (by omega)

/-- The markers after the bound bit of a chunk has been cleared. -/
theorem MarkedInv.unbind_marked (hinv : MarkedInv h bs) (hb : b ∈ bs) :
    ∀ c ∈ bs.map (Block.unbindAt b.idx),
      Marked (setHeaderBound h.mem (h.cba.buffer + b.idx) 0) (h.cba.buffer + c.idx) c := by
  intro c hc
  obtain ⟨a, ha, rfl⟩ := List.mem_map.mp hc
  have hlen : cbaHeaderLen = 4 := rfl
  have hmarked := hinv.marked a ha
  have hdis := hinv.ring.eq_or_disjoint ha hb
  have hpos := hmarked.pos
  unfold Block.stop at hdis
  have hsame : Marked (setHeaderBound h.mem (h.cba.buffer + b.idx) 0) (h.cba.buffer + a.idx) a := by
    refine hmarked.congr (fun x _ hxn => Mem.store_of_outside _ _ _ _ ?_)
      (Mem.store_of_outside _ _ _ _ ?_)
    all_goals rcases hdis with rfl | hdis <;> omega
  rw [Block.unbindAt_idx]
  exact ⟨by rw [Block.unbindAt_len]; exact hsame.pos, hsame.head,
    by rw [Block.unbindAt_len]; exact hsame.last⟩

/-- `cba_free` on the chain. -/
theorem MarkedInv.free (hinv : MarkedInv h bs) (hb : b ∈ bs) :
    MarkedInv (EmbeddedMx.cbaFree h (h.cba.chunk b)) (releaseBlocks b.idx bs) := by
  obtain ⟨hchain, hbuffer, _, _⟩ := cbaFree_inv hinv.toCbaInv hb
  refine ⟨hchain, fun c hc => ?_⟩
  rw [hbuffer, cbaFree_mem hinv.toCbaInv hb]
  exact hinv.unbind_marked hb c ((List.dropWhile_suffix _).subset hc)

theorem end_marker (hinv : CbaInv h bs) (hb : b ∈ bs) (hpos : 0 < b.len) :
    CbaInv { h with
      mem := h.mem.write (h.cba.buffer + b.idx + cbaHeaderLen + b.len - 1) [cbaEndMarker] } bs := by
  have hlast : b.len - 1 + [cbaEndMarker].length ≤ b.len := by
    rw [List.length_singleton]
    omega
  have hend := hinv.write_body hb hlast
  rwa [Cba.chunk, ← Nat.add_sub_assoc hpos] at hend

/-- A chunk placed at `free_idx`. -/
theorem MarkedInv.place_atFree (hinv : MarkedInv h bs) (hroom : RoomAt h.cba h.cba.freeIdx len)
    (hpos : 0 < len) (hfit : len < 2 ^ 12) :
    MarkedInv (cbaReallocateChunk h h.cba.freeIdx len).1 (bs ++ [⟨h.cba.freeIdx, len, true⟩]) := by
  have hchain := hinv.toCbaInv.place_atFree hroom hfit
  rw [cbaReallocateChunk_eq h _ hpos hfit, Nat.mod_eq_of_lt (hroom.lt_size hinv.toCbaInv)]
  refine ⟨end_marker hchain (List.mem_append_right _ (List.mem_singleton_self _)) hpos, ?_⟩
  intro c hc
  rcases List.mem_append.mp hc with hold | hnew
  · have hpw := List.pairwise_append.mp hchain.ring.pairwise
    have hdis := hpw.2.2 c hold _ (List.mem_singleton.mpr rfl)
    unfold Block.stop at hdis
    exact (hinv.marked c hold).writeChunk (by simp only at hdis; omega)
  · rw [List.mem_singleton.mp hnew]
    exact marked_writeChunk _ _ _ hpos

/-- The newest chunk stretched to the end of the pool, and a chunk placed at the start. -/
theorem MarkedInv.place_wrap {init : List Block} {last : Block} {stretch : Nat} {h₁ : Heap}
    (hinv : MarkedInv h (init ++ [last])) (htail : h.cba.tailIdx ≤ h.cba.freeIdx)
    (hroom : cbaHeaderLen + len < h.cba.tailIdx) (hpos : 0 < len) (hfit : len < 2 ^ 12)
    (hstretch : stretch = h.cba.size - (last.idx + cbaHeaderLen)) (hspos : 0 < stretch)
    (hsfit : stretch < 2 ^ 12) (hh₁ : h₁ = (cbaReallocateChunk h last.idx stretch).1) :
    h₁.cba.freeIdx = 0 ∧
    MarkedInv (cbaReallocateChunk h₁ 0 len).1
      (init ++ [⟨last.idx, stretch, true⟩] ++ [⟨0, len, true⟩]) := by
  have hchain := hinv.toCbaInv.place_wrap htail hroom hfit (hstretch ▸ hsfit)
  rw [← hstretch] at hchain
  rw [cbaReallocateChunk_eq h _ hspos hsfit] at hh₁
  have hlt := hinv.idx_le.1
  have hend : last.idx + cbaHeaderLen + stretch = h.cba.size := by omega
  refine ⟨by rw [hh₁, hend, Nat.mod_self], ?_⟩
  have hpw := hchain.ring.pairwise
  rw [List.append_assoc] at hpw
  have hbefore := (List.pairwise_append.mp hpw).2.2
  have hlast : cbaHeaderLen + len ≤ last.idx := by
    have hseg := (hinv.ring.seg_of_le htail).1
    have := (hseg.mem_bounds last (by simp)).1
    omega
  -- the end marker of the stretched chunk is written before the header of the new one
  have hmem : writeChunk (writeChunk h.mem (h.cba.buffer + last.idx) stretch)
        (h.cba.buffer + 0) len =
      ((writeHeader (writeHeader h.mem (h.cba.buffer + last.idx) stretch) h.cba.buffer len).write
        (h.cba.buffer + last.idx + cbaHeaderLen + stretch - 1) [cbaEndMarker]).write
        (h.cba.buffer + 0 + cbaHeaderLen + len - 1) [cbaEndMarker] := by
    unfold writeChunk
    rw [writeHeader_write _ (.inr (by omega)), Nat.add_zero]
  rw [cbaReallocateChunk_eq h₁ _ hpos hfit, hh₁]
  simp only [Nat.zero_add]
  rw [Nat.mod_eq_of_lt (by omega)]
  refine ⟨?_, fun c hc => ?_⟩
  · rw [hmem]
    exact end_marker (b := ⟨0, len, true⟩)
      (end_marker (b := ⟨last.idx, stretch, true⟩) hchain (by simp) hspos) (by simp) hpos
  · rw [List.append_assoc] at hc
    rcases List.mem_append.mp hc with hold | hnew
    · have h1 := hbefore c hold ⟨last.idx, stretch, true⟩ (by simp)
      have h2 := hbefore c hold ⟨0, len, true⟩ (by simp)
      unfold Block.stop at h1 h2
      simp only at h1 h2
      have hmarked := hinv.marked c (List.mem_append_left _ hold)
      exact (hmarked.writeChunk (by omega)).writeChunk (by omega)
    · simp only [List.cons_append, List.nil_append, List.mem_cons, List.not_mem_nil,
        or_false] at hnew
      rcases hnew with rfl | rfl
      · exact (marked_writeChunk _ _ _ hspos).writeChunk (by simp only; omega)
      · exact marked_writeChunk _ _ _ hpos

/-- There is room for the end marker behind the requested bytes. -/
theorem lt_cbaChunkLen (hlen : len ≤ 4099) : len < cbaChunkLen len := by
  unfold cbaChunkLen cbaMinChunkLen cbaAlignment u16
  simp only
  split <;> omega

/-- **What a call of `cba_malloc` can do**: refuse without effect, or append one bound chunk
that is longer than requested. -/
theorem cbaAllocateChunk_cases (hinv : MarkedInv h bs) (hpos : 0 < h.cba.size)
    (hsize : h.cba.size ≤ 4099) (hlen : len ≤ h.cba.size) :
    cbaAllocateChunk h h.cba.freeIdx len = (h, 0) ∨
    ∃ h' old i, cbaAllocateChunk h h.cba.freeIdx len = (h', h.cba.buffer + i + cbaHeaderLen) ∧
      MarkedInv h' (old ++ [⟨i, cbaChunkLen len, true⟩]) ∧ Grown bs old ∧
      h'.cba.buffer = h.cba.buffer ∧ h'.cba.size = h.cba.size := by
  have hhd : cbaHeaderLen = 4 := rfl
  have hmark : cbaEndMarkerLen = 1 := rfl
  have hlong := lt_cbaChunkLen (hlen.trans hsize)
  have htail := hinv.idx_le.1
  have hfree : h.cba.freeIdx < h.cba.size := by
    by_cases hnil : bs = []
    · subst hnil
      have := hinv.freeIdx_of_nil
      omega
    · exact hinv.ring.stop_lt cbaHeaderLen_pos hnil
  -- a chunk at `free_idx`, behind it at least one more byte
  have hat : RoomAt h.cba h.cba.freeIdx (cbaChunkLen len) → ∃ h' old i,
      cbaReallocateChunk h h.cba.freeIdx (cbaChunkLen len) =
        (h', h.cba.buffer + i + cbaHeaderLen) ∧
      MarkedInv h' (old ++ [⟨i, cbaChunkLen len, true⟩]) ∧ Grown bs old ∧
      h'.cba.buffer = h.cba.buffer ∧ h'.cba.size = h.cba.size := by
    intro hroom
    have hlt := hroom.lt_size hinv.toCbaInv
    exact ⟨_, bs, h.cba.freeIdx, rfl, hinv.place_atFree hroom (by omega) (by omega), .refl bs,
      rfl, rfl⟩
  unfold cbaAllocateChunk
  simp only
  by_cases hwrapped : h.cba.freeIdx < h.cba.tailIdx
  · rw [if_pos hwrapped, u16Sub_eq (by omega) (by omega)]
    split
    · exact .inr (hat ⟨fun _ => by omega, fun _ => by omega⟩)
    · exact .inl rfl
  rw [if_neg hwrapped, u16Sub_eq (by omega) (by omega)]
  split
  · exact .inr (hat ⟨fun _ => by omega, fun _ => by omega⟩)
  split
  swap
  · exact .inl rfl
  rename_i hwrap
  rw [u16Sub_eq (by omega) (by omega)]
  split
  swap
  · exact .inl rfl
  rename_i hroom
  right
  obtain rfl | ⟨init, last, rfl⟩ := List.eq_nil_or_concat' bs
  · have := (hinv.empty rfl).2
    omega
  have hhead := hinv.head last (by simp)
  have hstop := hinv.ring.stop_last
  unfold Block.stop at hstop
  have hstart : cbaHeaderLen + cbaChunkLen len < h.cba.tailIdx := by omega
  obtain ⟨hzero, hchain⟩ := hinv.place_wrap (by omega) hstart (by omega) (by omega) rfl
    (by omega) (by omega) rfl
  rw [hhead, u16Sub_eq (by omega) (by omega), hzero]
  refine ⟨_, _, 0, rfl, hchain, ?_, rfl, rfl⟩
  exact (Grown.refl init).concat rfl (by simp only; omega) fun _ => rfl

end Chain

/-! ## What `cba_free` reports -/

theorem Marked.validate_head {s : CbaState} {hd : Nat} {b : Block} (h : Marked s.heap.mem hd b) :
    cbaValidateHeadMarker s hd = s :=
  if_neg (not_not.mpr h.head)

theorem Marked.validate_end {s : CbaState} {hd : Nat} {b : Block} (h : Marked s.heap.mem hd b)
    (hok : HeaderOk s.heap.mem hd b) : cbaValidateEndMarker s hd = s := by
  unfold cbaValidateEndMarker
  rw [hok.len]
  exact if_neg (not_not.mpr h.last)

/-- The loop reads the headers of the chain, and the ends of chunks it reclaims. -/
theorem cbaFreeLoop_reports (turns : Nat) {s : CbaState} {bs : List Block}
    (hring : RingLayout cbaHeaderLen s.heap.cba.size s.heap.cba.tailIdx bs s.heap.cba.freeIdx)
    (hheaders : ∀ b ∈ bs, HeaderOk s.heap.mem (s.heap.cba.buffer + b.idx) b)
    (hmarked : ∀ b ∈ bs, Marked s.heap.mem (s.heap.cba.buffer + b.idx) b) :
    (cbaFreeLoop turns s s.heap.cba.tailIdx).reports = s.reports := by
  induction turns generalizing s bs with
  | zero => rfl
  | succ turns ih =>
      cases bs with
      | nil => rw [cbaFreeLoop, if_pos hring.nil_eq]
      | cons b bs =>
          have hidx := hring.head_idx
          have hok := hheaders b List.mem_cons_self
          have hmark := hmarked b List.mem_cons_self
          rw [hidx] at hok hmark
          rw [cbaFreeLoop, if_neg (hring.start_ne_stop cbaHeaderLen_pos (by simp))]
          simp only [hmark.validate_head, hmark.validate_end hok, cbaNextChunkIdx]
          split
          · rfl
          · -- the chunk is reclaimed and the loop goes on behind it
            have hnext : (s.heap.cba.tailIdx + cbaHeaderLen +
                headerChunkLen s.heap.mem (s.heap.cba.buffer + s.heap.cba.tailIdx)) %
                s.heap.cba.size = b.stop cbaHeaderLen % s.heap.cba.size := by
              rw [hok.len, Block.stop, hidx]
            rw [hnext]
            exact ih (s := { s with heap := { s.heap with cba := { s.heap.cba with
                tailIdx := b.stop cbaHeaderLen % s.heap.cba.size } } })
              (hring.pop cbaHeaderLen_pos) (fun c hc => hheaders c (List.mem_cons_of_mem _ hc))
              fun c hc => hmarked c (List.mem_cons_of_mem _ hc)

/-- `cba_free` reports nothing about a chunk of the chain. -/
theorem cbaFree_reports {s : CbaState} {bs : List Block} (hinv : MarkedInv s.heap bs) {b : Block}
    (hb : b ∈ bs) : (cbaFree s (s.heap.cba.chunk b)).reports = s.reports := by
  have hmark := hinv.marked b hb
  have hhd : s.heap.cba.chunk b - cbaHeaderLen = s.heap.cba.buffer + b.idx := by
    unfold Cba.chunk
    omega
  have hidx : u16 (s.heap.cba.buffer + b.idx - s.heap.cba.buffer) = b.idx := by
    have hchunkIdx := cbaChunkIdx_chunk hinv.toCbaInv hb
    rwa [EmbeddedMx.cbaChunkIdx, hhd] at hchunkIdx
  unfold cbaFree
  rw [if_neg (Cba.chunk_ne_zero _ _)]
  simp only [cbaChunkIdx, hhd, hmark.validate_head, hidx]
  split
  · rename_i htail
    have hloop := cbaFreeLoop_reports (s.heap.cba.size + 1)
      (s := { s with heap := { s.heap with
        mem := setHeaderBound s.heap.mem (s.heap.cba.buffer + b.idx) 0 } })
      (hinv.ring.map _ (by simp)) (hinv.unbind_headers hb) (hinv.unbind_marked hb)
    rw [htail] at hloop ⊢
    split <;> exact hloop
  · rfl

/-! ## Runs -/

/-- The allocator and the chunks its users hold, each with the length it was requested with. -/
structure CheckedWorld where
  state : CbaState
  live : List (Nat × Nat)

def CheckedWorld.malloc (w : CheckedWorld) (len : Nat) : CheckedWorld :=
  let r := cbaMalloc w.state len
  { state := r.1, live := if r.2 = 0 then w.live else (r.2, len) :: w.live }

def CheckedWorld.free (w : CheckedWorld) (chunk len : Nat) : CheckedWorld :=
  { state := cbaFree w.state chunk, live := w.live.erase (chunk, len) }

def CheckedWorld.write (w : CheckedWorld) (addr : Nat) (bytes : List UInt8) : CheckedWorld :=
  { w with state := { w.state with
      heap := { w.state.heap with mem := w.state.heap.mem.write addr bytes } } }

/-- Requests are at most as large as the pool, and only chunks that are held are freed or
written, within the length they were requested with. -/
inductive CheckedStep : CheckedWorld → CbaOp → CheckedWorld → Prop
  | malloc {w len} : len ≤ w.state.heap.cba.size → CheckedStep w (.malloc len) (w.malloc len)
  | free {w chunk len} : (chunk, len) ∈ w.live → CheckedStep w (.free chunk) (w.free chunk len)
  | write {w chunk len off bytes} : (chunk, len) ∈ w.live → off + bytes.length ≤ len →
      CheckedStep w (.write chunk off bytes) (w.write (chunk + off) bytes)

/-- The runs of the validating allocator over a pool of `size` bytes, anywhere in memory. -/
def checkedSystem (size : Nat) : TSys CheckedWorld CbaOp where
  init w := ∃ m buffer, w = ⟨⟨cbaInit m buffer size, []⟩, []⟩
  step := CheckedStep

/-- The chunks in use are bound chunks of the header chain, longer than their owners know;
nothing was reported. -/
structure CheckedInv (size : Nat) (w : CheckedWorld) (bs : List Block) : Prop where
  chain : MarkedInv w.state.heap bs
  size_eq : w.state.heap.cba.size = size
  nodup : (w.live.map (·.1)).Nodup
  live : ∀ o ∈ w.live, ∃ b ∈ bs, b.bound = true ∧ o.1 = w.state.heap.cba.chunk b ∧ o.2 < b.len
  reports : w.state.reports = []

section Steps

variable {size : Nat} {w : CheckedWorld} {bs : List Block} {chunk len : Nat}

theorem CheckedInv.malloc (hinv : CheckedInv size w bs) (hpos : 0 < size) (hsize : size ≤ 4099)
    (hlen : len ≤ size) : ∃ bs', CheckedInv size (w.malloc len) bs' := by
  have hwsize := hinv.size_eq
  rcases cbaAllocateChunk_cases hinv.chain (by omega) (by omega) (hwsize.symm ▸ hlen) with
    heq | ⟨h', old, i, heq, hchain, hg, hbuffer, hhsize⟩
  · refine ⟨bs, ?_⟩
    unfold CheckedWorld.malloc cbaMalloc
    simp only [heq, if_true]
    exact hinv
  · have hhd := cbaHeaderLen_pos
    have hlong := lt_cbaChunkLen (hlen.trans hsize)
    refine ⟨old ++ [⟨i, cbaChunkLen len, true⟩], ?_⟩
    unfold CheckedWorld.malloc cbaMalloc
    simp only [heq]
    rw [if_neg (by omega)]
    -- old chunks keep their address
    have hold : ∀ o ∈ w.live, ∃ c ∈ old, c.bound = true ∧ o.1 = h'.cba.chunk c ∧ o.2 < c.len := by
      intro o ho
      obtain ⟨b, hb, hbound, hptr, hlt⟩ := hinv.live o ho
      obtain ⟨c, hc, hidx, hle, hcb⟩ := hg.exists_mem hb
      refine ⟨c, hc, hcb hbound, ?_, hlt.trans_le hle⟩
      rw [hptr, Cba.chunk, Cba.chunk, hbuffer, hidx]
    refine ⟨hchain, hhsize.trans hwsize, ?_, ?_, hinv.reports⟩
    · rw [List.map_cons, List.nodup_cons]
      refine ⟨fun hmem => ?_, hinv.nodup⟩
      obtain ⟨o, ho, hoptr⟩ := List.mem_map.mp hmem
      obtain ⟨c, hc, _, hptr, _⟩ := hold o ho
      refine hchain.toCbaInv.chunk_ne_last hc (hptr.symm.trans (hoptr.trans ?_))
      rw [Cba.chunk, hbuffer]
    · intro o ho
      rcases List.mem_cons.mp ho with rfl | ho
      · refine ⟨_, List.mem_append_right _ (List.mem_singleton_self _), rfl, ?_, hlong⟩
        rw [Cba.chunk, hbuffer]
      · obtain ⟨c, hc, hrest⟩ := hold o ho
        exact ⟨c, List.mem_append_left _ hc, hrest⟩

theorem CheckedInv.free (hinv : CheckedInv size w bs) (hmem : (chunk, len) ∈ w.live) :
    ∃ bs', CheckedInv size (w.free chunk len) bs' := by
  obtain ⟨b, hb, hbound, hptr, _⟩ := hinv.live _ hmem
  simp only at hptr
  subst hptr
  obtain ⟨_, hbuffer, hhsize, _⟩ := cbaFree_inv hinv.chain.toCbaInv hb
  refine ⟨releaseBlocks b.idx bs, ?_, ?_, ?_, ?_, ?_⟩
  · rw [CheckedWorld.free, cbaFree_heap]
    exact hinv.chain.free hb
  · rw [CheckedWorld.free, cbaFree_heap]
    exact hhsize.trans hinv.size_eq
  · exact hinv.nodup.sublist (List.erase_sublist.map _)
  · intro o ho
    obtain ⟨hne, ho⟩ := (List.Nodup.of_map _ hinv.nodup).mem_erase_iff.mp ho
    obtain ⟨c, hc, hcbound, hcptr, hlt⟩ := hinv.live o ho
    refine ⟨c, mem_releaseBlocks hc hcbound fun hidx => ?_, hcbound, ?_, hlt⟩
    · refine hne (List.inj_on_of_nodup_map hinv.nodup ho hmem ?_)
      rw [hcptr, Cba.chunk, Cba.chunk, hidx]
    · rw [hcptr, CheckedWorld.free, cbaFree_heap, Cba.chunk, Cba.chunk, hbuffer]
  · exact (cbaFree_reports hinv.chain hb).trans hinv.reports

theorem CheckedInv.write (hinv : CheckedInv size w bs) (hmem : (chunk, len) ∈ w.live) {off : Nat}
    {bytes : List UInt8} (hoff : off + bytes.length ≤ len) :
    CheckedInv size (w.write (chunk + off) bytes) bs := by
  obtain ⟨b, hb, hbound, hptr, hlt⟩ := hinv.live _ hmem
  simp only at hptr hlt
  subst hptr
  exact ⟨hinv.chain.write_body hb (by omega), hinv.size_eq, hinv.nodup, hinv.live, hinv.reports⟩

end Steps

/-- One step. -/
theorem CheckedStep.inv {size : Nat} {w w' : CheckedWorld} {op : CbaOp} {bs : List Block}
    (hinv : CheckedInv size w bs) (hpos : 0 < size) (hsize : size ≤ 4099)
    (hstep : CheckedStep w op w') : ∃ bs', CheckedInv size w' bs' := by
  cases hstep with
  | malloc hlen => exact hinv.malloc hpos hsize (hinv.size_eq ▸ hlen)
  | free hmem => exact hinv.free hmem
  | write hmem hoff => exact ⟨bs, hinv.write hmem hoff⟩

theorem checkedSystem_invariant {size : Nat} (hpos : 0 < size) (hsize : size ≤ 4099) :
    (checkedSystem size).Invariant fun w => ∃ bs, CheckedInv size w bs := by
  apply TSys.Inductive.invariant
  constructor
  · rintro w ⟨m, buffer, rfl⟩
    exact ⟨[], init_marked m buffer (by omega), rfl, List.nodup_nil, by simp, rfl⟩
  · rintro w op w' ⟨bs, hinv⟩ hstep
    exact hstep.inv hinv hpos hsize

/-- **No false alarm.** No run over a pool of 8 to 4099 bytes, in which requests are at most
as large as the pool and owners write only the bytes they requested, reports an exception.
Every chunk in use has both its markers. -/
theorem cba_no_false_alarm {size : Nat} (hlow : 8 ≤ size) (hsize : size ≤ 4099)
    {w : CheckedWorld} (hw : (checkedSystem size).Reachable w) :
    w.state.reports = [] ∧
    ∀ o ∈ w.live, headerMarker w.state.heap.mem (o.1 - cbaHeaderLen) = cbaHeadMarker ∧
      w.state.heap.mem (o.1 + w.state.heap.recordedLen o.1 - 1) = cbaEndMarker := by
  obtain ⟨bs, hinv⟩ := checkedSystem_invariant (by omega) hsize w hw
  refine ⟨hinv.reports, fun o ho => ?_⟩
  obtain ⟨b, hb, _, hptr, _⟩ := hinv.live o ho
  have hmark := hinv.chain.marked b hb
  rw [hptr, hinv.chain.toCbaInv.recordedLen_chunk hb]
  unfold Cba.chunk
  rw [Nat.add_sub_cancel]
  exact ⟨hmark.head, hmark.last⟩

/-- The second of two chunks is filled by its owner and freed first. -/
theorem cba_no_false_alarm_two_chunks :
    let w := ((⟨⟨cbaInit (fun _ => 0xFF) 16 50, []⟩, []⟩ : CheckedWorld).malloc 10).malloc 8
    let w := w.write (36 + 0) [1, 2, 3, 4, 5, 6, 7, 8]
    w.live = [(36, 8), (20, 10)] ∧ ((w.free 36 8).free 20 10).state.reports = [] := by
  intro w₂ w₃
  have h1 : (checkedSystem 50).Reachable _ :=
    .step (.init ⟨fun _ => 0xFF, 16, rfl⟩) (CheckedStep.malloc (show 10 ≤ 50 by decide))
  have h2 : (checkedSystem 50).Reachable w₂ :=
    .step h1 (CheckedStep.malloc (show 8 ≤ 50 by decide))
  have h3 : (checkedSystem 50).Reachable w₃ :=
    .step h2 (CheckedStep.write (show (36, 8) ∈ w₂.live by decide +kernel) (by decide))
  have h4 : (checkedSystem 50).Reachable (w₃.free 36 8) :=
    .step h3 (CheckedStep.free (by decide +kernel))
  have h5 : (checkedSystem 50).Reachable ((w₃.free 36 8).free 20 10) :=
    .step h4 (CheckedStep.free (by decide +kernel))
  exact ⟨by decide +kernel, (cba_no_false_alarm (by decide) (by decide) h5).1⟩

end EmbeddedMx.Validating
