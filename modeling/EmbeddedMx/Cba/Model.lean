import EmbeddedMx.Lib.Bytes

/-!
# The circular allocator `cba`

`struct cba` hands out chunks of a byte pool in ring order. Each chunk is
preceded by a four byte header: a 16-bit marker, then a 16-bit word holding the
`bound` bit (bit 0), three padding bits and the 12-bit `chunk_len`.

The model is the default build: `CBA_VALIDATION` and `CBA_REALLOC` are not
defined, so the validation macros are empty and `CBA_END_MARKER_LEN` is 0.
Addresses are naturals, `NULL` is 0. Where the C code narrows an `int` to
`uint16_t` the model reduces modulo `2 ^ 16`.
-/

namespace EmbeddedMx

open EmbeddedMx.Lib

def cbaAlignment : Nat := 4
def cbaHeaderLen : Nat := cbaAlignment
def cbaMinChunkLen : Nat := 3
def cbaHeadMarker : Nat := 0x5FFA

/-- Conversion of a non-negative `int` to `uint16_t`. -/
def u16 (n : Nat) : Nat := n % 2 ^ 16

/-- A difference of two `uint16_t` values converted back to `uint16_t`. -/
def u16Sub (a b : Nat) : Nat := (a + 2 ^ 16 - b) % 2 ^ 16

/-- `struct cba`; `buffer` is the address of the pool. -/
structure Cba where
  buffer : Nat
  size : Nat
  freeIdx : Nat
  headIdx : Nat
  tailIdx : Nat
deriving DecidableEq, Repr

/-- The allocator together with the memory its pool lies in. -/
structure Heap where
  cba : Cba
  mem : Mem

/-! ## `struct cba_header` -/

/-- The word holding the bit fields of the header at address `hd`. -/
def headerBits (m : Mem) (hd : Nat) : Nat := m.load (hd + 2) 2

/-- `header->marker` -/
def headerMarker (m : Mem) (hd : Nat) : Nat := m.load hd 2

/-- `header->bound` -/
def headerBound (m : Mem) (hd : Nat) : Nat := headerBits m hd % 2

/-- `header->chunk_len` -/
def headerChunkLen (m : Mem) (hd : Nat) : Nat := headerBits m hd / 16

/-- `header->marker = v` -/
def setHeaderMarker (m : Mem) (hd v : Nat) : Mem := m.store hd 2 v

/-- `header->bound = v` -/
def setHeaderBound (m : Mem) (hd v : Nat) : Mem :=
  m.store (hd + 2) 2 (headerBits m hd / 2 * 2 + v % 2)

/-- `header->chunk_len = v`: the bit field keeps the low twelve bits. -/
def setHeaderChunkLen (m : Mem) (hd v : Nat) : Mem :=
  m.store (hd + 2) 2 (headerBits m hd % 16 + 16 * (v % 2 ^ 12))

/-! ## The functions of `cba.c` -/

/-- Calculate aligned chunk length. -/
def cbaChunkLen (len : Nat) : Nat :=
  let len := if len < cbaMinChunkLen then cbaMinChunkLen else len
  if len % cbaAlignment = 0 then len else u16 ((len / cbaAlignment + 1) * cbaAlignment)

/-- Find index of the given chunk's header. -/
def cbaChunkIdx (h : Heap) (chunk : Nat) : Nat :=
  u16 (chunk - cbaHeaderLen - h.cba.buffer)

/-- Find index of the next header. -/
def cbaNextChunkIdx (h : Heap) (idx : Nat) : Nat :=
  (idx + cbaHeaderLen + headerChunkLen h.mem (h.cba.buffer + idx)) % h.cba.size

/-- Modify or create new memory chunk; returns `header->chunk`. -/
def cbaReallocateChunk (h : Heap) (idx len : Nat) : Heap × Nat :=
  let hd := h.cba.buffer + idx
  let mem := setHeaderMarker h.mem hd cbaHeadMarker
  let mem := setHeaderBound mem hd 1
  let mem := setHeaderChunkLen mem hd len
  let freeIdx := (idx + cbaHeaderLen + headerChunkLen mem hd) % h.cba.size
  ({ cba := { h.cba with headIdx := idx, freeIdx := freeIdx }, mem := mem }, hd + cbaHeaderLen)

/-- Create new memory chunk; returns `NULL` when out of memory. -/
def cbaAllocateChunk (h : Heap) (idx len : Nat) : Heap × Nat :=
  let len := cbaChunkLen len
  if idx < h.cba.tailIdx then
    -- We are wrapped already, check space till allocated memory
    let available := u16Sub h.cba.tailIdx idx
    if len + cbaHeaderLen < available then cbaReallocateChunk h idx len else (h, 0)
  else
    -- We are not wrapped
    let available := u16Sub h.cba.size idx
    if len + cbaHeaderLen < available then cbaReallocateChunk h idx len
    else if 0 < h.cba.tailIdx then
      -- Possible wrapping
      let available := h.cba.tailIdx
      if len + cbaHeaderLen < available then
        let freeLen := u16Sub h.cba.size (h.cba.headIdx + cbaHeaderLen)
        let h := (cbaReallocateChunk h h.cba.headIdx freeLen).1
        cbaReallocateChunk h h.cba.freeIdx len
      else (h, 0)
    else (h, 0)

/-- Initialize allocator structure. -/
def cbaInit (mem : Mem) (buffer len : Nat) : Heap :=
  { cba := { buffer := buffer, size := len, freeIdx := 0, headIdx := 0, tailIdx := 0 }
    mem := mem }

/-- Reset allocator structure. -/
def cbaReset (h : Heap) : Heap :=
  { h with cba := { h.cba with freeIdx := 0, headIdx := 0, tailIdx := 0 } }

/-- Allocate new memory chunk. -/
def cbaMalloc (h : Heap) (len : Nat) : Heap × Nat :=
  cbaAllocateChunk h h.cba.freeIdx len

/-- The loop of `cba_free`: free all tailed unbound chunks. The first argument
bounds the number of turns; `cbaFreeLoop_spec` shows that in a well-formed heap
the loop has ended by itself before the bound is reached. -/
def cbaFreeLoop : Nat → Heap → Nat → Heap
  | 0, h, _ => h
  | turns + 1, h, idx =>
      if idx = h.cba.freeIdx then h
      else if headerBound h.mem (h.cba.buffer + idx) = 1 then h
      else
        let idx := cbaNextChunkIdx h idx
        cbaFreeLoop turns { h with cba := { h.cba with tailIdx := idx } } idx

/-- Free memory chunk. -/
def cbaFree (h : Heap) (chunk : Nat) : Heap :=
  if chunk = 0 then h
  else
    let idx := cbaChunkIdx h chunk
    let h := { h with mem := setHeaderBound h.mem (h.cba.buffer + idx) 0 }
    if idx = h.cba.tailIdx then
      let h := cbaFreeLoop (h.cba.size + 1) h idx
      if h.cba.tailIdx = h.cba.freeIdx then cbaReset h else h
    else h

/-! ## Header fields -/

theorem headerBits_lt (m : Mem) (hd : Nat) : headerBits m hd < 2 ^ 16 := by
  have := m.load_lt (hd + 2) 2
  simpa [headerBits] using this

theorem headerBits_congr {m m' : Mem} {hd : Nat}
    (h : ∀ x, hd ≤ x → x < hd + cbaHeaderLen → m' x = m x) :
    headerBits m' hd = headerBits m hd := by
  apply Mem.load_congr
  intro x hx hxn
  exact h x (by omega) (by simp only [cbaHeaderLen, cbaAlignment]; omega)

@[simp] theorem headerBits_setHeaderMarker (m : Mem) (hd v : Nat) :
    headerBits (setHeaderMarker m hd v) hd = headerBits m hd :=
  Mem.load_store_apart m (.inr (by omega))

theorem headerBits_setHeaderBound (m : Mem) (hd v : Nat) :
    headerBits (setHeaderBound m hd v) hd = headerBits m hd / 2 * 2 + v % 2 := by
  have := headerBits_lt m hd
  exact Mem.load_store_same m _ (by omega)

theorem headerBits_setHeaderChunkLen (m : Mem) (hd v : Nat) :
    headerBits (setHeaderChunkLen m hd v) hd = headerBits m hd % 16 + 16 * (v % 2 ^ 12) := by
  exact Mem.load_store_same m _ (by omega)

@[simp] theorem headerBound_setHeaderBound (m : Mem) (hd v : Nat) :
    headerBound (setHeaderBound m hd v) hd = v % 2 := by
  rw [headerBound, headerBits_setHeaderBound]
  omega

@[simp] theorem headerChunkLen_setHeaderBound (m : Mem) (hd v : Nat) :
    headerChunkLen (setHeaderBound m hd v) hd = headerChunkLen m hd := by
  rw [headerChunkLen, headerBits_setHeaderBound, headerChunkLen]
  omega

@[simp] theorem headerBound_setHeaderChunkLen (m : Mem) (hd v : Nat) :
    headerBound (setHeaderChunkLen m hd v) hd = headerBound m hd := by
  rw [headerBound, headerBits_setHeaderChunkLen, headerBound]
  omega

@[simp] theorem headerChunkLen_setHeaderChunkLen (m : Mem) (hd v : Nat) :
    headerChunkLen (setHeaderChunkLen m hd v) hd = v % 2 ^ 12 := by
  rw [headerChunkLen, headerBits_setHeaderChunkLen]
  omega

theorem setHeaderBound_of_outside (m : Mem) (hd v : Nat) {x : Nat}
    (h : x < hd ∨ hd + cbaHeaderLen ≤ x) : setHeaderBound m hd v x = m x := by
  simp only [cbaHeaderLen, cbaAlignment] at h
  exact Mem.store_of_outside m _ _ _ (by omega)

/-! ## What `cba_reallocate_chunk` writes -/

/-- The header of a fresh chunk of length `len`. -/
def writeHeader (m : Mem) (hd len : Nat) : Mem :=
  setHeaderChunkLen (setHeaderBound (setHeaderMarker m hd cbaHeadMarker) hd 1) hd len

@[simp] theorem headerBound_writeHeader (m : Mem) (hd len : Nat) :
    headerBound (writeHeader m hd len) hd = 1 := by
  simp [writeHeader]

@[simp] theorem headerChunkLen_writeHeader (m : Mem) (hd len : Nat) :
    headerChunkLen (writeHeader m hd len) hd = len % 2 ^ 12 := by
  simp [writeHeader]

theorem writeHeader_of_outside (m : Mem) (hd len : Nat) {x : Nat}
    (h : x < hd ∨ hd + cbaHeaderLen ≤ x) : writeHeader m hd len x = m x := by
  simp only [cbaHeaderLen, cbaAlignment] at h
  unfold writeHeader setHeaderChunkLen setHeaderBound setHeaderMarker
  rw [Mem.store_of_outside _ _ _ _ (by omega), Mem.store_of_outside _ _ _ _ (by omega),
    Mem.store_of_outside _ _ _ _ (by omega)]

theorem cbaReallocateChunk_eq (h : Heap) (idx len : Nat) :
    cbaReallocateChunk h idx len =
      ({ cba := { h.cba with
           headIdx := idx
           freeIdx := (idx + cbaHeaderLen + len % 2 ^ 12) % h.cba.size }
         mem := writeHeader h.mem (h.cba.buffer + idx) len },
       h.cba.buffer + idx + cbaHeaderLen) := by
  have hlen := headerChunkLen_writeHeader h.mem (h.cba.buffer + idx) len
  unfold writeHeader at hlen ⊢
  simp only [cbaReallocateChunk, hlen]

theorem cbaReallocateChunk_cba (h : Heap) (idx len : Nat) :
    (cbaReallocateChunk h idx len).1.cba =
      { h.cba with
        headIdx := idx
        freeIdx := (idx + cbaHeaderLen + len % 2 ^ 12) % h.cba.size } := by
  rw [cbaReallocateChunk_eq]

end EmbeddedMx
