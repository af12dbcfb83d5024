import EmbeddedMx.Cba.Isolation

/-!
# The length that is recorded

The aligned length of a chunk is computed in 16 bits, tested against the free space, and
stored in the twelve bits of `chunk_len`, from which the next free index is computed. In
pools of any size the indices stay inside the pool (`IdxInv`), also where lengths have lost
bits and the header chain is gone. So a chunk is as large as requested exactly if its
aligned length fits the field (`cba_big_enough`).
-/

namespace EmbeddedMx

open EmbeddedMx.Lib

/-! ## The indices -/

/-- The indices point into the pool; nothing is ever allocated in a pool without room for a
header. -/
structure IdxInv (size : Nat) (w : CbaWorld) : Prop where
  size_eq : w.heap.cba.size = size
  free : w.heap.cba.freeIdx ≤ size
  tail : w.heap.cba.tailIdx ≤ size
  head : cbaHeaderLen ≤ size → w.heap.cba.headIdx + cbaHeaderLen ≤ size
  small : size < cbaHeaderLen → w.live = []

section Placement

variable {size : Nat} {w : CbaWorld} {len : Nat}

/-- A chunk placed at `free_idx` fits before the end of the pool. -/
theorem IdxInv.atFree (h : IdxInv size w) (hsize : size < 2 ^ 16)
    (hp : cbaPlacement w.heap len = .atFree) :
    w.heap.cba.freeIdx + cbaHeaderLen + cbaChunkLen len < size := by
  have hfree := h.free
  have htail := h.tail
  unfold cbaPlacement at hp
  dsimp only at hp
  split at hp
  · rw [u16Sub_eq (by omega) (by omega)] at hp
    split at hp
    · omega
    · cases hp
  · rw [h.size_eq, u16Sub_eq hfree hsize] at hp
    split at hp
    · omega
    · split at hp
      · split at hp <;> cases hp
      · cases hp

/-- A wrapping call finds room before the tail. -/
theorem IdxInv.wrap (h : IdxInv size w) (hp : cbaPlacement w.heap len = .wrap) :
    cbaHeaderLen + cbaChunkLen len < size ∧ w.heap.cba.headIdx + cbaHeaderLen ≤ size := by
  have htail := h.tail
  have hroom : cbaHeaderLen + cbaChunkLen len < size := by
    unfold cbaPlacement at hp
    dsimp only at hp
    split at hp
    · split at hp <;> cases hp
    · split at hp
      · cases hp
      · split at hp
        · split at hp
          · omega
          · cases hp
        · cases hp
  exact ⟨hroom, h.head (by omega)⟩

/-- Behind the stretched chunk the pool starts again, or the length it is stretched to has
lost bits, and there is at least as much room as the lost bits stand for. -/
theorem stretched_free {head : Nat} (hhead : head + cbaHeaderLen ≤ size) (hsize : size < 2 ^ 16) :
    let freeIdx := (head + cbaHeaderLen + u16Sub size (head + cbaHeaderLen) % 2 ^ 12) % size
    freeIdx = 0 ∨ freeIdx + 2 ^ 12 ≤ size := by
  intro freeIdx
  have hstretch : u16Sub size (head + cbaHeaderLen) = size - (head + cbaHeaderLen) :=
    u16Sub_eq hhead hsize
  by_cases hfits : size - (head + cbaHeaderLen) < 2 ^ 12
  · left
    show (head + cbaHeaderLen + u16Sub size (head + cbaHeaderLen) % 2 ^ 12) % size = 0
    rw [hstretch, Nat.mod_eq_of_lt hfits, Nat.add_sub_cancel' hhead, Nat.mod_self]
  · right
    have hlost : head + cbaHeaderLen + (size - (head + cbaHeaderLen)) % 2 ^ 12 + 2 ^ 12 ≤ size := by
      omega
    show (head + cbaHeaderLen + u16Sub size (head + cbaHeaderLen) % 2 ^ 12) % size + 2 ^ 12 ≤ size
    rw [hstretch, Nat.mod_eq_of_lt (by omega)]
    exact hlost

/-- What a call that does not refuse does last: it writes a header for which the pool has
room, and for a body too unless its length is about to lose bits. -/
theorem IdxInv.placed (h : IdxInv size w) (hsize : size < 2 ^ 16)
    (hp : cbaPlacement w.heap len ≠ .refuse) :
    ∃ h' idx, cbaMalloc w.heap len = cbaReallocateChunk h' idx (cbaChunkLen len) ∧
      h'.cba.size = size ∧ h'.cba.tailIdx = w.heap.cba.tailIdx ∧
      h'.cba.buffer = w.heap.cba.buffer ∧ idx + cbaHeaderLen ≤ size ∧
      (cbaChunkLen len + cbaHeaderLen ≤ 2 ^ 12 → idx + cbaHeaderLen + cbaChunkLen len ≤ size) := by
  cases hplace : cbaPlacement w.heap len with
  | refuse => exact absurd hplace hp
  | atFree =>
      have hroom := h.atFree hsize hplace
      refine ⟨w.heap, w.heap.cba.freeIdx, ?_, h.size_eq, rfl, rfl, by omega, fun _ => by omega⟩
      rw [cbaMalloc_eq, hplace]
  | wrap =>
      obtain ⟨hroom, hhead⟩ := h.wrap hplace
      obtain ⟨h₁, hh₁⟩ : ∃ h₁, h₁ =
        (cbaReallocateChunk w.heap w.heap.cba.headIdx (cbaStretchLen w.heap)).1 := ⟨_, rfl⟩
      have hfree : h₁.cba.freeIdx = 0 ∨ h₁.cba.freeIdx + 2 ^ 12 ≤ size := by
        have hstretched := stretched_free hhead hsize
        rw [← h.size_eq] at hstretched ⊢
        rw [hh₁, cbaReallocateChunk_cba]
        exact hstretched
      refine ⟨h₁, h₁.cba.freeIdx, ?_, ?_, ?_, ?_, ?_, ?_⟩
      · rw [cbaMalloc_eq, hplace, hh₁]
      · rw [hh₁, cbaReallocateChunk_cba]
        exact h.size_eq
      · rw [hh₁, cbaReallocateChunk_cba]
      · rw [hh₁, cbaReallocateChunk_cba]
      · have hlen : cbaHeaderLen = 4 := rfl
        omega
      · intro hfits
        omega

end Placement

/-! ## Runs -/

theorem cbaFreeLoop_idx (turns idx : Nat) {size : Nat} {h : Heap} (hsize : h.cba.size = size)
    (hpos : 0 < size) (htail : h.cba.tailIdx ≤ size) :
    ∃ tail ≤ size, cbaFreeLoop turns h idx = { h with cba := { h.cba with tailIdx := tail } } := by
  induction turns generalizing h idx with
  | zero => exact ⟨h.cba.tailIdx, htail, rfl⟩
  | succ turns ih =>
      unfold cbaFreeLoop
      split
      · exact ⟨h.cba.tailIdx, htail, rfl⟩
      · split
        · exact ⟨h.cba.tailIdx, htail, rfl⟩
        · have hnext : cbaNextChunkIdx h idx ≤ size := by
            unfold cbaNextChunkIdx
            rw [hsize]
            exact Nat.le_of_lt (Nat.mod_lt _ hpos)
          exact ih _ (h := { h with cba := { h.cba with tailIdx := cbaNextChunkIdx h idx } })
            hsize hnext

/-- `cba_free` -/
theorem IdxInv.of_free {size : Nat} {w : CbaWorld} {chunk : Nat} (h : IdxInv size w)
    (hlive : chunk ∈ w.live) : IdxInv size (w.free chunk) := by
  have hpos : cbaHeaderLen ≤ size := by
    by_contra hsmall
    rw [h.small (by omega)] at hlive
    cases hlive
  have hsmall : size < cbaHeaderLen → (w.free chunk).live = [] := fun hlt => by omega
  suffices hidx : (cbaFree w.heap chunk).cba.size = size ∧
      (cbaFree w.heap chunk).cba.freeIdx ≤ size ∧ (cbaFree w.heap chunk).cba.tailIdx ≤ size ∧
      (cbaFree w.heap chunk).cba.headIdx + cbaHeaderLen ≤ size from
    ⟨hidx.1, hidx.2.1, hidx.2.2.1, fun _ => hidx.2.2.2, hsmall⟩
  have hhead := h.head hpos
  unfold cbaFree
  split
  · exact ⟨h.size_eq, h.free, h.tail, hhead⟩
  · dsimp only
    split
    · obtain ⟨tail, htail, hloop⟩ := cbaFreeLoop_idx (w.heap.cba.size + 1)
        (cbaChunkIdx w.heap chunk)
        (h := { w.heap with
          mem := setHeaderBound w.heap.mem (w.heap.cba.buffer + cbaChunkIdx w.heap chunk) 0 })
        h.size_eq (by simp only [cbaHeaderLen, cbaAlignment] at hpos; omega) h.tail
      rw [hloop]
      split
      · exact ⟨h.size_eq, Nat.zero_le _, Nat.zero_le _, by
          show 0 + cbaHeaderLen ≤ size
          omega⟩
      · exact ⟨h.size_eq, h.free, htail, hhead⟩
    · exact ⟨h.size_eq, h.free, h.tail, hhead⟩

/-- `cba_malloc` -/
theorem IdxInv.of_malloc {size : Nat} {w : CbaWorld} {len : Nat} (h : IdxInv size w)
    (hsize : size < 2 ^ 16) : IdxInv size (w.malloc len) := by
  by_cases hp : cbaPlacement w.heap len = .refuse
  · unfold CbaWorld.malloc
    rw [cbaMalloc_refuse hp]
    exact h
  · obtain ⟨h', idx, hmalloc, hsize', htail', -, hidx, -⟩ := h.placed hsize hp
    have hfree : (idx + cbaHeaderLen + cbaChunkLen len % 2 ^ 12) % size ≤ size :=
      Nat.le_of_lt (Nat.mod_lt _ (by simp only [cbaHeaderLen, cbaAlignment] at hidx; omega))
    unfold CbaWorld.malloc
    rw [hmalloc, cbaReallocateChunk_eq, hsize']
    exact ⟨hsize', hfree, htail' ▸ h.tail, fun _ => hidx, fun hlt => by omega⟩

/-- The indices stay in the pool, in every run and for every length. -/
theorem cbaSystem_idx {size : Nat} (hsize : size < 2 ^ 16) :
    (cbaSystem size).Invariant (IdxInv size) := by
  apply TSys.Inductive.invariant
  constructor
  · rintro w ⟨m, buffer, rfl⟩
    refine ⟨rfl, Nat.zero_le _, Nat.zero_le _, fun hle => ?_, fun _ => rfl⟩
    show 0 + cbaHeaderLen ≤ size
    omega
  · rintro w op w' hinv hstep
    cases hstep with
    | malloc _ => exact hinv.of_malloc hsize
    | free hlive => exact hinv.of_free hlive
    | write _ _ => exact ⟨hinv.size_eq, hinv.free, hinv.tail, hinv.head, hinv.small⟩

/-! ## Big enough -/

/-- If the call returns a chunk, its header records at least the length asked for, the
chunk ends inside the pool, and the next one comes behind it; the recorded length is the
one that was tested. -/
def BigEnough (h : Heap) (len : Nat) : Prop :=
  let r := cbaMalloc h len
  r.2 ≠ 0 →
    let idx := cbaChunkIdx r.1 r.2
    let chunkLen := headerChunkLen r.1.mem (h.cba.buffer + idx)
    len ≤ chunkLen ∧ idx + cbaHeaderLen + chunkLen ≤ h.cba.size ∧
      r.1.cba.freeIdx = (idx + cbaHeaderLen + chunkLen) % h.cba.size ∧ chunkLen = cbaChunkLen len

instance (h : Heap) (len : Nat) : Decidable (BigEnough h len) :=
  inferInstanceAs (Decidable (_ → _))

/-- The aligned length of a request is recorded as it is exactly if the request is not
above the largest aligned length of twelve bits. -/
theorem recorded_iff {len : Nat} (hlen : len < 2 ^ 16) :
    len ≤ cbaChunkLen len % 2 ^ 12 ∧ cbaChunkLen len % 2 ^ 12 = cbaChunkLen len ↔ len ≤ 4092 := by
  unfold cbaChunkLen cbaMinChunkLen cbaAlignment u16
  dsimp only
  split <;> split <;> omega

theorem chunkLen_le_of_le {len : Nat} (hlen : len ≤ 4092) :
    cbaChunkLen len + cbaHeaderLen ≤ 2 ^ 12 := by
  unfold cbaChunkLen cbaMinChunkLen cbaHeaderLen cbaAlignment u16
  dsimp only
  split <;> split <;> omega

/-- **Allocated means big enough** exactly if the call finds no room or the length is at
most 4092. -/
theorem cba_big_enough {size : Nat} (hsize : size < 2 ^ 16) {w : CbaWorld}
    (hw : (cbaSystem size).Reachable w) {len : Nat} (hlen : len < 2 ^ 16) :
    BigEnough w.heap len ↔ cbaPlacement w.heap len = .refuse ∨ len ≤ 4092 := by
  have hinv := cbaSystem_idx hsize w hw
  by_cases hp : cbaPlacement w.heap len = .refuse
  · refine iff_of_true ?_ (.inl hp)
    unfold BigEnough
    rw [cbaMalloc_refuse hp]
    exact fun hne => absurd rfl hne
  · obtain ⟨h', idx, hmalloc, hsize', -, hbuffer, hidx, hroom⟩ := hinv.placed hsize hp
    have hchunk : u16 (h'.cba.buffer + idx + cbaHeaderLen - cbaHeaderLen - h'.cba.buffer) = idx := by
      have hlt : idx < 2 ^ 16 := by
        have hpos := cbaHeaderLen_pos
        omega
      rw [Nat.add_sub_cancel, Nat.add_sub_cancel_left, u16, Nat.mod_eq_of_lt hlt]
    unfold BigEnough
    rw [hmalloc, cbaReallocateChunk_eq, ← hbuffer, hinv.size_eq]
    unfold cbaChunkIdx
    dsimp only
    rw [hchunk, headerChunkLen_writeHeader, hsize', or_iff_right hp, ← recorded_iff hlen]
    constructor
    · intro hbig
      obtain ⟨hle, -, -, heq⟩ := hbig (Nat.succ_ne_zero _)
      exact ⟨hle, heq⟩
    · rintro ⟨hle, heq⟩ -
      have hend := hroom (chunkLen_le_of_le ((recorded_iff hlen).mp ⟨hle, heq⟩))
      exact ⟨hle, by rw [heq]; exact hend, rfl, heq⟩

/-- A chunk of 4092 bytes in a pool of 8200 bytes. -/
theorem cba_big_enough_largest :
    BigEnough (cbaInit (fun _ => 0) 16 8200) 4092 :=
  (cba_big_enough (by decide : 8200 < 2 ^ 16) (cbaSystem_init 8200 16 fun _ => 0)
    (by decide : 4092 < 2 ^ 16)).mpr (.inr (by decide))

/-- A chunk of 5000 bytes in a pool of 8200 bytes is recorded with 904 bytes, and one of
65535 bytes in a pool of 16 bytes with none. -/
theorem cba_not_big_enough :
    (cbaSystem 8200).Reachable ⟨cbaInit (fun _ => 0) 16 8200, []⟩ ∧
      ¬ BigEnough (cbaInit (fun _ => 0) 16 8200) 5000 ∧
    (cbaSystem 16).Reachable ⟨cbaInit (fun _ => 0) 16 16, []⟩ ∧
      ¬ BigEnough (cbaInit (fun _ => 0) 16 16) 65535 :=
  ⟨cbaSystem_init 8200 16 fun _ => 0, by decide +kernel, cbaSystem_init 16 16 fun _ => 0,
    by decide +kernel⟩

end EmbeddedMx
