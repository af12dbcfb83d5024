import EmbeddedMx.Cba.Isolation

/-!
# Reclaiming the whole pool

Freed chunks leave the chain when the tail reaches them, so once nothing is in
use the chain should be empty and all indices zero again. The wrap step of
`cba_allocate_chunk` is the exception: it rewrites the header of the newest
chunk with `bound = 1` even when that chunk has been freed already, and then
nobody frees it again. Runs that never stretch a freed chunk keep "bound" and
"in use" the same thing, and give the whole pool back.
-/

namespace EmbeddedMx

open EmbeddedMx.Lib

/-- The call wraps while the newest chunk (at `head_idx`) is already freed. -/
def stretchesFreed (h : Heap) (len : Nat) : Prop :=
  cbaPlacement h len = .wrap ∧ headerBound h.mem (h.cba.buffer + h.cba.headIdx) = 0

instance (h : Heap) (len : Nat) : Decidable (stretchesFreed h len) :=
  inferInstanceAs (Decidable (_ ∧ _))

/-- The runs in which no call stretches a freed chunk. -/
def reclaimSystem (size : Nat) : TSys CbaWorld CbaOp :=
  (cbaSystem size).restrict fun w op => ∀ len, op = .malloc len → ¬ stretchesFreed w.heap len

theorem reclaimSystem_malloc {size : Nat} {w : CbaWorld} (len : Nat)
    (h : (reclaimSystem size).Reachable w) (hlen : len < 2 ^ 16)
    (hno : ¬ stretchesFreed w.heap len) : (reclaimSystem size).Reachable (w.malloc len) := by
  have hstep : (reclaimSystem size).step w (.malloc len) (w.malloc len) := by
    refine ⟨fun n hn => ?_, .malloc hlen⟩
    rw [← CbaOp.malloc.inj hn]
    exact hno
  exact .step h hstep

theorem reclaimSystem_free {size : Nat} {w : CbaWorld} (chunk : Nat)
    (h : (reclaimSystem size).Reachable w) (hmem : chunk ∈ w.live) :
    (reclaimSystem size).Reachable (w.free chunk) := by
  have hstep : (reclaimSystem size).step w (.free chunk) (w.free chunk) :=
    ⟨fun n hn => (by cases hn), .free hmem⟩
  exact .step h hstep

/-- Every bound chunk of the chain is in use. -/
def BoundLive (w : CbaWorld) (bs : List Block) : Prop :=
  ∀ b ∈ bs, b.bound = true → w.heap.cba.chunk b ∈ w.live

theorem BoundLive.malloc {w : CbaWorld} {bs : List Block} {len : Nat} (hinv : CbaInv w.heap bs)
    (hlive : BoundLive w bs) (hfits : CbaFits w.heap len) (hno : ¬ stretchesFreed w.heap len) :
    BoundLive (w.malloc len) (mallocBlocks w.heap len bs) := by
  unfold CbaFits at hfits
  unfold mallocBlocks CbaWorld.malloc
  have hpos := cbaHeaderLen_pos
  cases hp : cbaPlacement w.heap len with
  | refuse =>
      rw [cbaMalloc_refuse hp]
      exact hlive
  | atFree =>
      rw [hp] at hfits
      rw [cbaMalloc_atFree hinv hp hfits]
      dsimp only
      rw [if_neg (by omega)]
      intro b hb hbound
      rcases List.mem_append.mp hb with hb | hb
      · exact List.mem_cons_of_mem _ (hlive b hb hbound)
      · rw [List.mem_singleton.mp hb]
        exact List.mem_cons_self
  | wrap =>
      rw [hp] at hfits
      obtain ⟨_, _, init, last, rfl, hhead, _, _, _⟩ := hinv.wrap_room hp
      rw [cbaMalloc_wrap hinv hp hfits.1 hfits.2]
      dsimp only
      rw [if_neg (by omega)]
      -- the stretched chunk was bound before, so it is in use
      have hlast : last.bound = true := by
        have hok := (hinv.headers last (by simp)).bound
        by_contra hfalse
        rw [Bool.not_eq_true] at hfalse
        rw [hfalse, ← hhead] at hok
        exact hno ⟨hp, hok⟩
      rw [stretchLast_concat]
      intro b hb hbound
      simp only [List.append_assoc, List.mem_append, List.mem_singleton] at hb
      rcases hb with hb | rfl | rfl
      · exact List.mem_cons_of_mem _ (hlive b (List.mem_append_left _ hb) hbound)
      · exact List.mem_cons_of_mem _ (hlive last (by simp) hlast)
      · exact List.mem_cons_self

theorem BoundLive.free {w : CbaWorld} {bs : List Block} {b : Block} (hinv : CbaInv w.heap bs)
    (hlive : BoundLive w bs) (hb : b ∈ bs) :
    BoundLive (w.free (w.heap.cba.chunk b)) (releaseBlocks b.idx bs) := by
  obtain ⟨_, hbuf, _, _⟩ := cbaFree_inv hinv hb
  intro c hc hbound
  obtain ⟨a, ha, rfl⟩ := releaseBlocks_mem hc
  unfold Block.unbindAt at hbound ⊢
  by_cases hidx : a.idx = b.idx
  · rw [if_pos hidx] at hbound
    cases hbound
  · rw [if_neg hidx] at hbound ⊢
    have hchunk : (w.free (w.heap.cba.chunk b)).heap.cba.chunk a = w.heap.cba.chunk a := by
      simp only [CbaWorld.free, Cba.chunk] at hbuf ⊢
      rw [hbuf]
    rw [hchunk]
    refine (List.mem_erase_of_ne ?_).mpr (hlive a ha hbound)
    intro heq
    exact hidx (congrArg Block.idx (hinv.chunk_inj ha hb heq))

/-- In runs that stretch no freed chunk, "bound" and "in use" agree. -/
theorem reclaimSystem_invariant {size : Nat} (hsize : size ≤ 4099) :
    (reclaimSystem size).Invariant fun w =>
      w.heap.cba.size = size ∧ ∃ bs, CbaWorldInv w bs ∧ BoundLive w bs := by
  apply TSys.Inductive.invariant
  constructor
  · rintro w ⟨m, buffer, rfl⟩
    exact ⟨rfl, [], ⟨cbaInit_inv m buffer (by omega), List.nodup_nil, by simp⟩,
      by simp [BoundLive]⟩
  · rintro w op w' ⟨hw, bs, hinv, hlive⟩ ⟨hno, hstep⟩
    have hfits : ∀ len, op = .malloc len → CbaFits w.heap len :=
      fun len _ => hinv.chain.fits_of_size (by omega) len
    refine ⟨(CbaStep.size_eq hinv hstep hfits).trans hw, ?_⟩
    cases hstep with
    | malloc _ =>
        exact ⟨_, hinv.malloc (hfits _ rfl),
          hlive.malloc hinv.chain (hfits _ rfl) (hno _ rfl)⟩
    | free hmem =>
        obtain ⟨b, hb, _, rfl⟩ := hinv.live _ hmem
        exact ⟨_, hinv.free hb, hlive.free hinv.chain hb⟩
    | write hmem hoff =>
        obtain ⟨b, hb, _, rfl⟩ := hinv.live _ hmem
        rw [hinv.chain.recordedLen_chunk hb] at hoff
        exact ⟨bs, ⟨hinv.chain.write_body hb hoff, hinv.nodup, hinv.live⟩, hlive⟩

/-- **No space is lost.** In every run that never wraps over a freed newest
chunk, once no chunk is in use the allocator is back in its initial state. -/
theorem cba_reclaims_pool {size : Nat} (hsize : size ≤ 4099) {w : CbaWorld}
    (hw : (reclaimSystem size).Reachable w) (hnone : w.live = []) :
    w.heap.cba.freeIdx = 0 ∧ w.heap.cba.headIdx = 0 ∧ w.heap.cba.tailIdx = 0 := by
  obtain ⟨_, bs, hinv, hlive⟩ := reclaimSystem_invariant hsize w hw
  cases bs with
  | nil => exact hinv.chain.freeIdx_of_nil
  | cons b bs =>
      have hmem := hlive b List.mem_cons_self (hinv.chain.oldest b rfl)
      rw [hnone] at hmem
      cases hmem

/-- In a pool of 44 bytes chunks of 20, 4 and 4 bytes are allocated, and the first is freed. A
request of 12 bytes wraps and stretches the last chunk, which is in use. -/
def wrappedWorld : CbaWorld :=
  let w := (((⟨cbaInit (fun _ => 0) 16 44, []⟩ : CbaWorld).malloc 20).malloc 4).malloc 4
  (w.free 20).malloc 12

/-- The chunks are freed from the middle on, the oldest one last. -/
theorem cba_reclaims_pool_wrapped :
    let w := ((wrappedWorld.free 52).free 20).free 44
    wrappedWorld.heap.cba.freeIdx < wrappedWorld.heap.cba.tailIdx ∧
      wrappedWorld.live = [20, 52, 44] ∧ w.live = [] ∧
      w.heap.cba.freeIdx = 0 ∧ w.heap.cba.headIdx = 0 ∧ w.heap.cba.tailIdx = 0 := by
  have hlive : (((wrappedWorld.free 52).free 20).free 44).live = [] := by decide +kernel
  have h0 : (reclaimSystem 44).Reachable ⟨cbaInit (fun _ => 0) 16 44, []⟩ :=
    .init ⟨fun _ => 0, 16, rfl⟩
  have h1 := reclaimSystem_malloc 20 h0 (by decide) (by decide +kernel)
  have h2 := reclaimSystem_malloc 4 h1 (by decide) (by decide +kernel)
  have h3 := reclaimSystem_malloc 4 h2 (by decide) (by decide +kernel)
  have h4 := reclaimSystem_free 20 h3 (by decide +kernel)
  have h5 := reclaimSystem_malloc 12 h4 (by decide) (by decide +kernel)
  have h6 := reclaimSystem_free 52 h5 (by decide +kernel)
  have h7 := reclaimSystem_free 20 h6 (by decide +kernel)
  have h8 := reclaimSystem_free 44 h7 (by decide +kernel)
  exact ⟨by decide +kernel, by decide +kernel, hlive, cba_reclaims_pool (by decide) h8 hlive⟩

/-- The leak. In a pool of 44 bytes chunks of 20, 4 and 4 bytes are allocated;
the first and the last are freed; a request of 12 bytes wraps and marks the
freed last chunk bound again. When the two remaining chunks are freed nothing
is in use, but the tail stands before the leaked chunk. -/
def leakWorld : CbaWorld :=
  let w := (((⟨cbaInit (fun _ => 0) 0 44, []⟩ : CbaWorld).malloc 20).malloc 4).malloc 4
  (((w.free 4).free 36).malloc 12).free 28 |>.free 4

theorem cba_reclaims_pool_fails :
    ¬ ∀ (size : Nat) (w : CbaWorld), size ≤ 4099 → (cbaSystem size).Reachable w → w.live = [] →
      w.heap.cba.freeIdx = 0 ∧ w.heap.cba.headIdx = 0 ∧ w.heap.cba.tailIdx = 0 := by
  intro hclaim
  have hreach : (cbaSystem 44).Reachable leakWorld := by
    have h1 := cbaSystem_malloc 20 (cbaSystem_init 44 0 fun _ => 0) (by decide)
    have h2 := cbaSystem_malloc 4 h1 (by decide)
    have h3 := cbaSystem_malloc 4 h2 (by decide)
    have h4 := cbaSystem_free 4 h3 (by decide +kernel)
    have h5 := cbaSystem_free 36 h4 (by decide +kernel)
    have h6 := cbaSystem_malloc 12 h5 (by decide)
    have h7 := cbaSystem_free 28 h6 (by decide +kernel)
    exact cbaSystem_free 4 h7 (by decide +kernel)
  have hlive : leakWorld.live = [] := by decide +kernel
  have htail : leakWorld.heap.cba.tailIdx ≠ 0 := by decide +kernel
  exact htail (hclaim 44 leakWorld (by decide) hreach hlive).2.2

end EmbeddedMx
