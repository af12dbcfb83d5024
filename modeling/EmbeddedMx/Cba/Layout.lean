import EmbeddedMx.Cba.Objects

/-!
# The chain is all there is

The headers in the pool determine the chain, and the chain determines the indices. So two
heaps over pools of one size and address that have the same chain, whatever else their memory
holds, are in the same state: they give out the same addresses, and have the same chain
afterwards.
-/

namespace EmbeddedMx

open EmbeddedMx.Lib

theorem HeaderOk.unique {m : Mem} {hd : Nat} {b c : Block} (hb : HeaderOk m hd b)
    (hc : HeaderOk m hd c) (hidx : b.idx = c.idx) : b = c := by
  have hlen : b.len = c.len := hb.len.symm.trans hc.len
  have hbound : b.bound.toNat = c.bound.toNat := hb.bound.symm.trans hc.bound
  obtain ⟨idx, len, bound⟩ := b
  obtain ⟨idx', len', bound'⟩ := c
  cases bound <;> cases bound' <;> simp_all

/-- The headers between the tail and the free space determine the chain. -/
theorem chain_unique {m : Mem} {buffer size start stop : Nat} {bs cs : List Block}
    (hb : RingLayout cbaHeaderLen size start bs stop)
    (hc : RingLayout cbaHeaderLen size start cs stop)
    (hheadersb : ∀ b ∈ bs, HeaderOk m (buffer + b.idx) b)
    (hheadersc : ∀ c ∈ cs, HeaderOk m (buffer + c.idx) c) : bs = cs := by
  induction bs generalizing start cs with
  | nil =>
      cases cs with
      | nil => rfl
      | cons c cs => exact absurd hb.nil_eq (hc.start_ne_stop cbaHeaderLen_pos (List.cons_ne_nil _ _))
  | cons b bs ih =>
      cases cs with
      | nil => exact absurd hc.nil_eq (hb.start_ne_stop cbaHeaderLen_pos (List.cons_ne_nil _ _))
      | cons c cs =>
          have hidx : b.idx = c.idx := hb.head_idx.trans hc.head_idx.symm
          have hokb := hheadersb b List.mem_cons_self
          have hokc := hheadersc c List.mem_cons_self
          rw [← hidx] at hokc
          -- both chains begin with the header at the tail, and go on where it ends
          obtain rfl := hokb.unique hokc hidx
          have hpop := hb.pop cbaHeaderLen_pos
          rw [ih hpop (hc.pop cbaHeaderLen_pos)
            (fun b hb => hheadersb b (List.mem_cons_of_mem _ hb))
            (fun c hc => hheadersc c (List.mem_cons_of_mem _ hc))]

theorem CbaInv.unique {h : Heap} {bs cs : List Block} (hb : CbaInv h bs) (hc : CbaInv h cs) :
    bs = cs :=
  chain_unique hb.ring hc.ring hb.headers hc.headers

/-- The chain determines the indices. -/
theorem CbaInv.cba_eq {h h' : Heap} {bs : List Block} (hinv : CbaInv h bs) (hinv' : CbaInv h' bs)
    (hbuffer : h'.cba.buffer = h.cba.buffer) (hsize : h'.cba.size = h.cba.size) :
    h'.cba = h.cba := by
  have hindices : h'.cba.freeIdx = h.cba.freeIdx ∧ h'.cba.headIdx = h.cba.headIdx ∧
      h'.cba.tailIdx = h.cba.tailIdx := by
    rcases List.eq_nil_or_concat' bs with rfl | ⟨init, last, rfl⟩
    · obtain ⟨hfree, hhead, htail⟩ := hinv.freeIdx_of_nil
      obtain ⟨hfree', hhead', htail'⟩ := hinv'.freeIdx_of_nil
      exact ⟨hfree'.trans hfree.symm, hhead'.trans hhead.symm, htail'.trans htail.symm⟩
    -- the last block gives the free index and the head, the first one the tail
    · have hlast : (init ++ [last]).getLast? = some last := List.getLast?_concat
      refine ⟨hinv'.ring.stop_last.trans hinv.ring.stop_last.symm,
        (hinv'.head last hlast).trans (hinv.head last hlast).symm, ?_⟩
      have hring := hinv.ring
      have hring' := hinv'.ring
      cases hbs : init ++ [last] with
      | nil => exact absurd hbs (List.concat_ne_nil _ _)
      | cons first rest =>
          rw [hbs] at hring hring'
          exact hring'.head_idx.symm.trans hring.head_idx
  obtain ⟨hfree, hhead, htail⟩ := hindices
  cases hcba : h.cba
  cases hcba' : h'.cba
  simp_all

/-! ## Two heaps with one chain -/

/-- The heaps have pools of one size at one address, and the same chain. -/
structure SameChain (h h' : Heap) : Prop where
  buffer : h'.cba.buffer = h.cba.buffer
  size : h'.cba.size = h.cba.size
  chain : ∃ bs, CbaInv h bs ∧ CbaInv h' bs

namespace SameChain

variable {h h' : Heap}

theorem cba (hs : SameChain h h') : h'.cba = h.cba := by
  obtain ⟨bs, hinv, hinv'⟩ := hs.chain
  exact hinv.cba_eq hinv' hs.buffer hs.size

/-- After `cba_init` or `cba_reset`. -/
theorem reset (hbuffer : h'.cba.buffer = h.cba.buffer) (hsize : h'.cba.size = h.cba.size)
    (hlt : h.cba.size < 2 ^ 16) : SameChain (cbaReset h) (cbaReset h') where
  buffer := hbuffer
  size := hsize
  chain := ⟨[], cbaInit_inv h.mem h.cba.buffer hlt, cbaInit_inv h'.mem h'.cba.buffer (hsize ▸ hlt)⟩

theorem fits (hs : SameChain h h') {len : Nat} (hfits : CbaFits h len) : CbaFits h' len := by
  have hcba := hs.cba
  unfold CbaFits cbaPlacement cbaStretchLen at hfits ⊢
  rw [hcba]
  exact hfits

/-- The same address, or `NULL` for both. -/
theorem malloc (hs : SameChain h h') {len : Nat} (hfits : CbaFits h len) :
    (cbaMalloc h' len).2 = (cbaMalloc h len).2 ∧
      SameChain (cbaMalloc h len).1 (cbaMalloc h' len).1 := by
  obtain ⟨bs, hinv, hinv'⟩ := hs.chain
  have hcba := hs.cba
  have hplace : cbaPlacement h' len = cbaPlacement h len := by
    unfold cbaPlacement
    rw [hcba]
  have hblocks : mallocBlocks h' len bs = mallocBlocks h len bs := by
    unfold mallocBlocks
    rw [hplace, hcba]
  have hchain := cbaMalloc_inv hinv hfits
  have hchain' := cbaMalloc_inv hinv' (hs.fits hfits)
  rw [hblocks] at hchain'
  have hfits' := hs.fits hfits
  unfold CbaFits at hfits hfits'
  cases hp : cbaPlacement h len with
  | refuse =>
      rw [cbaMalloc_refuse hp, cbaMalloc_refuse (hplace.trans hp)]
      exact ⟨rfl, hs⟩
  | atFree =>
      rw [hp] at hfits
      have heq := cbaMalloc_atFree hinv hp hfits
      have heq' := cbaMalloc_atFree hinv' (hplace.trans hp) hfits
      refine ⟨?_, ⟨?_, ?_, ⟨_, hchain, hchain'⟩⟩⟩
      · rw [heq, heq', hcba]
      · rw [heq, heq']
        exact hs.buffer
      · rw [heq, heq']
        exact hs.size
  | wrap =>
      rw [hp] at hfits
      rw [hplace, hp] at hfits'
      have heq := cbaMalloc_wrap hinv hp hfits.1 hfits.2
      have heq' := cbaMalloc_wrap hinv' (hplace.trans hp) hfits'.1 hfits'.2
      refine ⟨?_, ⟨?_, ?_, ⟨_, hchain, hchain'⟩⟩⟩
      · rw [heq, heq', hcba]
      · rw [heq, heq']
        exact hs.buffer
      · rw [heq, heq']
        exact hs.size

/-- An object of both heaps is freed. -/
theorem free (hs : SameChain h h') {objs : List HeapObj} (hh : HeapHolds h objs) {o : HeapObj}
    (ho : o ∈ objs) : SameChain (cbaFree h o.ptr) (cbaFree h' o.ptr) := by
  obtain ⟨bs, hinv, hinv'⟩ := hs.chain
  obtain ⟨cs, hinv₁, hobjs⟩ := hh
  obtain rfl := hinv.unique hinv₁
  obtain ⟨b, hb, -, hptr, -⟩ := hobjs o ho
  have hptr' : o.ptr = h'.cba.chunk b := by rw [hptr, hs.cba]
  obtain ⟨hchain, hbuffer, hsize, -⟩ := cbaFree_inv hinv hb
  obtain ⟨hchain', hbuffer', hsize', -⟩ := cbaFree_inv hinv' hb
  rw [← hptr] at hchain hbuffer hsize
  rw [← hptr'] at hchain' hbuffer' hsize'
  exact ⟨hbuffer'.trans (hs.buffer.trans hbuffer.symm), hsize'.trans (hs.size.trans hsize.symm),
    ⟨_, hchain, hchain'⟩⟩

/-- Both owners write to the objects that they hold. -/
theorem write (hs : SameChain h h') {objs : List HeapObj} (hh : HeapHolds h objs)
    (hh' : HeapHolds h' objs) {m m' : Mem}
    (hm : ∀ x, (∀ o ∈ objs, x < o.ptr ∨ o.ptr + o.size ≤ x) → m x = h.mem x)
    (hm' : ∀ x, (∀ o ∈ objs, x < o.ptr ∨ o.ptr + o.size ≤ x) → m' x = h'.mem x) :
    SameChain { h with mem := m } { h' with mem := m' } := by
  have hkeeps : ∀ {h : Heap} {bs : List Block} {m : Mem}, CbaInv h bs → HeapHolds h objs →
      (∀ x, (∀ o ∈ objs, x < o.ptr ∨ o.ptr + o.size ≤ x) → m x = h.mem x) →
      CbaInv { h with mem := m } bs := by
    intro h bs m hinv hh hm
    obtain ⟨cs, hinv₁, hobjs⟩ := hh
    obtain rfl := hinv.unique hinv₁
    refine hinv.write_mem fun x hx => hm x fun o ho => ?_
    obtain ⟨b, hb, -, hptr, hle⟩ := hobjs o ho
    have hout := hx b hb
    omega
  obtain ⟨bs, hinv, hinv'⟩ := hs.chain
  exact ⟨hs.buffer, hs.size, ⟨bs, hkeeps hinv hh hm, hkeeps hinv' hh' hm'⟩⟩

end SameChain

end EmbeddedMx
