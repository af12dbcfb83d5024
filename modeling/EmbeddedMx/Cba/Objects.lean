import EmbeddedMx.Cba.Isolation

/-!
# Objects in the heap

What a client of the allocator relies on: it holds a set of objects, each in a
live chunk of its own. `cba_malloc` adds one and `cba_free` removes one, and
neither changes a byte of the others.
-/

namespace EmbeddedMx

open EmbeddedMx.Lib

/-- An allocated object: its address and the bytes its owner may use. -/
structure HeapObj where
  ptr : Nat
  size : Nat
deriving DecidableEq, Repr

/-- The heap is well formed and holds the objects `objs`. -/
def HeapHolds (h : Heap) (objs : List HeapObj) : Prop :=
  ∃ bs, CbaInv h bs ∧
    ∀ o ∈ objs, ∃ b ∈ bs, b.bound = true ∧ o.ptr = h.cba.chunk b ∧ o.size ≤ b.len

/-- The bytes of `o` are the same in both memories. -/
def HeapObj.Kept (o : HeapObj) (m m' : Mem) : Prop :=
  ∀ x, o.ptr ≤ x → x < o.ptr + o.size → m' x = m x

theorem cbaInit_holds (m : Mem) (buffer : Nat) {len : Nat} (hlen : len < 2 ^ 16) :
    HeapHolds (cbaInit m buffer len) [] :=
  ⟨[], cbaInit_inv m buffer hlen, by simp⟩

/-- Writing into chunk bodies keeps the chain. -/
theorem CbaInv.write_mem {h : Heap} {bs : List Block} (hinv : CbaInv h bs) {m : Mem}
    (hm : ∀ x, (∀ b ∈ bs, x < h.cba.chunk b ∨ h.cba.chunk b + b.len ≤ x) → m x = h.mem x) :
    CbaInv { h with mem := m } bs := by
  refine ⟨hinv.size_lt, hinv.ring, hinv.head, hinv.empty, hinv.oldest, ?_⟩
  intro c hc
  refine (hinv.headers c hc).congr fun x hx hxn => hm x fun b hb => ?_
  have hdis := hinv.ring.eq_or_disjoint hb hc
  unfold Block.stop at hdis
  unfold Cba.chunk
  rcases hdis with rfl | hdis <;> omega

namespace HeapHolds

variable {h : Heap} {objs : List HeapObj}

theorem subset (hh : HeapHolds h objs) {objs' : List HeapObj} (hsub : ∀ o ∈ objs', o ∈ objs) :
    HeapHolds h objs' := by
  obtain ⟨bs, hinv, hobjs⟩ := hh
  exact ⟨bs, hinv, fun o ho => hobjs o (hsub o ho)⟩

theorem apart (hh : HeapHolds h objs) {o o' : HeapObj} (ho : o ∈ objs) (ho' : o' ∈ objs)
    (hne : o.ptr ≠ o'.ptr) : Apart o.ptr o.size o'.ptr o'.size := by
  obtain ⟨bs, hinv, hobjs⟩ := hh
  obtain ⟨b, hb, _, hp, hsize⟩ := hobjs o ho
  obtain ⟨c, hc, _, hq, hsize'⟩ := hobjs o' ho'
  have hdis := hinv.ring.eq_or_disjoint hb hc
  unfold Block.stop at hdis
  unfold Cba.chunk at hp hq
  unfold Apart
  rcases hdis with rfl | hdis
  · exact absurd (hp.trans hq.symm) hne
  · omega

/-- Objects lie in the pool. -/
theorem bounds (hh : HeapHolds h objs) {o : HeapObj} (ho : o ∈ objs) :
    h.cba.buffer + cbaHeaderLen ≤ o.ptr ∧ o.ptr + o.size ≤ h.cba.buffer + h.cba.size := by
  obtain ⟨bs, hinv, hobjs⟩ := hh
  obtain ⟨b, hb, _, hp, hsize⟩ := hobjs o ho
  have hbound := hinv.ring.mem_bounds b hb
  unfold Block.stop at hbound
  unfold Cba.chunk at hp
  omega

/-- Writing into objects keeps the heap. -/
theorem write (hh : HeapHolds h objs) {m : Mem}
    (hm : ∀ x, (∀ o ∈ objs, x < o.ptr ∨ o.ptr + o.size ≤ x) → m x = h.mem x) :
    HeapHolds { h with mem := m } objs := by
  obtain ⟨bs, hinv, hobjs⟩ := hh
  refine ⟨bs, hinv.write_mem fun x hx => hm x fun o ho => ?_, hobjs⟩
  obtain ⟨b, hb, _, hp, hsize⟩ := hobjs o ho
  have hout := hx b hb
  omega

/-- A call of `cba_malloc` refuses without effect, or returns a new object and
keeps the others. -/
theorem malloc (hh : HeapHolds h objs) {len : Nat} (hfits : CbaFits h len)
    (hlen : len ≤ 65532) :
    cbaMalloc h len = (h, 0) ∨
    ((cbaMalloc h len).2 ≠ 0 ∧
      HeapHolds (cbaMalloc h len).1 (⟨(cbaMalloc h len).2, len⟩ :: objs) ∧
      (∀ o ∈ objs, o.ptr ≠ (cbaMalloc h len).2 ∧ o.Kept h.mem (cbaMalloc h len).1.mem) ∧
      (cbaMalloc h len).1.cba.buffer = h.cba.buffer ∧
      (cbaMalloc h len).1.cba.size = h.cba.size) := by
  obtain ⟨bs, hinv, hobjs⟩ := hh
  have hinv' := cbaMalloc_inv hinv hfits
  have hkept : ∀ o ∈ objs, o.Kept h.mem (cbaMalloc h len).1.mem := by
    intro o ho x hx hxn
    obtain ⟨b, hb, _, hp, hsize⟩ := hobjs o ho
    exact cbaMalloc_body hinv hfits hb (by omega) (by omega)
  rcases cbaMalloc_cases hinv hfits with ⟨heq, _⟩ | ⟨old, i, hbs, hg, hptr, hbuf, hsize, _⟩
  · exact .inl heq
  · rw [hbs] at hinv'
    have hpos := cbaHeaderLen_pos
    -- the old objects keep their address and have at least their old size
    have hold : ∀ o ∈ objs, ∃ c ∈ old, c.bound = true ∧
        o.ptr = (cbaMalloc h len).1.cba.chunk c ∧ o.size ≤ c.len := by
      intro o ho
      obtain ⟨b, hb, hbound, hp, hle⟩ := hobjs o ho
      obtain ⟨c, hc, hidx, hlen, hcb⟩ := hg.exists_mem hb
      exact ⟨c, hc, hcb hbound, by rw [hp, Cba.chunk, Cba.chunk, hbuf, hidx], hle.trans hlen⟩
    refine .inr ⟨by omega, ⟨_, hinv', ?_⟩, ?_, hbuf, hsize⟩
    · intro o ho
      rcases List.mem_cons.mp ho with rfl | ho
      · exact ⟨_, List.mem_append_right _ (List.mem_singleton.mpr rfl), rfl,
          by rw [hptr, Cba.chunk, hbuf], le_cbaChunkLen hlen⟩
      · obtain ⟨c, hc, hrest⟩ := hold o ho
        exact ⟨c, List.mem_append_left _ hc, hrest⟩
    · intro o ho
      refine ⟨?_, hkept o ho⟩
      intro heq
      obtain ⟨c, hc, _, hp, _⟩ := hold o ho
      have hnodup := hinv'.ring.idx_nodup hpos
      rw [List.map_append, List.nodup_append] at hnodup
      refine hnodup.2.2 c.idx (List.mem_map_of_mem hc) i (by simp) ?_
      rw [heq, hptr, Cba.chunk, hbuf] at hp
      omega

/-- Freeing an object keeps the others. -/
theorem free (hh : HeapHolds h objs) {o : HeapObj} (ho : o ∈ objs) {objs' : List HeapObj}
    (hrest : ∀ o' ∈ objs', o' ∈ objs ∧ o'.ptr ≠ o.ptr) :
    HeapHolds (cbaFree h o.ptr) objs' ∧
      (∀ o' ∈ objs, o'.Kept h.mem (cbaFree h o.ptr).mem) ∧
      (cbaFree h o.ptr).cba.buffer = h.cba.buffer ∧
      (cbaFree h o.ptr).cba.size = h.cba.size := by
  obtain ⟨bs, hinv, hobjs⟩ := hh
  obtain ⟨b, hb, _, hp, _⟩ := hobjs o ho
  obtain ⟨hchain, hbuf, hsize, hframe⟩ := cbaFree_inv hinv hb
  rw [hp]
  refine ⟨⟨_, hchain, ?_⟩, ?_, hbuf, hsize⟩
  · intro o' ho'
    obtain ⟨ho', hne⟩ := hrest o' ho'
    obtain ⟨c, hc, hcb, hq, hle⟩ := hobjs o' ho'
    refine ⟨c, mem_releaseBlocks hc hcb ?_, hcb, ?_, hle⟩
    · intro hidx
      exact hne (by rw [hp, hq, Cba.chunk, Cba.chunk, hidx])
    · rw [hq, Cba.chunk, Cba.chunk, hbuf]
  · intro o' ho' x hx hxn
    obtain ⟨c, hc, _, hq, hle⟩ := hobjs o' ho'
    exact hframe.body hinv.ring hc (by omega) (by omega)

/-- In a pool of at most 4099 bytes every length fits. -/
theorem fits (hh : HeapHolds h objs) (hsize : h.cba.size ≤ 4099) (len : Nat) :
    CbaFits h len := by
  obtain ⟨bs, hinv, _⟩ := hh
  exact hinv.fits_of_size hsize len

end HeapHolds

end EmbeddedMx
