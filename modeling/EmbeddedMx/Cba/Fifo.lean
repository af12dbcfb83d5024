import EmbeddedMx.Cba.Objects

/-!
# Objects freed in the order of their allocation

A client that frees its objects oldest first leaves no gaps in the header
chain: the chunks of the chain are exactly its objects, in the order of their
allocation, and all of them are bound. So the wrap step never meets a freed
chunk, and once the client holds nothing the chain is empty.
-/

namespace EmbeddedMx

open EmbeddedMx.Lib

/-- The object `o` has the bound chunk `b`. -/
structure Cba.Carries (c : Cba) (b : Block) (o : HeapObj) : Prop where
  bound : b.bound = true
  ptr : o.ptr = c.chunk b
  size : o.size ≤ b.len

/-- The chunks of the chain carry the objects `objs`, oldest first, and nothing else. -/
def HeapFifo (h : Heap) (objs : List HeapObj) : Prop :=
  ∃ bs, CbaInv h bs ∧ List.Forall₂ h.cba.Carries bs objs

theorem cbaInit_fifo (m : Mem) (buffer : Nat) {len : Nat} (hlen : len < 2 ^ 16) :
    HeapFifo (cbaInit m buffer len) [] :=
  ⟨[], cbaInit_inv m buffer hlen, .nil⟩

theorem Cba.Carries.exists_block {c : Cba} {bs : List Block} {objs : List HeapObj}
    (hall : List.Forall₂ c.Carries bs objs) {o : HeapObj} (ho : o ∈ objs) :
    ∃ b ∈ bs, c.Carries b o := by
  induction hall with
  | nil => cases ho
  | cons hb _ ih =>
      rcases List.mem_cons.mp ho with rfl | ho
      · exact ⟨_, List.mem_cons_self, hb⟩
      · obtain ⟨b, hmem, hcarries⟩ := ih ho
        exact ⟨b, List.mem_cons_of_mem _ hmem, hcarries⟩

theorem Cba.Carries.exists_obj {c : Cba} {bs : List Block} {objs : List HeapObj}
    (hall : List.Forall₂ c.Carries bs objs) {b : Block} (hb : b ∈ bs) :
    ∃ o ∈ objs, c.Carries b o := by
  induction hall with
  | nil => cases hb
  | cons hcarries _ ih =>
      rcases List.mem_cons.mp hb with rfl | hb
      · exact ⟨_, List.mem_cons_self, hcarries⟩
      · obtain ⟨o, hmem, ho⟩ := ih hb
        exact ⟨o, List.mem_cons_of_mem _ hmem, ho⟩

/-- A grown chain carries the same objects. -/
theorem Grown.carries {c c' : Cba} (hbuf : c'.buffer = c.buffer) {bs old : List Block}
    (hg : Grown bs old) {objs : List HeapObj} (hall : List.Forall₂ c.Carries bs objs) :
    List.Forall₂ c'.Carries old objs := by
  induction hg generalizing objs with
  | nil =>
      cases hall
      exact .nil
  | cons hbc _ ih =>
      cases hall with
      | cons hb hrest =>
          obtain ⟨hidx, hlen, hbound⟩ := hbc
          refine .cons ⟨hbound hb.bound, ?_, hb.size.trans hlen⟩ (ih hrest)
          rw [hb.ptr, Cba.chunk, Cba.chunk, hbuf, hidx]

/-- Freeing the oldest chunk of a chain of bound chunks takes it out and no other. -/
theorem releaseBlocks_head {b : Block} {bs : List Block} (hbound : ∀ c ∈ bs, c.bound = true)
    (hne : ∀ c ∈ bs, c.idx ≠ b.idx) : releaseBlocks b.idx (b :: bs) = bs := by
  have hsame : bs.map (Block.unbindAt b.idx) = bs := by
    refine (List.map_congr_left fun c hc => ?_).trans (List.map_id bs)
    exact if_neg (hne c hc)
  have hfirst : (b.unbindAt b.idx).bound = false := by simp [Block.unbindAt]
  rw [releaseBlocks, List.map_cons, hsame, List.dropWhile_cons_of_pos (by simp [hfirst])]
  cases bs with
  | nil => rfl
  | cons c bs =>
      apply List.dropWhile_cons_of_neg
      simp [hbound c List.mem_cons_self]

namespace HeapFifo

variable {h : Heap} {objs : List HeapObj}

theorem holds (hf : HeapFifo h objs) : HeapHolds h objs := by
  obtain ⟨bs, hinv, hall⟩ := hf
  refine ⟨bs, hinv, fun o ho => ?_⟩
  obtain ⟨b, hb, hcarries⟩ := Cba.Carries.exists_block hall ho
  exact ⟨b, hb, hcarries.bound, hcarries.ptr, hcarries.size⟩

/-- Writing into objects keeps the chain. -/
theorem write (hf : HeapFifo h objs) {m : Mem}
    (hm : ∀ x, (∀ o ∈ objs, x < o.ptr ∨ o.ptr + o.size ≤ x) → m x = h.mem x) :
    HeapFifo { h with mem := m } objs := by
  obtain ⟨bs, hinv, hall⟩ := hf
  refine ⟨bs, hinv.write_mem fun x hx => hm x fun o ho => ?_, hall⟩
  obtain ⟨b, hb, hcarries⟩ := Cba.Carries.exists_block hall ho
  have hout := hx b hb
  have hsize := hcarries.size
  rw [hcarries.ptr]
  omega

/-- An accepted call of `cba_malloc` adds the youngest object. -/
theorem malloc (hf : HeapFifo h objs) {len : Nat} (hfits : CbaFits h len) (hlen : len ≤ 65532) :
    cbaMalloc h len = (h, 0) ∨
      HeapFifo (cbaMalloc h len).1 (objs ++ [⟨(cbaMalloc h len).2, len⟩]) := by
  obtain ⟨bs, hinv, hall⟩ := hf
  have hinv' := cbaMalloc_inv hinv hfits
  rcases cbaMalloc_cases hinv hfits with ⟨heq, _⟩ | ⟨old, i, hbs, hg, hptr, hbuf, _, _⟩
  · exact .inl heq
  · rw [hbs] at hinv'
    refine .inr ⟨_, hinv', List.rel_append (hg.carries hbuf hall) (.cons ⟨rfl, ?_, ?_⟩ .nil)⟩
    · show (cbaMalloc h len).2 = _
      rw [hptr, Cba.chunk, hbuf]
    · exact le_cbaChunkLen hlen

/-- Freeing the oldest object leaves the others, in their order. -/
theorem free {o : HeapObj} (hf : HeapFifo h (o :: objs)) : HeapFifo (cbaFree h o.ptr) objs := by
  obtain ⟨bs, hinv, hall⟩ := hf
  cases hall with
  | @cons b _ bs _ hcarries hrest =>
      obtain ⟨hchain, hbuf, _, _⟩ := cbaFree_inv hinv List.mem_cons_self
      have hbound : ∀ c ∈ bs, c.bound = true := by
        intro c hc
        obtain ⟨_, _, hcarries⟩ := Cba.Carries.exists_obj hrest hc
        exact hcarries.bound
      have hne : ∀ c ∈ bs, c.idx ≠ b.idx := by
        have hnodup := hinv.ring.idx_nodup cbaHeaderLen_pos
        rw [List.map_cons, List.nodup_cons] at hnodup
        intro c hc heq
        exact hnodup.1 (heq ▸ List.mem_map_of_mem hc)
      rw [releaseBlocks_head hbound hne] at hchain
      rw [hcarries.ptr]
      exact ⟨bs, hchain, (Grown.refl bs).carries hbuf hrest⟩

/-- Nothing held: the allocator is as `cba_init` left it. -/
theorem reset (hf : HeapFifo h []) :
    h.cba.freeIdx = 0 ∧ h.cba.headIdx = 0 ∧ h.cba.tailIdx = 0 := by
  obtain ⟨bs, hinv, hall⟩ := hf
  cases hall
  exact hinv.freeIdx_of_nil

end HeapFifo

end EmbeddedMx
