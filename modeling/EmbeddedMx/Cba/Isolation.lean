import EmbeddedMx.Lib.TSys
import EmbeddedMx.Cba.Chain

/-!
# Memory isolation

The allocator and its users as a transition system: users allocate, free chunks
they hold, and write into the bodies of chunks they hold. Every live chunk is a
bound chunk of the header chain (`CbaWorldInv`), so the extents of live chunks
are disjoint and inside the pool, and neither `cba_malloc` nor `cba_free`
changes a byte in them.
-/

namespace EmbeddedMx

open EmbeddedMx.Lib

/-- The allocator and the chunks its users hold. -/
structure CbaWorld where
  heap : Heap
  live : List Nat

/-- What a user of the allocator can do. -/
inductive CbaOp
  | malloc (len : Nat)
  | free (chunk : Nat)
  | write (chunk off : Nat) (bytes : List UInt8)
deriving DecidableEq, Repr

/-- `chunk_len` in the header of `chunk`. -/
def Heap.recordedLen (h : Heap) (chunk : Nat) : Nat :=
  headerChunkLen h.mem (h.cba.buffer + cbaChunkIdx h chunk)

/-- The user keeps the pointer `cba_malloc` returned unless it is `NULL`. -/
def CbaWorld.malloc (w : CbaWorld) (len : Nat) : CbaWorld :=
  let r := cbaMalloc w.heap len
  { heap := r.1, live := if r.2 = 0 then w.live else r.2 :: w.live }

def CbaWorld.free (w : CbaWorld) (chunk : Nat) : CbaWorld :=
  { heap := cbaFree w.heap chunk, live := w.live.erase chunk }

/-- Only chunks that are held may be freed or written, and writes stay inside
the recorded body. -/
inductive CbaStep : CbaWorld → CbaOp → CbaWorld → Prop
  | malloc {w len} : len < 2 ^ 16 → CbaStep w (.malloc len) (w.malloc len)
  | free {w chunk} : chunk ∈ w.live →
      CbaStep w (.free chunk) (w.free chunk)
  | write {w chunk off bytes} : chunk ∈ w.live →
      off + bytes.length ≤ w.heap.recordedLen chunk →
      CbaStep w (.write chunk off bytes)
        { w with heap := { w.heap with mem := w.heap.mem.write (chunk + off) bytes } }

/-- The runs of an allocator over a pool of `size` bytes, anywhere in memory. -/
def cbaSystem (size : Nat) : TSys CbaWorld CbaOp where
  init w := ∃ m buffer, w = ⟨cbaInit m buffer size, []⟩
  step := CbaStep

theorem cbaSystem_init (size buffer : Nat) (m : Mem) :
    (cbaSystem size).Reachable ⟨cbaInit m buffer size, []⟩ :=
  .init ⟨m, buffer, rfl⟩

theorem cbaSystem_malloc {size : Nat} {w : CbaWorld} (len : Nat)
    (h : (cbaSystem size).Reachable w) (hlen : len < 2 ^ 16) :
    (cbaSystem size).Reachable (w.malloc len) :=
  .step h (.malloc hlen)

theorem cbaSystem_free {size : Nat} {w : CbaWorld} (chunk : Nat)
    (h : (cbaSystem size).Reachable w) (hmem : chunk ∈ w.live) :
    (cbaSystem size).Reachable (w.free chunk) :=
  .step h (.free hmem)

/-- The chunks in use are bound chunks of the header chain. -/
structure CbaWorldInv (w : CbaWorld) (bs : List Block) : Prop where
  chain : CbaInv w.heap bs
  nodup : w.live.Nodup
  live : ∀ p ∈ w.live, ∃ b ∈ bs, b.bound = true ∧ p = w.heap.cba.chunk b

/-- In a pool of at most 4099 bytes every length fits the twelve bit field. -/
theorem CbaInv.fits_of_size {h : Heap} {bs : List Block} (hinv : CbaInv h bs)
    (hsize : h.cba.size ≤ 4099) (len : Nat) : CbaFits h len := by
  unfold CbaFits
  have hlen : cbaHeaderLen = 4 := rfl
  cases hp : cbaPlacement h len with
  | refuse => trivial
  | atFree =>
      have hroom := (hinv.atFree_room hp).lt_size hinv
      show cbaChunkLen len < 2 ^ 12
      omega
  | wrap =>
      obtain ⟨_, hroom, _, _, _, _, _, _, hstretch⟩ := hinv.wrap_room hp
      show cbaChunkLen len < 2 ^ 12 ∧ cbaStretchLen h < 2 ^ 12
      omega

theorem CbaInv.chunk_inj {h : Heap} {bs : List Block} (hinv : CbaInv h bs) {b c : Block}
    (hb : b ∈ bs) (hc : c ∈ bs) (heq : h.cba.chunk b = h.cba.chunk c) : b = c := by
  apply hinv.ring.idx_inj cbaHeaderLen_pos hb hc
  unfold Cba.chunk at heq
  omega

/-- No older chunk has the address of the newest one. -/
theorem CbaInv.chunk_ne_last {h : Heap} {old : List Block} {b c : Block}
    (hinv : CbaInv h (old ++ [b])) (hc : c ∈ old) : h.cba.chunk c ≠ h.cba.chunk b := by
  have hdis := (List.pairwise_append.mp hinv.ring.pairwise).2.2 c hc b (List.mem_singleton_self b)
  have := cbaHeaderLen_pos
  unfold Block.stop at hdis
  unfold Cba.chunk
  omega

theorem CbaInv.recordedLen_chunk {h : Heap} {bs : List Block} (hinv : CbaInv h bs) {b : Block}
    (hb : b ∈ bs) : h.recordedLen (h.cba.chunk b) = b.len := by
  rw [Heap.recordedLen, cbaChunkIdx_chunk hinv hb]
  exact (hinv.headers b hb).len

/-- Writing into the body of a chunk of the chain keeps every header. -/
theorem CbaInv.write_body {h : Heap} {bs : List Block} (hinv : CbaInv h bs) {b : Block}
    (hb : b ∈ bs) {off : Nat} {bytes : List UInt8} (hoff : off + bytes.length ≤ b.len) :
    CbaInv { h with mem := h.mem.write (h.cba.chunk b + off) bytes } bs where
  size_lt := hinv.size_lt
  ring := hinv.ring
  head := hinv.head
  empty := hinv.empty
  oldest := hinv.oldest
  headers := by
    intro c hc
    refine (hinv.headers c hc).congr fun x hx hxn => Mem.write_of_outside _ _ _ ?_
    have hdis := hinv.ring.eq_or_disjoint hb hc
    unfold Cba.chunk
    unfold Block.stop at hdis
    rcases hdis with rfl | hdis <;> omega

/-- A malloc step keeps the invariant if its lengths fit the header. -/
theorem CbaWorldInv.malloc {w : CbaWorld} {bs : List Block} {len : Nat} (hinv : CbaWorldInv w bs)
    (hfits : CbaFits w.heap len) : CbaWorldInv (w.malloc len) (mallocBlocks w.heap len bs) := by
  have hchain := cbaMalloc_inv hinv.chain hfits
  rcases cbaMalloc_cases hinv.chain hfits with
    ⟨heq, hbs⟩ | ⟨old, i, hbs, hg, hptr, hbuf, _, _⟩
  · rw [hbs]
    simp only [CbaWorld.malloc, heq, if_true]
    exact hinv
  · have hne : (cbaMalloc w.heap len).2 ≠ 0 := by
      have := cbaHeaderLen_pos
      omega
    -- old chunks keep their address
    have hold : ∀ p ∈ w.live, ∃ c ∈ old, c.bound = true ∧
        p = (cbaMalloc w.heap len).1.cba.chunk c := by
      intro p hp
      obtain ⟨b, hb, hbound, rfl⟩ := hinv.live p hp
      obtain ⟨c, hc, hidx, _, hcb⟩ := hg.exists_mem hb
      exact ⟨c, hc, hcb hbound, by rw [Cba.chunk, Cba.chunk, hbuf, hidx]⟩
    rw [hbs] at hchain ⊢
    refine ⟨hchain, ?_, ?_⟩
    · simp only [CbaWorld.malloc, if_neg hne, List.nodup_cons]
      refine ⟨fun hmem => ?_, hinv.nodup⟩
      obtain ⟨c, hc, _, heq⟩ := hold _ hmem
      refine hchain.chunk_ne_last hc (heq.symm.trans ?_)
      rw [hptr, Cba.chunk, hbuf]
    · simp only [CbaWorld.malloc, if_neg hne]
      intro p hp
      rcases List.mem_cons.mp hp with rfl | hp
      · exact ⟨_, List.mem_append_right _ (List.mem_singleton.mpr rfl), rfl,
          by rw [hptr, Cba.chunk, hbuf]⟩
      · obtain ⟨c, hc, hcb, heq⟩ := hold p hp
        exact ⟨c, List.mem_append_left _ hc, hcb, heq⟩

/-- A free step keeps the invariant. -/
theorem CbaWorldInv.free {w : CbaWorld} {bs : List Block} (hinv : CbaWorldInv w bs) {b : Block}
    (hb : b ∈ bs) :
    CbaWorldInv (w.free (w.heap.cba.chunk b)) (releaseBlocks b.idx bs) := by
  obtain ⟨hchain, hbuf, _, _⟩ := cbaFree_inv hinv.chain hb
  refine ⟨hchain, hinv.nodup.erase _, ?_⟩
  intro q hq
  obtain ⟨hne, hq⟩ := hinv.nodup.mem_erase_iff.mp hq
  obtain ⟨c, hc, hcb, rfl⟩ := hinv.live q hq
  refine ⟨c, mem_releaseBlocks hc hcb ?_, hcb,
      by simp only [CbaWorld.free, Cba.chunk] at hbuf ⊢; rw [hbuf]⟩
  intro hidx
  exact hne (by rw [Cba.chunk, Cba.chunk, hidx])

/-- Every step whose lengths fit the header keeps the chunks in use bound. -/
theorem CbaStep.inv {w w' : CbaWorld} {op : CbaOp} {bs : List Block} (hinv : CbaWorldInv w bs)
    (hstep : CbaStep w op w') (hfits : ∀ len, op = .malloc len → CbaFits w.heap len) :
    ∃ bs', CbaWorldInv w' bs' := by
  cases hstep with
  | malloc _ => exact ⟨_, hinv.malloc (hfits _ rfl)⟩
  | free hmem =>
      obtain ⟨b, hb, _, rfl⟩ := hinv.live _ hmem
      exact ⟨_, hinv.free hb⟩
  | write hmem hoff =>
      obtain ⟨b, hb, hbound, rfl⟩ := hinv.live _ hmem
      rw [hinv.chain.recordedLen_chunk hb] at hoff
      exact ⟨bs, hinv.chain.write_body hb hoff, hinv.nodup, hinv.live⟩

theorem CbaStep.size_eq {w w' : CbaWorld} {op : CbaOp} {bs : List Block}
    (hinv : CbaWorldInv w bs) (hstep : CbaStep w op w')
    (hfits : ∀ len, op = .malloc len → CbaFits w.heap len) :
    w'.heap.cba.size = w.heap.cba.size := by
  cases hstep with
  | malloc _ =>
      rcases cbaMalloc_cases hinv.chain (hfits _ rfl) with ⟨heq, _⟩ | ⟨_, _, _, _, _, _, hsize, _⟩
      · simp [CbaWorld.malloc, heq]
      · exact hsize
  | free hmem =>
      obtain ⟨b, hb, _, rfl⟩ := hinv.live _ hmem
      exact (cbaFree_inv hinv.chain hb).2.2.1
  | write => rfl

/-- In every run over a pool of at most 4099 bytes the chunks in use are bound
chunks of a well-formed header chain. -/
theorem cbaSystem_invariant {size : Nat} (hsize : size ≤ 4099) :
    (cbaSystem size).Invariant fun w => w.heap.cba.size = size ∧ ∃ bs, CbaWorldInv w bs := by
  apply TSys.Inductive.invariant
  constructor
  · rintro w ⟨m, buffer, rfl⟩
    exact ⟨rfl, [], cbaInit_inv m buffer (by omega), List.nodup_nil, by simp⟩
  · rintro w op w' ⟨hw, bs, hinv⟩ hstep
    have hfits : ∀ len, op = .malloc len → CbaFits w.heap len :=
      fun len _ => hinv.chain.fits_of_size (by omega) len
    exact ⟨(CbaStep.size_eq hinv hstep hfits).trans hw, CbaStep.inv hinv hstep hfits⟩

/-- The extent of the chunk at `p`: its header and its recorded body, as
positions in the pool. -/
def Heap.Disjoint (h : Heap) (p q : Nat) : Prop :=
  Apart (cbaChunkIdx h p) (cbaHeaderLen + h.recordedLen p)
    (cbaChunkIdx h q) (cbaHeaderLen + h.recordedLen q)

theorem CbaInv.disjoint_chunk {h : Heap} {bs : List Block} (hinv : CbaInv h bs) {b c : Block}
    (hb : b ∈ bs) (hc : c ∈ bs) (hne : h.cba.chunk b ≠ h.cba.chunk c) :
    h.Disjoint (h.cba.chunk b) (h.cba.chunk c) := by
  unfold Heap.Disjoint Apart
  rw [cbaChunkIdx_chunk hinv hb, cbaChunkIdx_chunk hinv hc, hinv.recordedLen_chunk hb,
    hinv.recordedLen_chunk hc]
  have hdis := hinv.ring.eq_or_disjoint hb hc
  unfold Block.stop at hdis
  rcases hdis with rfl | hdis
  · exact absurd rfl hne
  · omega

/-- **Memory isolation.** In every reachable state the extents of the live
chunks are pairwise disjoint and inside the pool, and a call of `cba_malloc` or
`cba_free` changes no byte in the recorded body of any live chunk other than
the one being freed. -/
theorem cba_isolation {size : Nat} (hsize : size ≤ 4099) {w : CbaWorld}
    (hw : (cbaSystem size).Reachable w) :
    w.live.Pairwise w.heap.Disjoint ∧
    (∀ p ∈ w.live, p = w.heap.cba.buffer + cbaChunkIdx w.heap p + cbaHeaderLen ∧
      cbaChunkIdx w.heap p + cbaHeaderLen + w.heap.recordedLen p ≤ size) ∧
    (∀ len < 2 ^ 16, ∀ q ∈ w.live,
      (cbaMalloc w.heap len).1.mem.read q (w.heap.recordedLen q) =
        w.heap.mem.read q (w.heap.recordedLen q)) ∧
    (∀ p ∈ w.live, ∀ q ∈ w.live, q ≠ p →
      (cbaFree w.heap p).mem.read q (w.heap.recordedLen q) =
        w.heap.mem.read q (w.heap.recordedLen q)) := by
  obtain ⟨hwsize, bs, hinv⟩ := cbaSystem_invariant hsize w hw
  have hring := hinv.chain.ring
  refine ⟨?_, ?_, ?_, ?_⟩
  · refine hinv.nodup.imp_of_mem fun {p q} hp hq hne => ?_
    obtain ⟨b, hb, _, rfl⟩ := hinv.live p hp
    obtain ⟨c, hc, _, rfl⟩ := hinv.live q hq
    exact hinv.chain.disjoint_chunk hb hc hne
  · intro p hp
    obtain ⟨b, hb, _, rfl⟩ := hinv.live p hp
    rw [cbaChunkIdx_chunk hinv.chain hb, hinv.chain.recordedLen_chunk hb, ← hwsize]
    exact ⟨rfl, hring.mem_bounds b hb⟩
  · intro len _ q hq
    obtain ⟨b, hb, _, rfl⟩ := hinv.live q hq
    rw [hinv.chain.recordedLen_chunk hb]
    exact Mem.read_congr fun x hx hxn =>
      cbaMalloc_body hinv.chain (hinv.chain.fits_of_size (by omega) len) hb hx hxn
  · intro p hp q hq _
    obtain ⟨b, hb, _, rfl⟩ := hinv.live p hp
    obtain ⟨c, hc, _, rfl⟩ := hinv.live q hq
    rw [hinv.chain.recordedLen_chunk hc]
    exact Mem.read_congr fun x hx hxn =>
      (cbaFree_inv hinv.chain hb).2.2.2.body hring hc hx hxn

/-- Two chunks of a 50 byte pool. -/
theorem cba_isolation_two_chunks :
    let w := ((⟨cbaInit (fun _ => 0) 16 50, []⟩ : CbaWorld).malloc 25).malloc 10
    w.live = [52, 20] ∧ w.live.Pairwise w.heap.Disjoint := by
  have h1 := cbaSystem_malloc 25 (cbaSystem_init 50 16 fun _ => 0) (by decide)
  have h2 := cbaSystem_malloc 10 h1 (by decide)
  exact ⟨by decide +kernel, (cba_isolation (by decide) h2).1⟩

end EmbeddedMx
