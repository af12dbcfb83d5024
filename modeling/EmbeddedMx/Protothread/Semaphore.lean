import Mathlib.Algebra.BigOperators.Group.Finset.Basic
import Mathlib.Algebra.Order.BigOperators.Group.Finset
import EmbeddedMx.Protothread.Expansion

/-!
# Semaphores of protothreads (`pt-sem.h`)

`PT_SEM_WAIT` takes a permit of a semaphore and `PT_SEM_SIGNAL` gives one back. A body is
balanced if the line of a point determines how many permits the protothread holds there. Over
every sequence of calls the permits that protothreads hold while they are stopped, and the
counters, together never exceed what the counters were at the beginning. With one semaphore
that begins at 1, this is mutual exclusion: no two protothreads stop where they hold it. With
two, each of them given back for the other, it bounds a buffer.

A protothread that runs still has its old line number. It therefore may only schedule
protothreads of a lower rank, so that none is called while it runs.
-/

namespace EmbeddedMx

open EmbeddedMx.Lib

variable {S : PtSetting} {ι : Type} [DecidableEq ι] {w : Nat}

/-! ## Semaphores -/

variable (S ι w) in
/-- Semaphores in the memory of the application: `count` of each `struct pt_sem`, an
`unsigned int` of `w` bits. -/
structure PtSems where
  count : ι → S.Mem → BitVec w
  set : ι → BitVec w → S.Mem → S.Mem
  count_set : ∀ i j v m, count i (set j v m) = if i = j then v else count i m

variable (sems : PtSems S ι w)

def PtStmt.semWait (line : Nat) (i : ι) : PtStmt S :=
  .seq (.waitUntil line (.expr fun _ m => .ret (decide (0 < sems.count i m)) m))
    (.act fun _ m => .ret () (sems.set i (sems.count i m - 1) m))

def PtStmt.semSignal (i : ι) : PtStmt S :=
  .act fun _ m => .ret () (sems.set i (sems.count i m + 1) m)

/-! ## Balanced bodies -/

/-- The counters are as before. -/
def PtSems.Kept (m m' : S.Mem) : Prop := ∀ i, sems.count i m' = sems.count i m

/-- A piece of the application that leaves the semaphores alone. -/
def PtSems.Neutral {α : Type} (c : S.Piece α) : Prop :=
  ∀ e m, (c e m).Post sems.Kept fun _ m' => sems.Kept m m'

def PtCond.Neutral (lower : S.Pt → Prop) : PtCond S → Prop
  | .expr c => sems.Neutral c
  | .schedule pt _ => lower pt
  | .not c => c.Neutral lower

def PtPoint.Neutral (lower : S.Pt → Prop) : PtPoint S → Prop
  | .waitUntil c => c.Neutral sems lower
  | .yield => True
  | .yieldUntil c => c.Neutral sems lower

/-- A statement that begins with `k` permits and ends with `k'`. At the point of a line `l`
the protothread holds `level l` permits. -/
inductive PtStmt.Balanced (lower : S.Pt → Prop) (level : Nat → Nat) : Nat → PtStmt S → Nat → Prop
  | act {k c} : sems.Neutral c → Balanced lower level k (.act c) k
  | semWait {k line i} : level line = k → Balanced lower level k (.semWait sems line i) (k + 1)
  | semSignal {k i} : Balanced lower level (k + 1) (.semSignal sems i) k
  | seq {k k₁ k' a b} : Balanced lower level k a k₁ → Balanced lower level k₁ b k' →
      Balanced lower level k (.seq a b) k'
  | ite {k k' c a b} : c.Neutral sems lower → Balanced lower level k a k' →
      Balanced lower level k b k' → Balanced lower level k (.ite c a b) k'
  | loop {k c body} : c.Neutral sems lower → Balanced lower level k body k →
      Balanced lower level k (.loop c body) k
  | point {k line p} : level line = k → p.Neutral sems lower →
      Balanced lower level k (.point line p) k
  | init {k pt} : lower pt → Balanced lower level k (.init pt) k
  | exit {k k'} : Balanced lower level k .exit k'
  | restart {k k'} : Balanced lower level k .restart k'

/-- A program whose protothreads hold `level pt l` permits where `pt` stops on line `l`. -/
structure PtSems.Disciplined (prog : S.Pt → PtStmt S) (rank : S.Pt → Nat)
    (level : S.Pt → Nat → Nat) : Prop where
  numbered : ∀ pt, (prog pt).Numbered
  start : ∀ pt, level pt 0 = 0
  balanced : ∀ pt, (prog pt).Balanced sems (fun child => rank child < rank pt) (level pt) 0 0

/-! ## Permits -/

section Permits

variable [Fintype ι]

/-- The permits that can be taken. -/
def PtSems.permits (m : S.Mem) : Nat := ∑ i, (sems.count i m).toNat

theorem PtSems.permits_kept {sems : PtSems S ι w} {m m' : S.Mem} (h : sems.Kept m m') :
    sems.permits m' = sems.permits m := by
  unfold PtSems.permits
  simp only [h _]

theorem PtSems.permits_set (i : ι) (v : BitVec w) (m : S.Mem) :
    sems.permits (sems.set i v m) + (sems.count i m).toNat = sems.permits m + v.toNat := by
  have hrest : ∑ j ∈ Finset.univ.erase i, (sems.count j (sems.set i v m)).toNat =
      ∑ j ∈ Finset.univ.erase i, (sems.count j m).toNat := by
    refine Finset.sum_congr rfl fun j hj => ?_
    rw [sems.count_set, if_neg (Finset.ne_of_mem_erase hj)]
  have hbefore := Finset.add_sum_erase Finset.univ (fun j => (sems.count j m).toNat)
    (Finset.mem_univ i)
  have hafter := Finset.add_sum_erase Finset.univ
    (fun j => (sems.count j (sems.set i v m)).toNat) (Finset.mem_univ i)
  rw [sems.count_set, if_pos rfl, hrest] at hafter
  unfold PtSems.permits
  omega

theorem PtSems.permits_wait {i : ι} {m : S.Mem} (h : 0 < sems.count i m) :
    sems.permits (sems.set i (sems.count i m - 1) m) + 1 = sems.permits m := by
  have hset := sems.permits_set i (sems.count i m - 1) m
  have hpos : 0 < (sems.count i m).toNat := h
  -- a counter that is not zero has a bit, so that 1 fits
  have hlt := (sems.count i m).isLt
  have hwide : 1 < 2 ^ w := by omega
  have hone : (1 : BitVec w).toNat = 1 := Nat.mod_eq_of_lt hwide
  have hsub : (sems.count i m - 1).toNat = (sems.count i m).toNat - 1 := by
    rw [BitVec.toNat_sub_of_le (BitVec.le_def.mpr (by omega)), hone]
  omega

theorem PtSems.permits_signal (i : ι) {m : S.Mem} (h : sems.permits m + 1 < 2 ^ w) :
    sems.permits (sems.set i (sems.count i m + 1) m) = sems.permits m + 1 := by
  have hset := sems.permits_set i (sems.count i m + 1) m
  have hle : (sems.count i m).toNat ≤ sems.permits m :=
    Finset.single_le_sum (f := fun i => (sems.count i m).toNat) (fun _ _ => Nat.zero_le _)
      (Finset.mem_univ i)
  have hwide : 1 < 2 ^ w := by omega
  have hone : (1 : BitVec w).toNat = 1 := Nat.mod_eq_of_lt hwide
  have hadd : (sems.count i m + 1).toNat = (sems.count i m).toNat + 1 := by
    rw [BitVec.toNat_add, hone, Nat.mod_eq_of_lt (by omega)]
  omega

/-! ## Permits that are held -/

variable (level : S.Pt → Nat → Nat)

/-- The permits that can be taken, and those that the protothreads of `F` hold where they have
stopped. -/
def PtSems.load (F : Finset S.Pt) (s : S.State Nat) : Nat :=
  sems.permits s.2 + ∑ pt ∈ F, level pt (s.1 pt)

variable {sems level} {F G : Finset S.Pt} {s s' : S.State Nat}

theorem PtSems.load_kept (h : s'.1 = s.1) (hkept : sems.Kept s.2 s'.2) :
    sems.load level F s' = sems.load level F s := by
  unfold PtSems.load
  rw [h, sems.permits_kept hkept]

theorem PtSems.load_mono (h : G ⊆ F) : sems.load level G s ≤ sems.load level F s :=
  Nat.add_le_add_left (Finset.sum_le_sum_of_subset h) _

/-- Protothreads that have not been called hold what they held. -/
theorem PtSems.load_frame (h : G ⊆ F) (hrest : ∀ pt ∈ F, pt ∉ G → s'.1 pt = s.1 pt)
    (hle : sems.load level G s' ≤ sems.load level G s) :
    sems.load level F s' ≤ sems.load level F s := by
  have hsame : ∑ pt ∈ F \ G, level pt (s'.1 pt) = ∑ pt ∈ F \ G, level pt (s.1 pt) := by
    refine Finset.sum_congr rfl fun pt hpt => ?_
    obtain ⟨hF, hG⟩ := Finset.mem_sdiff.mp hpt
    rw [hrest pt hF hG]
  have hsplit := Finset.sum_sdiff (f := fun pt => level pt (s.1 pt)) h
  have hsplit' := Finset.sum_sdiff (f := fun pt => level pt (s'.1 pt)) h
  unfold PtSems.load at hle ⊢
  omega

theorem PtSems.load_erase {pt : S.Pt} (h : pt ∈ F) :
    sems.load level F s = sems.load level (F.erase pt) s + level pt (s.1 pt) := by
  have hsplit := Finset.add_sum_erase F (fun pt => level pt (s.1 pt)) h
  unfold PtSems.load
  omega

theorem PtSems.load_set_of_notMem {pt : S.Pt} (h : pt ∉ F) (l : Nat) :
    sems.load level F (s.set pt l) = sems.load level F s := by
  refine congrArg (sems.permits s.2 + ·) (Finset.sum_congr rfl fun q hq => ?_)
  show level q (Function.update s.1 pt l q) = _
  rw [Function.update_of_ne fun heq : q = pt => h (heq ▸ hq)]

theorem PtSems.load_set_zero (hstart : ∀ pt, level pt 0 = 0) (pt : S.Pt) :
    sems.load level F (s.set pt 0) ≤ sems.load level F s := by
  refine Nat.add_le_add_left (Finset.sum_le_sum fun q _ => ?_) _
  show level q (Function.update s.1 pt 0 q) ≤ _
  rcases eq_or_ne q pt with rfl | hne
  · rw [Function.update_self, hstart]
    exact Nat.zero_le _
  · rw [Function.update_of_ne hne]

/-! ## One call -/

/-- The surroundings touch neither the control structures nor the semaphores. -/
def PtSems.Apart (sems : PtSems S ι w) (s s' : S.State Nat) : Prop :=
  s'.1 = s.1 ∧ sems.Kept s.2 s'.2

variable [Fintype S.Pt] {rank : S.Pt → Nat}

variable (rank) in
/-- A protothread and all that are not above it. -/
def ptsBelow (self : S.Pt) : Finset S.Pt := Finset.univ.filter fun pt => rank pt ≤ rank self

theorem self_mem_ptsBelow (self : S.Pt) : self ∈ ptsBelow rank self :=
  Finset.mem_filter.mpr ⟨Finset.mem_univ self, Nat.le_refl _⟩

/-- What a call of `pt` does, if there are not too many permits. -/
def PtSems.CallKeeps (sems : PtSems S ι w) (level : S.Pt → Nat → Nat) (rank : S.Pt → Nat)
    (call : S.Calls Nat) : Prop :=
  ∀ pt e s, sems.load level (ptsBelow rank pt) s < 2 ^ w →
    (call pt e s).Post sems.Apart fun _ s' =>
      sems.load level (ptsBelow rank pt) s' ≤ sems.load level (ptsBelow rank pt) s ∧
        ∀ q, rank pt < rank q → s'.1 q = s.1 q

/-- While `pt` runs, it holds `k` permits; `s₀` is the state at its call, and `B` a bound. -/
structure PtSems.Running (sems : PtSems S ι w) (level : S.Pt → Nat → Nat) (rank : S.Pt → Nat)
    (pt : S.Pt) (s₀ : S.State Nat) (B k : Nat) (s : S.State Nat) : Prop where
  load : sems.load level ((ptsBelow rank pt).erase pt) s + k ≤ B
  above : ∀ q, rank pt < rank q → s.1 q = s₀.1 q

/-- When `pt` has returned. -/
structure PtSems.Stopped (sems : PtSems S ι w) (level : S.Pt → Nat → Nat) (rank : S.Pt → Nat)
    (pt : S.Pt) (s₀ : S.State Nat) (B : Nat) (s : S.State Nat) : Prop where
  load : sems.load level (ptsBelow rank pt) s ≤ B
  above : ∀ q, rank pt < rank q → s.1 q = s₀.1 q

section Call

variable {self : S.Pt} {s₀ : S.State Nat} {B k : Nat}

omit [Fintype ι] [Fintype S.Pt] in
theorem set_line (s : S.State Nat) {l : Nat} (hl : l < 2 ^ 16) :
    (s.set self (lcValue l)).1 self = l :=
  (Function.update_self ..).trans (Nat.mod_eq_of_lt hl)

theorem PtSems.Running.kept (h : sems.Running level rank self s₀ B k s) (hpts : s'.1 = s.1)
    (hkept : sems.Kept s.2 s'.2) : sems.Running level rank self s₀ B k s' where
  load := by
    rw [PtSems.load_kept hpts hkept]
    exact h.load
  above q hq := by
    rw [hpts]
    exact h.above q hq

/-- `self` stops at a line. -/
theorem PtSems.Running.stop (h : sems.Running level rank self s₀ B k s)
    (hlevel : level self (s.1 self) ≤ k) : sems.Stopped level rank self s₀ B s where
  load := by
    rw [PtSems.load_erase (self_mem_ptsBelow self)]
    exact (Nat.add_le_add_left hlevel _).trans h.load
  above := h.above

/-- The line number of `self` is set. -/
theorem PtSems.Running.setSelf (h : sems.Running level rank self s₀ B k s) (l : Nat) :
    sems.Running level rank self s₀ B k (s.set self l) where
  load := by
    rw [PtSems.load_set_of_notMem (Finset.notMem_erase _ _)]
    exact h.load
  above q hq := by
    rw [← h.above q hq]
    exact Function.update_of_ne (fun heq : q = self => Nat.lt_irrefl _ (heq ▸ hq)) _ _

/-- `self` stops, to begin anew. -/
theorem PtSems.Running.stopAnew (h : sems.Running level rank self s₀ B k s)
    (hstart : ∀ pt, level pt 0 = 0) : sems.Stopped level rank self s₀ B (s.set self 0) := by
  refine (h.setSelf 0).stop ?_
  rw [show (s.set self 0).1 self = 0 from Function.update_self .., hstart]
  exact Nat.zero_le k

/-- `PT_INIT` of a protothread of lower rank. -/
theorem PtSems.Running.init (h : sems.Running level rank self s₀ B k s)
    (hstart : ∀ pt, level pt 0 = 0) {pt : S.Pt} (hpt : rank pt < rank self) :
    sems.Running level rank self s₀ B k (s.set pt 0) where
  load := (Nat.add_le_add_right (PtSems.load_set_zero hstart pt) _).trans h.load
  above q hq := by
    rw [← h.above q hq]
    exact Function.update_of_ne (fun heq : q = pt => Nat.lt_asymm hpt (heq ▸ hq)) _ _

/-- A permit is taken. -/
theorem PtSems.Running.take (h : sems.Running level rank self s₀ B k s) {i : ι}
    (hpos : 0 < sems.count i s.2) :
    sems.Running level rank self s₀ B (k + 1) (s.1, sems.set i (sems.count i s.2 - 1) s.2) where
  load := by
    have hwait := sems.permits_wait hpos
    have hload := h.load
    unfold PtSems.load at hload ⊢
    dsimp only
    omega
  above := h.above

/-- A permit is given back. -/
theorem PtSems.Running.give (h : sems.Running level rank self s₀ B (k + 1) s) (hB : B < 2 ^ w)
    (i : ι) :
    sems.Running level rank self s₀ B k (s.1, sems.set i (sems.count i s.2 + 1) s.2) where
  load := by
    have hload := h.load
    unfold PtSems.load at hload ⊢
    have hsignal := sems.permits_signal i (m := s.2) (by omega)
    dsimp only
    omega
  above := h.above

variable {call : S.Calls Nat} (hcall : sems.CallKeeps level rank call) (hB : B < 2 ^ w)

include hcall hB

theorem eval_post {c : PtCond S} (hc : c.Neutral sems fun child => rank child < rank self)
    (e : S.Args) (h : sems.Running level rank self s₀ B k s) :
    (c.eval call e s).Post sems.Apart fun _ s' =>
      sems.Running level rank self s₀ B k s' ∧ s'.1 self = s.1 self := by
  induction c generalizing s with
  | expr c =>
      refine ((hc e s.2).frame s.1).mono fun _ s' hs' => ?_
      exact ⟨h.kept hs'.1 hs'.2, congrFun hs'.1 self⟩
  | schedule pt args =>
      -- what the call may change is lower than `self`, so `self` keeps its permits
      have hc : rank pt < rank self := hc
      have hsub : ptsBelow rank pt ⊆ (ptsBelow rank self).erase self := by
        intro q hq
        have hle := (Finset.mem_filter.mp hq).2
        refine Finset.mem_erase.mpr ⟨?_, Finset.mem_filter.mpr ⟨Finset.mem_univ q, by omega⟩⟩
        rintro rfl
        omega
      have hsmall : sems.load level (ptsBelow rank pt) s < 2 ^ w := by
        have hmono : sems.load level (ptsBelow rank pt) s ≤
            sems.load level ((ptsBelow rank self).erase self) s := PtSems.load_mono hsub
        have hload := h.load
        omega
      refine (hcall pt _ s hsmall).bind ?_
      rintro status s' ⟨hload, hrest⟩
      refine ⟨⟨?_, fun q hq => ?_⟩, hrest self hc⟩
      · refine (Nat.add_le_add_right (PtSems.load_frame hsub (fun q hq hout => ?_) hload) k).trans
          h.load
        refine hrest q (not_le.mp fun hle => hout ?_)
        exact Finset.mem_filter.mpr ⟨Finset.mem_univ q, hle⟩
      · rw [hrest q (hc.trans hq)]
        exact h.above q hq
  | not c ih => exact (ih hc h).bind fun _ s' hs' => hs'

omit hcall hB in
/-- A test that leaves the function unless its condition holds. -/
theorem test_post {c : PtCond S} {e : S.Args} {Q : S.State Nat → Prop}
    (heval : (c.eval call e s).Post sems.Apart fun b s' =>
      (b = true → Q s') ∧ (b = false → sems.Stopped level rank self s₀ B s'))
    (n : Nat) (flag : Bool) (status : Int) :
    ((CCode.ite (.not (.cond c)) (.ret status) .skip).exec call n self e flag s).Post sems.Apart
      (Comp.FlowPost (fun _ s' => Q s') fun _ s' => sems.Stopped level rank self s₀ B s') := by
  simp only [CCode.exec, CTest.eval, Comp.bind_assoc, Comp.bind_ret]
  refine heval.bind fun b s' hs' => ?_
  cases b with
  | true => exact hs'.1 rfl
  | false => exact hs'.2 rfl

/-- What stands behind a label. -/
theorem wait_post {c : PtCond S} (hc : c.Neutral sems fun child => rank child < rank self)
    {line : Nat} (hlevel : level self line = k) (hlc : s.1 self = line) (n : Nat) (e : S.Args)
    (flag : Bool) (status : Int) (h : sems.Running level rank self s₀ B k s) :
    ((CCode.ite (.not (.cond c)) (.ret status) .skip).exec call n self e flag s).Post sems.Apart
      (Comp.FlowPost (fun _ s' => sems.Running level rank self s₀ B k s') fun _ s' =>
        sems.Stopped level rank self s₀ B s') := by
  refine test_post ((eval_post hcall hB hc e h).mono fun b s' hs' => ?_) n flag status
  exact ⟨fun _ => hs'.1, fun _ => hs'.1.stop (by rw [hs'.2, hlc, hlevel])⟩

/-- A point is reached. -/
theorem arrive_post {line : Nat} {p : PtPoint S} (hlevel : level self line = k)
    (hline : line < 2 ^ 16) (hp : p.Neutral sems fun child => rank child < rank self) (n : Nat)
    (e : S.Args) (flag : Bool) (h : sems.Running level rank self s₀ B k s) :
    ((p.expand line).exec call n self e flag s).Post sems.Apart
      (Comp.FlowPost (fun _ s' => sems.Running level rank self s₀ B k s') fun _ s' =>
        sems.Stopped level rank self s₀ B s') := by
  have hlc : (s.set self (lcValue line)).1 self = line := set_line s hline
  have hset := h.setSelf (lcValue line)
  have hstop : sems.Stopped level rank self s₀ B (s.set self (lcValue line)) :=
    hset.stop (by rw [hlc, hlevel])
  cases p with
  | waitUntil c => exact wait_post hcall hB hp hlevel hlc n e flag ptWaiting hset
  | yield => exact hstop
  | yieldUntil c => exact hstop

/-- A call goes on at a point. -/
theorem resume_post {line : Nat} {p : PtPoint S} (hlevel : level self line = k)
    (hp : p.Neutral sems fun child => rank child < rank self) (n : Nat) (e : S.Args)
    (hlc : s.1 self = line) (h : sems.Running level rank self s₀ B k s) :
    ((p.expand line).execFrom call n self e line true s).Post sems.Apart
      (Comp.FlowPost (fun _ s' => sems.Running level rank self s₀ B k s') fun _ s' =>
        sems.Stopped level rank self s₀ B s') := by
  rw [execFrom_expand]
  cases p with
  | waitUntil c => exact wait_post hcall hB hp hlevel hlc n e true ptWaiting h
  | yield => exact h
  | yieldUntil c => exact wait_post hcall hB hp hlevel hlc n e true ptYielded h

omit hcall hB in
/-- `PT_SEM_WAIT`, behind its label: nothing happens between the test and the decrement. -/
theorem semWait_post {i : ι} {line : Nat} (hlevel : level self line = k) (hlc : s.1 self = line)
    (n : Nat) (e : S.Args) (flag : Bool) (h : sems.Running level rank self s₀ B k s) :
    (((CCode.ite (.not (.cond (.expr fun _ m => .ret (decide (0 < sems.count i m)) m)))
        (.ret ptWaiting) .skip).exec call n self e flag s).andThen
      ((CCode.act fun _ m => .ret () (sems.set i (sems.count i m - 1) m)).exec call n self e)).Post
      sems.Apart (Comp.FlowPost (fun _ s' => sems.Running level rank self s₀ B (k + 1) s')
        fun _ s' => sems.Stopped level rank self s₀ B s') := by
  refine (test_post (Q := fun s' => sems.Running level rank self s₀ B k s' ∧
    0 < sems.count i s'.2) ?_ n flag ptWaiting).andThen ?_
  · exact ⟨fun hpos => ⟨h, of_decide_eq_true hpos⟩, fun _ => h.stop (by rw [hlc, hlevel])⟩
  · rintro flag s' ⟨h, hpos⟩
    exact h.take hpos

/-- A statement. -/
theorem exec_post (hstart : ∀ pt, level pt 0 = 0) {a : PtStmt S} {k' : Nat}
    (ha : a.Balanced sems (fun child => rank child < rank self) (level self) k k')
    (hlines : ∀ l ∈ a.lines, l < 2 ^ 16) (n : Nat) (e : S.Args) (flag : Bool)
    (h : sems.Running level rank self s₀ B k s) :
    (a.expand.exec call n self e flag s).Post sems.Apart
      (Comp.FlowPost (fun _ s' => sems.Running level rank self s₀ B k' s') fun _ s' =>
        sems.Stopped level rank self s₀ B s') := by
  induction ha generalizing s flag with
  | @act k c hc =>
      refine ((hc e s.2).frame s.1).bind fun _ s' hs' => ?_
      exact h.kept hs'.1 hs'.2
  | @semWait k line i hlevel =>
      have hline := hlines line (List.mem_singleton.mpr rfl)
      exact semWait_post hlevel (set_line s hline) n e flag (h.setSelf _)
  | @semSignal k i => exact h.give hB i
  | seq _ _ iha ihb =>
      obtain ⟨hla, hlb⟩ := List.forall_mem_append.mp hlines
      exact (iha hla flag h).andThen fun flag s' h => ihb hlb flag h
  | ite hc _ _ iha ihb =>
      obtain ⟨hla, hlb⟩ := List.forall_mem_append.mp hlines
      simp only [PtStmt.expand, CCode.exec, CTest.eval]
      refine (eval_post hcall hB hc e h).bind fun b s' hs' => ?_
      cases b with
      | true => exact iha hla flag hs'.1
      | false => exact ihb hlb flag hs'.1
  | loop hc _ ih =>
      -- the permits are the same in front of every turn
      refine Comp.Post.whileN (N := fun _ s' => sems.Running level rank self s₀ B _ s')
        (fun flag s h => ?_) (fun flag s h => ih hlines flag h) n h
      exact (eval_post hcall hB hc e h).mono fun _ _ hs' => hs'.1
  | @point k line p hlevel hp =>
      exact arrive_post hcall hB hlevel (hlines line (List.mem_singleton.mpr rfl)) hp n e flag h
  | init hpt => exact h.init hstart hpt
  | exit => exact h.stopAnew hstart
  | restart => exact h.stopAnew hstart

/-- A statement that is entered at the line of one of its points. -/
theorem jump_post (hstart : ∀ pt, level pt 0 = 0) {a : PtStmt S} {k₀ k' l : Nat}
    (ha : a.Balanced sems (fun child => rank child < rank self) (level self) k₀ k')
    (hnodup : a.lines.Nodup) (hlines : ∀ l ∈ a.lines, l < 2 ^ 16) (hl : l ∈ a.lines) (n : Nat)
    (e : S.Args) (hlevel : level self l = k) (hlc : s.1 self = l)
    (h : sems.Running level rank self s₀ B k s) :
    (a.expand.execFrom call n self e l true s).Post sems.Apart
      (Comp.FlowPost (fun _ s' => sems.Running level rank self s₀ B k' s') fun _ s' =>
        sems.Stopped level rank self s₀ B s') := by
  induction ha with
  | act => cases hl
  | @semWait k₀ line i hline =>
      obtain rfl : l = line := List.mem_singleton.mp hl
      obtain rfl : k = k₀ := hlevel.symm.trans hline
      have hjump : (PtStmt.semWait sems l i).expand.execFrom call n self e l true s =
          (((PtPoint.waitUntil _).expand l).execFrom call n self e l true s).andThen _ :=
        if_pos ((hasLabel_expand (.point l _) l).mpr List.mem_cons_self)
      rw [hjump, execFrom_expand]
      exact semWait_post hlevel hlc n e true h
  | semSignal => cases hl
  | @seq k₀ k₁ k' a b _ hb iha ihb =>
      obtain ⟨hla, hlb⟩ := List.forall_mem_append.mp hlines
      obtain ⟨hna, hnb, hdisjoint⟩ := List.nodup_append.mp hnodup
      simp only [PtStmt.expand, CCode.execFrom]
      rcases List.mem_append.mp hl with hleft | hright
      · rw [if_pos ((hasLabel_expand a l).mpr hleft)]
        refine (iha hna hla hleft).andThen fun flag s' h => ?_
        exact exec_post hcall hB hstart hb hlb n e flag h
      · have hout : l ∉ a.lines := fun hleft => hdisjoint l hleft l hright rfl
        rw [if_neg fun hlabel => hout ((hasLabel_expand a l).mp hlabel)]
        exact ihb hnb hlb hright
  | @ite k₀ k' c a b _ _ _ iha ihb =>
      obtain ⟨hla, hlb⟩ := List.forall_mem_append.mp hlines
      obtain ⟨hna, hnb, hdisjoint⟩ := List.nodup_append.mp hnodup
      simp only [PtStmt.expand, CCode.execFrom]
      rcases List.mem_append.mp hl with hleft | hright
      · rw [if_pos ((hasLabel_expand a l).mpr hleft)]
        exact iha hna hla hleft
      · have hout : l ∉ a.lines := fun hleft => hdisjoint l hleft l hright rfl
        rw [if_neg fun hlabel => hout ((hasLabel_expand a l).mp hlabel)]
        exact ihb hnb hlb hright
  | @loop k₀ c body hc hbody ih =>
      -- the rest of the turn that was left, and then the loop as a whole
      simp only [PtStmt.expand, CCode.execFrom]
      refine (ih hnodup hlines hl).andThen fun flag s' h => ?_
      exact exec_post hcall hB hstart (.loop hc hbody) hlines n e flag h
  | @point k₀ line p hline hp =>
      obtain rfl : l = line := List.mem_singleton.mp hl
      obtain rfl : k = k₀ := hlevel.symm.trans hline
      exact resume_post hcall hB hlevel hp n e hlc h
  | init => cases hl
  | exit => cases hl
  | restart => cases hl

end Call

/-! ## A program of protothreads -/

variable {prog : S.Pt → PtStmt S}

/-- A call of the function of a protothread. -/
theorem function_post (h : sems.Disciplined prog rank level) {call : S.Calls Nat}
    (hcall : sems.CallKeeps level rank call) (n : Nat) (self : S.Pt) (e : S.Args)
    (hsmall : sems.load level (ptsBelow rank self) s < 2 ^ w) :
    ((prog self).expand.function call n self e s).Post sems.Apart fun _ s' =>
      sems.load level (ptsBelow rank self) s' ≤ sems.load level (ptsBelow rank self) s ∧
        ∀ q, rank self < rank q → s'.1 q = s.1 q := by
  obtain ⟨hnodup, hlines⟩ := h.numbered self
  have hrun : sems.Running level rank self s (sems.load level (ptsBelow rank self) s)
      (level self (s.1 self)) s :=
    ⟨(PtSems.load_erase (self_mem_ptsBelow self)).ge, fun _ _ => rfl⟩
  unfold CCode.function
  refine Comp.Post.bind (R := Comp.FlowPost (fun _ s' => ∃ k, sems.Running level rank self s
    (sems.load level (ptsBelow rank self) s) k s') fun _ s' =>
      sems.Stopped level rank self s (sems.load level (ptsBelow rank self) s) s') ?_ ?_
  · have hends : ∀ {c : Comp S.Ask S.Answer (S.State Nat) (Flow Bool)} {k}, c.Post sems.Apart
        (Comp.FlowPost (fun _ s' => sems.Running level rank self s
          (sems.load level (ptsBelow rank self) s) k s') fun _ s' =>
            sems.Stopped level rank self s (sems.load level (ptsBelow rank self) s) s') →
        c.Post sems.Apart (Comp.FlowPost (fun _ s' => ∃ k, sems.Running level rank self s
          (sems.load level (ptsBelow rank self) s) k s') fun _ s' =>
            sems.Stopped level rank self s (sems.load level (ptsBelow rank self) s) s') := by
      intro c k hc
      refine hc.mono fun r s' hr => ?_
      cases r with
      | next t => exact ⟨k, hr⟩
      | leave status => exact hr
    -- the call begins anew, goes on at a label, or falls through to the end
    split
    · rename_i hzero
      rw [hzero, h.start] at hrun
      exact hends (exec_post hcall hsmall h.start (h.balanced self) (fun l hl => (hlines l hl).2) n
        e true hrun)
    · split
      · rename_i hlabel
        exact hends (jump_post hcall hsmall h.start (h.balanced self) hnodup
          (fun l hl => (hlines l hl).2) ((hasLabel_expand _ _).mp hlabel) n e rfl rfl hrun)
      · exact ⟨_, hrun⟩
  · -- PT_END
    intro r s' hr
    cases r with
    | next t =>
        obtain ⟨k, hk⟩ := hr
        have hstop := hk.stopAnew h.start
        exact ⟨hstop.load, hstop.above⟩
    | leave status => exact ⟨hr.load, hr.above⟩

theorem callExpanded_keeps (h : sems.Disciplined prog rank level) (n d : Nat) :
    sems.CallKeeps level rank (callExpanded prog n d) := by
  induction d with
  | zero => exact fun _ _ _ _ => trivial
  | succ d ih => exact fun pt e _ hsmall => function_post h ih n pt e hsmall

/-- A sequence of calls. -/
theorem drive_keeps (h : sems.Disciplined prog rank level) (n d : Nat) {calls : List (PtCall S)}
    (hcalls : ∀ c ∈ calls, ∀ m, sems.Kept m (c.change m)) {B : Nat} (hB : B < 2 ^ w)
    (hs : sems.load level Finset.univ s ≤ B) :
    (drive (callExpanded prog n d) calls s).Post sems.Apart fun _ s' =>
      sems.load level Finset.univ s' ≤ B := by
  induction calls generalizing s with
  | nil => exact hs
  | cons c calls ih =>
      obtain ⟨hc, hrest⟩ := List.forall_mem_cons.mp hcalls
      have hchange : sems.load level Finset.univ (s.1, c.change s.2) ≤ B := by
        refine (PtSems.load_kept (s := s) ?_ ?_).trans_le hs
        · rfl
        · exact hc s.2
      have hsub : ptsBelow rank c.pt ⊆ Finset.univ := Finset.subset_univ _
      refine (callExpanded_keeps h n d c.pt c.args _
        (((PtSems.load_mono hsub).trans hchange).trans_lt hB)).bind ?_
      rintro status s' ⟨hload, habove⟩
      refine (ih hrest ((PtSems.load_frame hsub (fun q _ hq => habove q ?_) hload).trans
        hchange)).bind fun statuses s' hs' => hs'
      exact not_le.mp fun hle => hq (Finset.mem_filter.mpr ⟨Finset.mem_univ q, hle⟩)

/-- **Permits are not created.** Whatever calls of protothreads the main program makes, the
counters of the semaphores and the permits that the protothreads hold where they have stopped
together are at most what the counters were at the beginning. -/
theorem semaphore_permits_bounded (sems : PtSems S ι w) {prog : S.Pt → PtStmt S}
    {rank : S.Pt → Nat} {level : S.Pt → Nat → Nat} (h : sems.Disciplined prog rank level)
    (n d : Nat) {calls : List (PtCall S)} (hcalls : ∀ c ∈ calls, ∀ m, sems.Kept m (c.change m))
    (m : S.Mem) (hm : ∑ i, (sems.count i m).toNat < 2 ^ w) :
    (drive (callExpanded prog n d) calls (fun _ => 0, m)).Post sems.Apart fun _ s =>
      ∑ i, (sems.count i s.2).toNat + ∑ pt, level pt (s.1 pt) ≤ ∑ i, (sems.count i m).toNat := by
  refine drive_keeps h n d hcalls hm (Nat.le_of_eq ?_)
  unfold PtSems.load PtSems.permits
  simp [h.start]

end Permits

/-- Two protothreads over the counter of a semaphore. -/
def lockSetting : PtSetting where
  Pt := Bool
  Args := Unit
  Mem := BitVec 16
  Ask := Empty
  Answer := Empty.elim

instance : Fintype lockSetting.Pt := inferInstanceAs (Fintype Bool)

def lockSems : PtSems lockSetting Unit 16 where
  count _ m := m
  set _ v _ := v
  count_set _ _ _ _ := rfl

/-- Each of them takes the semaphore, yields, and gives it back, for ever. -/
def lockThread (_ : Bool) : PtStmt lockSetting :=
  .loop (.expr fun _ m => .ret true m)
    (.seq (.semWait lockSems 10 ()) (.seq (.yield 12) (.semSignal lockSems ())))

def lockLevel (_ : Bool) (l : Nat) : Nat := if l = 12 then 1 else 0

theorem lockThread_disciplined : lockSems.Disciplined lockThread (fun _ => 0) lockLevel where
  numbered pt := by cases pt <;> decide
  start _ := rfl
  balanced _ :=
    .loop (fun _ _ _ => rfl) (.seq (.semWait rfl) (.seq (.point rfl trivial) .semSignal))

def lockCalls : List (PtCall lockSetting) :=
  [false, true, true, false].map fun pt => ⟨pt, (), id⟩

theorem lockCalls_kept : ∀ c ∈ lockCalls, ∀ m, lockSems.Kept m (c.change m) := by
  intro c hc m
  obtain ⟨pt, -, rfl⟩ := List.mem_map.mp hc
  exact fun _ => rfl

def lockFree : lockSetting.Mem := (1 : BitVec 16)

/-- The other one waits, and does not hold the semaphore where it has stopped. -/
theorem semaphore_permits_bounded_lock :
    (∃ s, drive (callExpanded lockThread 3 1) lockCalls (fun _ => 0, lockFree) =
      .ret [1, 0, 0, 1] s) ∧
    (drive (callExpanded lockThread 3 1) lockCalls (fun _ => 0, lockFree)).Post lockSems.Apart
      fun _ s => ∑ i, (lockSems.count i s.2).toNat + ∑ pt, lockLevel pt (s.1 pt) ≤
        ∑ i, (lockSems.count i lockFree).toNat :=
  ⟨⟨_, rfl⟩, semaphore_permits_bounded lockSems lockThread_disciplined 3 1
    lockCalls_kept lockFree (by decide)⟩

end EmbeddedMx
