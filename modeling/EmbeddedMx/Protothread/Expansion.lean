import EmbeddedMx.Protothread.Model

/-!
# Protothreads are coroutines

`PtStmt.run` says what a protothread is meant to do: at a point it stops and keeps in its
control structure the point and the statements that are left of its body, and the next call
goes on with these. The expanded code keeps a line number instead. Every call of the expanded
code does what the coroutine does, if the lines of the points of each body are different and
fit an `lc_t`.
-/

namespace EmbeddedMx

open EmbeddedMx.Lib

variable {S : PtSetting}

/-! ## Coroutines -/

variable (S) in
/-- What is left of a protothread. -/
inductive PtResume
  | start
  | inside (p : PtPoint S) (rest : List (PtStmt S))

section Coroutine

variable (call : S.Calls (PtResume S)) (n : Nat) (self : S.Pt) (e : S.Args)

/-- The point is reached, with `rest` behind it. -/
def PtPoint.arrive (p : PtPoint S) (rest : List (PtStmt S)) (s : S.State (PtResume S)) :
    S.Run (PtResume S) (Flow Unit) :=
  let s := s.set self (.inside p rest)
  match p with
  | .waitUntil c =>
      (c.eval call e s).bind fun b s => .ret (if b then .next () else .leave ptWaiting) s
  | .yield => .ret (.leave ptYielded) s
  | .yieldUntil _ => .ret (.leave ptYielded) s

/-- A call goes on at the point. -/
def PtPoint.resume (p : PtPoint S) (s : S.State (PtResume S)) : S.Run (PtResume S) (Flow Unit) :=
  match p with
  | .waitUntil c =>
      (c.eval call e s).bind fun b s => .ret (if b then .next () else .leave ptWaiting) s
  | .yield => .ret (.next ()) s
  | .yieldUntil c =>
      (c.eval call e s).bind fun b s => .ret (if b then .next () else .leave ptYielded) s

/-- A statement is executed, with `rest` behind it. -/
def PtStmt.run : PtStmt S → List (PtStmt S) → S.State (PtResume S) →
    S.Run (PtResume S) (Flow Unit)
  | .act c, _, s => ((c e s.2).frame s.1).bind fun _ s => .ret (.next ()) s
  | .seq a b, rest, s => (a.run (b :: rest) s).andThen fun _ s => b.run rest s
  | .ite c a b, rest, s =>
      (c.eval call e s).bind fun r s => if r then a.run rest s else b.run rest s
  | .loop c body, rest, s =>
      Comp.whileN (c.eval call e) (fun _ s => body.run (.loop c body :: rest) s) n () s
  | .point _ p, rest, s => p.arrive call self e rest s
  | .init pt, _, s => .ret (.next ()) (s.set pt .start)
  | .exit, _, s => .ret (.leave ptExited) (s.set self .start)
  | .restart, _, s => .ret (.leave ptWaiting) (s.set self .start)

def runList : List (PtStmt S) → S.State (PtResume S) → S.Run (PtResume S) (Flow Unit)
  | [], s => .ret (.next ()) s
  | a :: rest, s => (a.run call n self e rest s).andThen fun _ s => runList rest s

/-- A protothread is called: it goes on where it is, and behind its end begins anew. -/
def PtStmt.thread (body : PtStmt S) (s : S.State (PtResume S)) : S.Run (PtResume S) Int :=
  let r :=
    match s.1 self with
    | .start => runList call n self e [body] s
    | .inside p rest => (p.resume call e s).andThen fun _ s => runList call n self e rest s
  r.bind fun r s =>
    match r with
    | .leave status => .ret status s
    | .next _ => .ret ptEnded (s.set self .start)

end Coroutine

/-- The protothreads of a program as coroutines, which may call each other to the depth `d`. -/
def callCoroutine (prog : S.Pt → PtStmt S) (n : Nat) : Nat → S.Calls (PtResume S)
  | 0 => fun _ _ s => .stuck s
  | d + 1 => fun pt e s => (prog pt).thread (callCoroutine prog n d) n pt e s

/-! ## Where the points of a body stand -/

/-- The points of a statement, with their lines and with what is left behind them. -/
def PtStmt.points : PtStmt S → List (PtStmt S) → List (Nat × PtPoint S × List (PtStmt S))
  | .seq a b, rest => a.points (b :: rest) ++ b.points rest
  | .ite _ a b, rest => a.points rest ++ b.points rest
  | .loop c body, rest => body.points (.loop c body :: rest)
  | .point line p, rest => [(line, p, rest)]
  | _, _ => []

theorem PtStmt.map_fst_points (a : PtStmt S) (rest : List (PtStmt S)) :
    (a.points rest).map (·.1) = a.lines := by
  induction a generalizing rest with
  | seq a b iha ihb =>
      simp only [points, lines, List.map_append]
      rw [iha, ihb]
  | ite c a b iha ihb =>
      simp only [points, lines, List.map_append]
      rw [iha, ihb]
  | loop c body ih =>
      simp only [points, lines]
      exact ih _
  | point line p => rfl
  | act c => rfl
  | init pt => rfl
  | exit => rfl
  | restart => rfl

theorem PtStmt.line_mem {a : PtStmt S} {rest : List (PtStmt S)} {line : Nat} {p : PtPoint S}
    {r : List (PtStmt S)} (h : (line, p, r) ∈ a.points rest) : line ∈ a.lines := by
  rw [← map_fst_points a rest]
  exact List.mem_map_of_mem h

/-- The expansion of a statement has the labels of its points. -/
theorem hasLabel_expand (a : PtStmt S) (l : Nat) : a.expand.hasLabel l = true ↔ l ∈ a.lines := by
  induction a with
  | seq a b iha ihb =>
      simp only [PtStmt.expand, CCode.hasLabel, PtStmt.lines, Bool.or_eq_true, List.mem_append]
      rw [iha, ihb]
  | ite c a b iha ihb =>
      simp only [PtStmt.expand, CCode.hasLabel, PtStmt.lines, Bool.or_eq_true, List.mem_append]
      rw [iha, ihb]
  | loop c body ih =>
      simp only [PtStmt.expand, CCode.hasLabel, PtStmt.lines]
      exact ih
  | point line p =>
      cases p <;>
        simp [PtStmt.expand, PtPoint.expand, CCode.lcSet, CCode.hasLabel, PtStmt.lines, eq_comm]
  | act c => simp [PtStmt.expand, CCode.hasLabel, PtStmt.lines]
  | init pt => simp [PtStmt.expand, CCode.hasLabel, PtStmt.lines]
  | exit => simp [PtStmt.expand, CCode.hasLabel, PtStmt.lines]
  | restart => simp [PtStmt.expand, CCode.hasLabel, PtStmt.lines]

/-- The points of a body stand on different lines, whose numbers fit an `lc_t`. -/
def PtStmt.Numbered (body : PtStmt S) : Prop :=
  body.lines.Nodup ∧ ∀ l ∈ body.lines, 0 < l ∧ l < 2 ^ 16

instance (body : PtStmt S) : Decidable body.Numbered := inferInstanceAs (Decidable (_ ∧ _))

/-- The line number in a control structure and what is left of the protothread. -/
inductive Resumes (body : PtStmt S) : Nat → PtResume S → Prop
  | start : Resumes body 0 .start
  | inside {line p rest} : (line, p, rest) ∈ body.points [] → Resumes body line (.inside p rest)

/-- The control structures of all protothreads of a program. -/
def ResumesAll (prog : S.Pt → PtStmt S) (lc : S.Pt → Nat) (r : S.Pt → PtResume S) : Prop :=
  ∀ pt, Resumes (prog pt) (lc pt) (r pt)

/-- What is left of a point behind its label. -/
def PtPoint.test : PtPoint S → CCode S
  | .waitUntil c => .ite (.not (.cond c)) (.ret ptWaiting) .skip
  | .yield => .skip
  | .yieldUntil c => .ite (.not (.cond c)) (.ret ptYielded) .skip

theorem execFrom_expand (call : S.Calls Nat) (n : Nat) (self : S.Pt) (e : S.Args) (line : Nat)
    (p : PtPoint S) (s : S.State Nat) :
    (p.expand line).execFrom call n self e line true s = p.test.exec call n self e true s := by
  cases p with
  | waitUntil c =>
      simp [PtPoint.expand, PtPoint.test, CCode.execFrom, CCode.lcSet, CCode.hasLabel,
        Comp.andThen]
  | yield =>
      simp [PtPoint.expand, PtPoint.test, CCode.execFrom, CCode.lcSet, CCode.hasLabel,
        Comp.andThen, CCode.exec, CTest.eval]
  | yieldUntil c =>
      simp [PtPoint.expand, PtPoint.test, CCode.execFrom, CCode.lcSet, CCode.hasLabel,
        Comp.andThen, CCode.exec, CTest.eval]

/-! ## One call -/

/-- Behind every statement that is passed, `PT_YIELD_FLAG` is set. -/
def FlagSet (flag : Bool) (_ : Unit) : Prop := flag = true

section Simulation

variable {prog : S.Pt → PtStmt S} {call : S.Calls Nat} {call' : S.Calls (PtResume S)}
  {s : S.State Nat} {s' : S.State (PtResume S)}

theorem ResumesAll.set (h : Comp.Beside (ResumesAll prog) s s') (pt : S.Pt) {l : Nat}
    {r : PtResume S} (hl : Resumes (prog pt) l r) :
    Comp.Beside (ResumesAll prog) (s.set pt l) (s'.set pt r) := by
  refine ⟨?_, h.2⟩
  intro pt'
  by_cases heq : pt' = pt
  · subst heq
    simp only [PtSetting.State.set, Function.update_self]
    exact hl
  · simp only [PtSetting.State.set, Function.update_of_ne heq]
    exact h.1 pt'

variable (hcall : ∀ pt e s s', Comp.Beside (ResumesAll prog) s s' →
  Comp.Sim (Comp.Beside (ResumesAll prog)) Eq (call pt e s) (call' pt e s'))

include hcall

theorem eval_sim (e : S.Args) (c : PtCond S) (h : Comp.Beside (ResumesAll prog) s s') :
    Comp.Sim (Comp.Beside (ResumesAll prog)) Eq (c.eval call e s) (c.eval call' e s') := by
  induction c generalizing s s' with
  | expr c =>
      unfold PtCond.eval
      rw [h.2]
      exact Comp.Sim.frame _ h.1
  | schedule pt args =>
      unfold PtCond.eval
      rw [h.2]
      refine (hcall pt _ s s' h).bind ?_
      rintro status _ s s' rfl h
      exact .ret h rfl
  | not c ih =>
      refine (ih h).bind ?_
      rintro b _ s s' rfl h
      exact .ret h rfl

/-- What stands behind a label: a test that leaves the function unless it holds. -/
theorem test_sim (n : Nat) (self : S.Pt) (e : S.Args) (c : PtCond S) (status : Int)
    (h : Comp.Beside (ResumesAll prog) s s') :
    Comp.Sim (Comp.Beside (ResumesAll prog)) (Comp.FlowRel FlagSet)
      ((CCode.ite (.not (.cond c)) (.ret status) .skip).exec call n self e true s)
      ((c.eval call' e s').bind fun b s =>
        .ret (if b then .next () else .leave status) s) := by
  simp only [CCode.exec, CTest.eval, Comp.bind_assoc, Comp.bind_ret]
  refine (eval_sim hcall e c h).bind ?_
  rintro b _ s s' rfl h
  cases b with
  | true => exact .ret h (.next rfl)
  | false => exact .ret h (.leave status)

theorem arrive_sim (n : Nat) (self : S.Pt) (e : S.Args) {line : Nat} {p : PtPoint S}
    {rest : List (PtStmt S)} (hmem : (line, p, rest) ∈ (prog self).points [])
    (hline : line < 2 ^ 16) (h : Comp.Beside (ResumesAll prog) s s') :
    Comp.Sim (Comp.Beside (ResumesAll prog)) (Comp.FlowRel FlagSet)
      ((p.expand line).exec call n self e true s) (p.arrive call' self e rest s') := by
  have hlc : lcValue line = line := Nat.mod_eq_of_lt hline
  have hset : Comp.Beside (ResumesAll prog) (s.set self (lcValue line))
      (s'.set self (.inside p rest)) := by
    rw [hlc]
    exact ResumesAll.set h self (.inside hmem)
  cases p with
  | waitUntil c => exact test_sim hcall n self e c ptWaiting hset
  | yield => exact .ret hset (.leave ptYielded)
  | yieldUntil c => exact .ret hset (.leave ptYielded)

theorem resume_sim (n : Nat) (self : S.Pt) (e : S.Args) (line : Nat) (p : PtPoint S)
    (h : Comp.Beside (ResumesAll prog) s s') :
    Comp.Sim (Comp.Beside (ResumesAll prog)) (Comp.FlowRel FlagSet)
      ((p.expand line).execFrom call n self e line true s) (p.resume call' e s') := by
  rw [execFrom_expand]
  cases p with
  | waitUntil c => exact test_sim hcall n self e c ptWaiting h
  | yield => exact .ret h (.next rfl)
  | yieldUntil c => exact test_sim hcall n self e c ptYielded h

/-- A statement and its expansion, where `rest` is what the body has behind it. -/
theorem run_sim (hprog : ∀ pt, (prog pt).Numbered) (n : Nat) (self : S.Pt) (e : S.Args)
    (a : PtStmt S) {rest : List (PtStmt S)} (hpoints : a.points rest ⊆ (prog self).points [])
    (h : Comp.Beside (ResumesAll prog) s s') :
    Comp.Sim (Comp.Beside (ResumesAll prog)) (Comp.FlowRel FlagSet)
      (a.expand.exec call n self e true s) (a.run call' n self e rest s') := by
  induction a generalizing rest s s' with
  | act c =>
      simp only [PtStmt.expand, CCode.exec, PtStmt.run]
      rw [h.2]
      refine (Comp.Sim.frame _ h.1).bind ?_
      rintro _ _ s s' - h
      exact .ret h (.next rfl)
  | seq a b iha ihb =>
      have hsub := List.append_subset.mp hpoints
      refine (iha hsub.1 h).andThen ?_
      rintro flag _ s s' rfl h
      exact ihb hsub.2 h
  | ite c a b iha ihb =>
      have hsub := List.append_subset.mp hpoints
      simp only [PtStmt.expand, CCode.exec, CTest.eval, PtStmt.run]
      refine (eval_sim hcall e c h).bind ?_
      rintro r _ s s' rfl h
      cases r with
      | true => exact iha hsub.1 h
      | false => exact ihb hsub.2 h
  | loop c body ih =>
      refine Comp.Sim.whileN (fun s s' h => eval_sim hcall e c h) ?_ n rfl h
      rintro flag _ s s' rfl h
      exact ih hpoints h
  | point line p =>
      have hmem := hpoints (List.mem_singleton.mpr rfl)
      exact arrive_sim hcall n self e hmem ((hprog self).2 line (PtStmt.line_mem hmem)).2 h
  | init pt => exact .ret (ResumesAll.set h pt .start) (.next rfl)
  | exit => exact .ret (ResumesAll.set h self .start) (.leave ptExited)
  | restart => exact .ret (ResumesAll.set h self .start) (.leave ptWaiting)

/-- A jump to the line of a point, and whatever follows the statement then. -/
theorem jump_sim (hprog : ∀ pt, (prog pt).Numbered) (n : Nat) (self : S.Pt) (e : S.Args)
    (a : PtStmt S) {rest : List (PtStmt S)} (hpoints : a.points rest ⊆ (prog self).points [])
    (hnodup : a.lines.Nodup) {line : Nat} {p : PtPoint S} {r : List (PtStmt S)}
    (hmem : (line, p, r) ∈ a.points rest) {k : Bool → S.State Nat → S.Run Nat (Flow Bool)}
    (hk : ∀ s s', Comp.Beside (ResumesAll prog) s s' →
      Comp.Sim (Comp.Beside (ResumesAll prog)) (Comp.FlowRel FlagSet) (k true s)
        (runList call' n self e rest s'))
    (h : Comp.Beside (ResumesAll prog) s s') :
    Comp.Sim (Comp.Beside (ResumesAll prog)) (Comp.FlowRel FlagSet)
      ((a.expand.execFrom call n self e line true s).andThen k)
      ((p.resume call' e s').andThen fun _ s => runList call' n self e r s) := by
  -- what follows `a` inside of a larger statement, and then `k`
  have hthen : ∀ {b : PtStmt S} {rest}, b.points rest ⊆ (prog self).points [] →
      ∀ {k : Bool → S.State Nat → S.Run Nat (Flow Bool)},
        (∀ s s', Comp.Beside (ResumesAll prog) s s' →
          Comp.Sim (Comp.Beside (ResumesAll prog)) (Comp.FlowRel FlagSet) (k true s)
            (runList call' n self e rest s')) →
        ∀ s s', Comp.Beside (ResumesAll prog) s s' →
          Comp.Sim (Comp.Beside (ResumesAll prog)) (Comp.FlowRel FlagSet)
            ((b.expand.exec call n self e true s).andThen k)
            (runList call' n self e (b :: rest) s') := by
    intro b rest hb k hk s s' h
    refine (run_sim hcall hprog n self e b hb h).andThen ?_
    rintro flag _ s s' rfl h
    exact hk s s' h
  induction a generalizing rest k with
  | seq a b iha ihb =>
      have hsub := List.append_subset.mp hpoints
      have hlines := List.nodup_append.mp hnodup
      simp only [PtStmt.expand, CCode.execFrom]
      rcases List.mem_append.mp hmem with hleft | hright
      · rw [if_pos ((hasLabel_expand a line).mpr (PtStmt.line_mem hleft)), Comp.andThen_assoc]
        exact iha hsub.1 hlines.1 hleft (hthen hsub.2 hk)
      · have hline : line ∉ a.lines := fun ha => hlines.2.2 line ha line (PtStmt.line_mem hright) rfl
        rw [if_neg (fun hl => hline ((hasLabel_expand a line).mp hl))]
        exact ihb hsub.2 hlines.2.1 hright hk
  | ite c a b iha ihb =>
      have hsub := List.append_subset.mp hpoints
      have hlines := List.nodup_append.mp hnodup
      simp only [PtStmt.expand, CCode.execFrom]
      rcases List.mem_append.mp hmem with hleft | hright
      · rw [if_pos ((hasLabel_expand a line).mpr (PtStmt.line_mem hleft))]
        exact iha hsub.1 hlines.1 hleft hk
      · have hline : line ∉ a.lines := fun ha => hlines.2.2 line ha line (PtStmt.line_mem hright) rfl
        rw [if_neg (fun hl => hline ((hasLabel_expand a line).mp hl))]
        exact ihb hsub.2 hlines.2.1 hright hk
  | loop c body ih =>
      simp only [PtStmt.expand, CCode.execFrom]
      rw [Comp.andThen_assoc]
      exact ih hpoints hnodup hmem (hthen (b := .loop c body) hpoints hk)
  | point line' p' =>
      obtain ⟨rfl, rfl, rfl⟩ : line = line' ∧ p = p' ∧ r = rest := by
        simpa [PtStmt.points] using hmem
      refine (resume_sim hcall n self e line p h).andThen ?_
      rintro flag _ s s' rfl h
      exact hk s s' h
  | act c => cases hmem
  | init pt => cases hmem
  | exit => cases hmem
  | restart => cases hmem

/-- A call of the function and a call of the coroutine. -/
theorem function_sim (hprog : ∀ pt, (prog pt).Numbered) (n : Nat) (self : S.Pt) (e : S.Args)
    (h : Comp.Beside (ResumesAll prog) s s') :
    Comp.Sim (Comp.Beside (ResumesAll prog)) Eq
      ((prog self).expand.function call n self e s) ((prog self).thread call' n self e s') := by
  unfold CCode.function PtStmt.thread
  refine Comp.Sim.bind (R := Comp.FlowRel FlagSet) ?_ ?_
  rotate_left
  · -- PT_END
    rintro r r' s s' hr h
    cases hr with
    | next _ => exact .ret (ResumesAll.set h self .start) rfl
    | leave status => exact .ret h rfl
  have hresumes := h.1 self
  generalize hr : s'.1 self = r at hresumes
  generalize hl : s.1 self = l at hresumes
  cases hresumes with
  | start =>
      have hlist : runList call' n self e [prog self] s' = (prog self).run call' n self e [] s' :=
        Comp.andThen_next _
      simp only [if_true]
      rw [hlist]
      exact run_sim hcall hprog n self e (prog self) (List.Subset.refl _) h
  | @inside line p rest hmem =>
      have hline := PtStmt.line_mem hmem
      have hpos : l ≠ 0 := Nat.ne_of_gt ((hprog self).2 l hline).1
      rw [if_neg hpos, if_pos ((hasLabel_expand _ l).mpr hline),
        ← Comp.andThen_next (CCode.execFrom ..)]
      refine jump_sim hcall hprog n self e (prog self) (List.Subset.refl _) (hprog self).1 hmem ?_ h
      intro s s' h
      exact .ret h (.next rfl)

end Simulation

/-- Every call of a protothread function, at every depth. -/
theorem call_sim {prog : S.Pt → PtStmt S} (hprog : ∀ pt, (prog pt).Numbered) (n d : Nat)
    (pt : S.Pt) (e : S.Args) {s : S.State Nat} {s' : S.State (PtResume S)}
    (h : Comp.Beside (ResumesAll prog) s s') :
    Comp.Sim (Comp.Beside (ResumesAll prog)) Eq (callExpanded prog n d pt e s)
      (callCoroutine prog n d pt e s') := by
  induction d generalizing pt e s s' with
  | zero => exact .stuck h
  | succ d ih => exact function_sim (fun pt e s s' h => ih pt e h) hprog n pt e h

/-! ## A program of protothreads -/

/-- A call of a protothread function by the main program, which may change the memory of the
application before. -/
structure PtCall (S : PtSetting) where
  pt : S.Pt
  args : S.Args
  change : S.Mem → S.Mem

/-- The main program makes calls one after the other; the value is what they have returned. -/
def drive {δ : Type} (call : S.Calls δ) : List (PtCall S) → S.State δ → S.Run δ (List Int)
  | [], s => .ret [] s
  | c :: calls, s =>
      (call c.pt c.args (s.1, c.change s.2)).bind fun status s =>
        (drive call calls s).bind fun statuses s => .ret (status :: statuses) s

/-- Over every sequence of calls the expanded code does what the coroutines do. -/
theorem drive_sim {prog : S.Pt → PtStmt S} (hprog : ∀ pt, (prog pt).Numbered) (n d : Nat)
    (calls : List (PtCall S)) {s : S.State Nat} {s' : S.State (PtResume S)}
    (h : Comp.Beside (ResumesAll prog) s s') :
    Comp.Sim (Comp.Beside (ResumesAll prog)) Eq (drive (callExpanded prog n d) calls s)
      (drive (callCoroutine prog n d) calls s') := by
  induction calls generalizing s s' with
  | nil => exact .ret h rfl
  | cons c calls ih =>
      have hchange : Comp.Beside (ResumesAll prog) (s.1, c.change s.2) (s'.1, c.change s'.2) :=
        ⟨h.1, congrArg c.change h.2⟩
      refine (call_sim hprog n d c.pt c.args hchange).bind ?_
      rintro status _ s s' rfl h
      refine (ih h).bind ?_
      rintro statuses _ s s' rfl h
      exact .ret h rfl

/-- From the initial control structures on, protothreads are coroutines. -/
theorem protothreads_are_coroutines (prog : S.Pt → PtStmt S)
    (hprog : ∀ pt, (prog pt).Numbered) (n d : Nat) (calls : List (PtCall S)) (m : S.Mem) :
    Comp.Sim (Comp.Beside (ResumesAll prog)) Eq
      (drive (callExpanded prog n d) calls (fun _ => 0, m))
      (drive (callCoroutine prog n d) calls (fun _ => .start, m)) :=
  drive_sim hprog n d calls ⟨fun _ => .start, rfl⟩

/-- Two protothreads over a memory cell, which is full (`true`) or empty. -/
def cellSetting : PtSetting where
  Pt := Bool
  Args := Unit
  Mem := Bool
  Ask := Empty
  Answer := Empty.elim

def cellThread : Bool → PtStmt cellSetting
  | true =>
      .loop (.expr fun _ full => .ret true full)
        (.seq (.waitUntil 20 (.expr fun _ full => .ret (!full) full))
          (.act fun _ _ => .ret () true))
  | false =>
      .seq (.waitUntil 31 (.expr fun _ full => .ret full full))
        (.seq (.act fun _ _ => .ret () false) (.seq (.yield 33) .exit))

def cellCalls : List (PtCall cellSetting) :=
  [⟨false, (), id⟩, ⟨true, (), id⟩, ⟨false, (), id⟩, ⟨false, (), id⟩]

def cellEmpty : cellSetting.Mem := false

theorem cellThread_numbered (pt : Bool) : (cellThread pt).Numbered := by
  cases pt <;> decide

/-- The consumer waits; the producer fills the cell and waits; the consumer empties it and
yields, and exits in its next call. -/
theorem cellThreads_are_coroutines :
    (∃ s, drive (callExpanded cellThread 3 1) cellCalls (fun _ => 0, cellEmpty) =
      .ret [0, 0, 1, 2] s) ∧
    Comp.Sim (Comp.Beside (ResumesAll cellThread)) Eq
      (drive (callExpanded cellThread 3 1) cellCalls (fun _ => 0, cellEmpty))
      (drive (callCoroutine cellThread 3 1) cellCalls (fun _ => .start, cellEmpty)) :=
  ⟨⟨_, rfl⟩, protothreads_are_coroutines cellThread cellThread_numbered 3 1 _ cellEmpty⟩

end EmbeddedMx
