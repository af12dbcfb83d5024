import EmbeddedMx.Lib.Comp
import EmbeddedMx.Scheduler.Model

/-!
# Protothreads (`pt.h`, `lc-switch.h`)

A protothread is a C function whose body stands between `PT_BEGIN` and `PT_END`. The macros
`PT_WAIT_UNTIL` and `PT_YIELD` leave the function in the middle of its body, and the next
call goes on behind the place where it was left: `LC_SET` stores the line number and puts a
`case` label there, and `LC_RESUME` is a `switch` into the body.

`PtStmt` is the language in which protothreads are written, `CCode` what the preprocessor
makes of it (`PtStmt.expand`). `CCode.exec` runs the expanded code: from its beginning, or,
`CCode.execFrom`, from a label inside of an `if` or a loop, as `switch` does. What the
application computes between the macros is a parameter, as are the calls it makes.
-/

namespace EmbeddedMx

open EmbeddedMx.Lib

def ptWaiting : Int := 0
def ptYielded : Int := 1

/-- What protothreads are written over: their control structures (`struct pt`), the arguments
of their functions, the memory of the application, and what it asks of its surroundings. -/
structure PtSetting where
  Pt : Type
  [decEq : DecidableEq Pt]
  Args : Type
  Mem : Type
  Ask : Type
  Answer : Ask → Type

attribute [instance] PtSetting.decEq

/-! ## The source -/

variable (S : PtSetting)

/-- A piece of the application between the macros. -/
abbrev PtSetting.Piece (α : Type) : Type := S.Args → S.Mem → Comp S.Ask S.Answer S.Mem α

/-- A condition: an expression of the application, or `PT_SCHEDULE` of a protothread. -/
inductive PtCond
  | expr (c : S.Piece Bool)
  | schedule (pt : S.Pt) (args : S.Args → S.Mem → S.Args)
  | not (c : PtCond)

/-- A place where a protothread may stop. -/
inductive PtPoint
  | waitUntil (c : PtCond S)
  | yield
  | yieldUntil (c : PtCond S)

/-- The body of a protothread. A point stands on a line of the source file. -/
inductive PtStmt
  | act (c : S.Piece Unit)
  | seq (a b : PtStmt)
  | ite (c : PtCond S) (a b : PtStmt)
  | loop (c : PtCond S) (body : PtStmt)
  | point (line : Nat) (p : PtPoint S)
  | init (pt : S.Pt)
  | exit
  | restart

variable {S}

def PtStmt.waitUntil (line : Nat) (c : PtCond S) : PtStmt S := .point line (.waitUntil c)

def PtStmt.waitWhile (line : Nat) (c : PtCond S) : PtStmt S := .waitUntil line (.not c)

def PtStmt.waitThread (line : Nat) (child : S.Pt) (args : S.Args → S.Mem → S.Args) : PtStmt S :=
  .waitWhile line (.schedule child args)

def PtStmt.spawn (line : Nat) (child : S.Pt) (args : S.Args → S.Mem → S.Args) : PtStmt S :=
  .seq (.init child) (.waitThread line child args)

def PtStmt.yield (line : Nat) : PtStmt S := .point line .yield

def PtStmt.yieldUntil (line : Nat) (c : PtCond S) : PtStmt S := .point line (.yieldUntil c)

/-- The lines of the points. -/
def PtStmt.lines : PtStmt S → List Nat
  | .seq a b => a.lines ++ b.lines
  | .ite _ a b => a.lines ++ b.lines
  | .loop _ body => body.lines
  | .point line _ => [line]
  | _ => []

/-! ## The expansion -/

variable (S)

/-- What an `if` of a macro tests. -/
inductive CTest
  | cond (c : PtCond S)
  /-- `PT_YIELD_FLAG == 0` -/
  | flagClear
  | not (t : CTest)
  | or (t u : CTest)

/-- The body of the `switch` of a protothread function. -/
inductive CCode
  | skip
  | act (c : S.Piece Unit)
  | seq (a b : CCode)
  | ite (t : CTest S) (a b : CCode)
  | loop (c : PtCond S) (body : CCode)
  /-- `case l:` -/
  | label (l : Nat)
  /-- `pt->lc = l` -/
  | setLc (l : Nat)
  /-- `PT_YIELD_FLAG = 0` -/
  | clearFlag
  /-- `PT_INIT`, for `none` of the protothread itself -/
  | initLc (pt : Option S.Pt)
  | ret (status : Int)

variable {S}

def CCode.lcSet (line : Nat) : CCode S := .seq (.setLc line) (.label line)

def PtPoint.expand (line : Nat) : PtPoint S → CCode S
  | .waitUntil c => .seq (.lcSet line) (.ite (.not (.cond c)) (.ret ptWaiting) .skip)
  | .yield => .seq .clearFlag (.seq (.lcSet line) (.ite .flagClear (.ret ptYielded) .skip))
  | .yieldUntil c =>
      .seq .clearFlag
        (.seq (.lcSet line) (.ite (.or .flagClear (.not (.cond c))) (.ret ptYielded) .skip))

def PtStmt.expand : PtStmt S → CCode S
  | .act c => .act c
  | .seq a b => .seq a.expand b.expand
  | .ite c a b => .ite (.cond c) a.expand b.expand
  | .loop c body => .loop c body.expand
  | .point line p => p.expand line
  | .init pt => .initLc (some pt)
  | .exit => .seq (.initLc none) (.ret ptExited)
  | .restart => .seq (.initLc none) (.ret ptWaiting)

/-! ## Running the expanded code -/

/-- The memory while protothreads run: of each control structure what `δ` keeps of it, and the
memory of the application. -/
abbrev PtSetting.State (S : PtSetting) (δ : Type) : Type := (S.Pt → δ) × S.Mem

abbrev PtSetting.Run (S : PtSetting) (δ α : Type) : Type := Comp S.Ask S.Answer (S.State δ) α

/-- The protothread functions, as far as they may be called. -/
abbrev PtSetting.Calls (S : PtSetting) (δ : Type) : Type :=
  S.Pt → S.Args → S.State δ → S.Run δ Int

section Running

variable {δ : Type}

def PtSetting.State.set (s : S.State δ) (pt : S.Pt) (d : δ) : S.State δ :=
  (Function.update s.1 pt d, s.2)

/-- A condition is evaluated. `PT_SCHEDULE` calls the function of the protothread. -/
def PtCond.eval (call : S.Calls δ) (e : S.Args) : PtCond S → S.State δ → S.Run δ Bool
  | .expr c, s => (c e s.2).frame s.1
  | .schedule pt args, s =>
      (call pt (args e s.2) s).bind fun status s => .ret (decide (status < ptExited)) s
  | .not c, s => (c.eval call e s).bind fun b s => .ret (!b) s

def CTest.eval (call : S.Calls δ) (e : S.Args) (flag : Bool) : CTest S → S.State δ → S.Run δ Bool
  | .cond c, s => c.eval call e s
  | .flagClear, s => .ret (!flag) s
  | .not t, s => (t.eval call e flag s).bind fun b s => .ret (!b) s
  | .or t u, s =>
      (t.eval call e flag s).bind fun b s => if b then .ret true s else u.eval call e flag s

/-- `lc_t` is an `unsigned short`. -/
def lcValue (line : Nat) : Nat := line % 2 ^ 16

/-- The code is executed from its beginning, `flag` being `PT_YIELD_FLAG`. A loop may make `n`
turns. -/
def CCode.exec (call : S.Calls Nat) (n : Nat) (self : S.Pt) (e : S.Args) :
    CCode S → Bool → S.State Nat → S.Run Nat (Flow Bool)
  | .skip, flag, s => .ret (.next flag) s
  | .act c, flag, s => ((c e s.2).frame s.1).bind fun _ s => .ret (.next flag) s
  | .seq a b, flag, s => (a.exec call n self e flag s).andThen (b.exec call n self e)
  | .ite t a b, flag, s =>
      (t.eval call e flag s).bind fun r s =>
        if r then a.exec call n self e flag s else b.exec call n self e flag s
  | .loop c body, flag, s =>
      Comp.whileN (c.eval call e) (body.exec call n self e) n flag s
  | .label _, flag, s => .ret (.next flag) s
  | .setLc l, flag, s => .ret (.next flag) (s.set self (lcValue l))
  | .clearFlag, _, s => .ret (.next false) s
  | .initLc pt, flag, s => .ret (.next flag) (s.set (pt.getD self) 0)
  | .ret status, _, s => .ret (.leave status) s

def CCode.hasLabel (l : Nat) : CCode S → Bool
  | .seq a b => a.hasLabel l || b.hasLabel l
  | .ite _ a b => a.hasLabel l || b.hasLabel l
  | .loop _ body => body.hasLabel l
  | .label l' => l' = l
  | _ => false

/-- The code is executed from its label `l`. -/
def CCode.execFrom (call : S.Calls Nat) (n : Nat) (self : S.Pt) (e : S.Args) (l : Nat) :
    CCode S → Bool → S.State Nat → S.Run Nat (Flow Bool)
  | .seq a b, flag, s =>
      if a.hasLabel l then
        (a.execFrom call n self e l flag s).andThen (b.exec call n self e)
      else b.execFrom call n self e l flag s
  | .ite _ a b, flag, s =>
      if a.hasLabel l then a.execFrom call n self e l flag s
      else b.execFrom call n self e l flag s
  | .loop c body, flag, s =>
      -- from inside of the body the next turn begins with the test
      (body.execFrom call n self e l flag s).andThen ((CCode.loop c body).exec call n self e)
  | _, flag, s => .ret (.next flag) s

/-- The function of the protothread `self`, with its body between `PT_BEGIN` and `PT_END`. -/
def CCode.function (call : S.Calls Nat) (n : Nat) (self : S.Pt) (body : CCode S) (e : S.Args)
    (s : S.State Nat) : S.Run Nat Int :=
  -- PT_YIELD_FLAG = 1; switch (pt->lc) { case 0:
  let lc := s.1 self
  let r :=
    if lc = 0 then body.exec call n self e true s
    else if body.hasLabel lc then body.execFrom call n self e lc true s
    else .ret (.next true) s
  r.bind fun r s =>
    match r with
    | .leave status => .ret status s
    | .next _ => .ret ptEnded (s.set self 0)

/-- The protothread functions of a program, which may call each other to the depth `d`. -/
def callExpanded (prog : S.Pt → PtStmt S) (n : Nat) : Nat → S.Calls Nat
  | 0 => fun _ _ s => .stuck s
  | d + 1 => fun pt e s => (prog pt).expand.function (callExpanded prog n d) n pt e s

end Running

end EmbeddedMx
