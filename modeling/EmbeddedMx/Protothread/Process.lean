import EmbeddedMx.Protothread.Expansion
import EmbeddedMx.Scheduler.Firmware

/-!
# Processes written as protothreads (`process.h`)

`PROCESS_THREAD` defines the thread of a process as a protothread over `self->pt`. Its pieces
read the message they were called with, send messages and call the scheduler, which may call
threads meanwhile, even the same one. With the expanded code or with coroutines as threads, the
scheduler has the same runs.
-/

namespace EmbeddedMx

open EmbeddedMx.Lib

/-- What a thread asks of the scheduler. -/
inductive ThreadAsk
  | read
  | send (c : SendCall)
  | call (c : ProcCall)

def ThreadAnswer : ThreadAsk → Type
  | .read => List UInt8
  | .send _ => Int
  | .call _ => Unit

/-- The arguments of a protothread function: `ev` and `msg` of a process thread, and whatever
`κ` other protothreads have. -/
structure ProcessArgs (κ : Type) where
  ev : Nat
  msg : MsgArg
  other : κ

/-- An application: the control structures `Pt`, of which every process has its own, further
arguments, and memory. -/
def processSetting (Pt κ μ : Type) [DecidableEq Pt] : PtSetting where
  Pt := Pt
  Args := ProcessArgs κ
  Mem := μ
  Ask := ThreadAsk
  Answer := ThreadAnswer

/-- A call of a protothread function as the scheduler sees it. One that does not come to its
end within the bounds on turns and depth is cut off. -/
def toThread {σ : Type} : Comp ThreadAsk ThreadAnswer σ Int → ThreadProg σ
  | .ret code s => .ret code s
  | .stuck s => .ret ptWaiting s
  | .ask .read s k => .read fun bytes => toThread (k bytes s)
  | .ask (.send c) s k => .send c s fun s status => toThread (k status s)
  | .ask (.call c) s k => .call c s fun s => toThread (k () s)

section Processes

variable {Pt κ μ : Type} [DecidableEq Pt]

/-- The application whose process `p` has the thread over `pts p`. `PT_INIT` sets a control
structure to `init`. -/
def protothreadFirmware {δ : Type} (init : δ) (call : (processSetting Pt κ μ).Calls δ)
    (pts : Nat → Option Pt) (other : κ) : Firmware ((processSetting Pt κ μ).State δ) where
  thread p := (pts p).map fun pt ev msg s => toThread (call pt ⟨ev, msg, other⟩ s)
  ptInit p s :=
    match pts p with
    | none => s
    | some pt => s.set pt init

/-- `PROCESS_PAUSE`; the message type `PROCESS_EV_CONTINUE` and the process are the
application's. -/
def PtStmt.processPause (line self evContinue : Nat) : PtStmt (processSetting Pt κ μ) :=
  .seq (.act fun _ m => .ask (.send (.p0 self evContinue)) m fun _ m => .ret () m)
    (.yieldUntil line (.expr fun e m => .ret (decide (e.ev = evContinue)) m))

theorem toThread_sim {σ σ' : Type} {I : σ → σ' → Prop}
    {c : Comp ThreadAsk ThreadAnswer σ Int} {c' : Comp ThreadAsk ThreadAnswer σ' Int}
    (h : Comp.Sim I Eq c c') : (toThread c).Sim I (toThread c') := by
  induction h with
  | ret hI heq => exact heq ▸ .ret hI
  | stuck hI => exact .ret hI
  | @ask q s s' k k' hI hk ih =>
      cases q with
      | read => exact .read fun bytes => ih bytes _ _ hI
      | send c => exact .send hI fun s s' status hI => ih status _ _ hI
      | call c => exact .call hI fun s s' hI => ih () _ _ hI

/-- The expanded code and the coroutines, as applications. -/
theorem protothreadFirmware_sim {prog : (processSetting Pt κ μ).Pt → PtStmt (processSetting Pt κ μ)}
    (hprog : ∀ pt, (prog pt).Numbered) (turns depth : Nat) (pts : Nat → Option Pt) (other : κ) :
    (protothreadFirmware 0 (callExpanded prog turns depth) pts other).Sim
      (Comp.Beside (ResumesAll prog))
      (protothreadFirmware .start (callCoroutine prog turns depth) pts other) where
  thread_none p := Option.map_eq_none_iff.trans Option.map_eq_none_iff.symm
  thread p t t' ht ht' ev msg s s' h := by
    obtain ⟨pt, hp, rfl⟩ := Option.map_eq_some_iff.mp ht
    obtain ⟨pt', hp', rfl⟩ := Option.map_eq_some_iff.mp ht'
    obtain rfl : pt = pt' := Option.some.inj (hp.symm.trans hp')
    exact toThread_sim (call_sim hprog turns depth pt _ h)
  ptInit p s s' h := by
    dsimp only [protothreadFirmware]
    cases pts p with
    | none => exact h
    | some pt => exact ResumesAll.set h pt .start

/-- The main program changes the memory of the application, but no control structure. -/
def KeepsPts {δ : Type} (s s' : (processSetting Pt κ μ).State δ) : Prop := s'.1 = s.1

/-- The runs of the scheduler, over a pool of `n` bytes, with the threads `call`. -/
def processSystem {δ : Type} (w : Width) (init : δ) (call : (processSetting Pt κ μ).Calls δ)
    (pts : Nat → Option Pt) (other : κ) (mem : Mem) (buffer n : Nat) (m : μ) :
    TSys (Scheduler ((processSetting Pt κ μ).State δ))
      (Option ((processSetting Pt κ μ).State δ × ApiCall)) :=
  ((schedSystem w (protothreadFirmware init call pts other) n).restrict (MainKeeps KeepsPts)).starting
    (schedulerInit mem buffer n (fun _ => init, m))

/-- The scheduler has the same runs with the expanded code of the processes and with their
coroutines as threads. -/
theorem process_threads_are_coroutines (w : Width) (n : Nat)
    (prog : (processSetting Pt κ μ).Pt → PtStmt (processSetting Pt κ μ)) (hprog : ∀ pt, (prog pt).Numbered)
    (turns depth : Nat) (pts : Nat → Option Pt) (other : κ) (mem : Mem) (buffer : Nat) (m : μ) :
    (∀ s, (processSystem w 0 (callExpanded prog turns depth) pts other mem buffer n m).Reachable s →
      ∃ s', (processSystem w .start (callCoroutine prog turns depth) pts other mem buffer n
        m).Reachable s' ∧ s.Sim (Comp.Beside (ResumesAll prog)) s') ∧
    ∀ s', (processSystem w .start (callCoroutine prog turns depth) pts other mem buffer n
        m).Reachable s' →
      ∃ s, (processSystem w 0 (callExpanded prog turns depth) pts other mem buffer n
        m).Reachable s ∧ s'.Sim (flip (Comp.Beside (ResumesAll prog))) s := by
  have hfw := protothreadFirmware_sim hprog turns depth pts other
  have hinit : Comp.Beside (ResumesAll prog) (fun _ => 0, m) (fun _ => .start, m) :=
    ⟨fun _ => .start, rfl⟩
  constructor
  · intro s hs
    refine schedRun_sim hfw ?_ (schedulerInit_sim mem buffer n hinit) hs
    rintro u u' v hI hv
    exact ⟨(u'.1, v.2), ⟨hv ▸ hI.1, rfl⟩, rfl⟩
  · intro s' hs'
    refine schedRun_sim hfw.symm ?_ (schedulerInit_sim mem buffer n hinit) hs'
    rintro u u' v hI hv
    exact ⟨(u'.1, v.2), ⟨hv ▸ hI.1, rfl⟩, rfl⟩

end Processes

/-- A process that answers every message of type 0x10 with one of type 0x11 to process 2. -/
def answerThread (_ : Nat) : PtStmt (processSetting Nat Unit Unit) :=
  .loop (.expr fun _ m => .ret true m)
    (.seq (.yieldUntil 12 (.expr fun e m => .ret (decide (e.ev = 0x10)) m))
      (.act fun _ m => .ask (.send (.p0 2 0x11)) m fun _ m => .ret () m))

theorem answerThread_numbered (pt : Nat) : (answerThread pt).Numbered :=
  ⟨List.pairwise_singleton _ 12, List.forall_mem_singleton.mpr (by decide)⟩

/-- With this thread for process 1, every run with the coroutine is one of the expanded code. -/
theorem answerThread_is_coroutine :
    (∀ s, (processSystem .one 0 (callExpanded answerThread 2 1)
        (fun p => if p = 1 then some 1 else none) () (fun _ => 0) 0 512 ()).Reachable s →
      ∃ s', (processSystem .one .start (callCoroutine answerThread 2 1)
        (fun p => if p = 1 then some 1 else none) () (fun _ => 0) 0 512 ()).Reachable s' ∧
          s.Sim (Comp.Beside (ResumesAll answerThread)) s') ∧
    ∀ s', (processSystem .one .start (callCoroutine answerThread 2 1)
        (fun p => if p = 1 then some 1 else none) () (fun _ => 0) 0 512 ()).Reachable s' →
      ∃ s, (processSystem .one 0 (callExpanded answerThread 2 1)
        (fun p => if p = 1 then some 1 else none) () (fun _ => 0) 0 512 ()).Reachable s ∧
          s'.Sim (flip (Comp.Beside (ResumesAll answerThread))) s :=
  process_threads_are_coroutines .one 512 answerThread answerThread_numbered 2 1 _ () _ 0 ()

end EmbeddedMx
