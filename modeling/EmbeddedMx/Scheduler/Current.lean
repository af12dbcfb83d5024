import EmbeddedMx.Scheduler.Liveness

/-!
# The current process

`call_process` and `exit_process` save `process_current` on entry and restore it, each
for itself. What every frame of the stack finds in it when it goes on, and what it leaves
there when it returns, is a property of the frame alone; so one condition on the whole
stack says that every thread will find itself, and the caller from outside what it had.
-/

namespace EmbeddedMx

open EmbeddedMx.Lib

variable {σ : Type}

/-- What `process_current` is when the frame goes on. -/
def Frame.Expects : Frame σ → Nat → Prop
  | .thread self _ _, cur => cur = self
  | .resume self _ _, cur => cur = self
  | .called proc _ _, cur => cur = proc
  | .loop (.notify _ _ oldCurrent) _, cur => cur = oldCurrent
  | .loopNext (.notify _ _ oldCurrent) _, cur => cur = oldCurrent
  | .exitFind _ _ oldCurrent _, cur => cur = oldCurrent
  | _, _ => True

/-- What it is when the frame has returned, if it was `cur` when it went on. -/
def Frame.leaves : Frame σ → Nat → Nat
  | .called _ _ caller, _ => caller
  | .exitUnlink _ oldCurrent, _ => oldCurrent
  | .exitScan _ oldCurrent _, _ => oldCurrent
  | _, cur => cur

/-- Every frame will find what it expects, and the last one leaves `base`. -/
def Restores (base : Nat) : Nat → List (Frame σ) → Prop
  | cur, [] => cur = base
  | cur, f :: fs => f.Expects cur ∧ Restores base (f.leaves cur) fs

/-- `Restores` for the stack of `s`. -/
def Scheduler.Restores (base : Nat) (s : Scheduler σ) : Prop :=
  EmbeddedMx.Restores base s.processCurrent s.stack

/-- The thread of `self` is executing: it has just been called, or a call of it has just
returned. -/
def Scheduler.Executing (s : Scheduler σ) (self : Nat) : Prop :=
  ∃ msg fs, (∃ prog, s.stack = .thread self msg prog :: fs) ∨
    ∃ k, s.stack = .resume self msg k :: fs

section Calls

variable {base : Nat} {w : Width} {fw : Firmware σ} {s : Scheduler σ}

/-- The process that is called is the current one until it returns. -/
theorem callProcess_restores (h : s.Restores base) (proc ev : Nat) (msg : MsgArg) :
    (callProcess fw s proc ev msg).Restores base := by
  rcases callProcess_cases fw s proc ev msg with ⟨heq, -⟩ | ⟨thread, -, -, heq⟩
  · rw [heq]
    exact h
  · rw [heq]
    exact ⟨rfl, rfl, h⟩

/-- A frame that neither expects nor changes anything is pushed. -/
theorem Scheduler.Restores.push (h : s.Restores base) {f : Frame σ}
    (hexpects : f.Expects s.processCurrent)
    (hleaves : f.leaves s.processCurrent = s.processCurrent) : (s.push f).Restores base := by
  refine ⟨hexpects, ?_⟩
  show EmbeddedMx.Restores base (f.leaves s.processCurrent) s.stack
  rw [hleaves]
  exact h

theorem exitProcess_restores (h : s.Restores base) (proc fromprocess : Nat) :
    (exitProcess s proc fromprocess).Restores base := h.push rfl rfl

theorem schedulerUtilizePoll_restores (h : s.Restores base) :
    (schedulerUtilizePoll s).Restores base :=
  ⟨trivial, h⟩

theorem schedulerHandleMsg_restores (h : s.Restores base) (proc : Nat) (msg : List UInt8) :
    (schedulerHandleMsg w fw s proc msg).Restores base := by
  unfold schedulerHandleMsg
  split
  · exact h.push trivial rfl
  · exact callProcess_restores h ..

theorem schedulerRun_restores (h : s.Restores base) : (schedulerRun s).Restores base := by
  have hpushed : (((s.emit .run).push .runEnd).push .utilizeMessage).Restores base :=
    ⟨trivial, trivial, h⟩
  unfold schedulerRun
  dsimp only
  split
  · exact schedulerUtilizePoll_restores hpushed
  · exact hpushed

/-- Every call of the module. -/
theorem execCall_restores (h : s.Restores base) (c : ProcCall) :
    (execCall w fw s c).Restores base := by
  cases c with
  | poll self =>
      show (processPoll s self).Restores base
      unfold processPoll
      split
      · split
        · exact h
        · exact h
      · exact h
  | start self => exact h.push trivial rfl
  | exit self => exact exitProcess_restores h ..
  | handleMsg self msg => exact schedulerHandleMsg_restores h ..
  | run => exact schedulerRun_restores h

theorem postSend_restores (h : s.Restores base) (c : SendCall) :
    (postSend w s c).1.Restores base := by
  obtain ⟨heap, messages, status, heq⟩ := postSend_frame w s c
  rw [heq]
  exact h

end Calls

section Frames

variable {base : Nat} {w : Width} {fw : Firmware σ} {s : Scheduler σ}

theorem execThread_restores {self : Nat} (hself : s.processCurrent = self) (h : s.Restores base)
    (msg : MsgArg) (prog : ThreadProg σ) : (execThread w fw s self msg prog).Restores base := by
  cases prog with
  | ret code user => exact h
  | read k =>
      cases msg with
      | null => exact h.push hself rfl
      | node p => exact ⟨hself, h⟩
      | onStack msg => exact h.push hself rfl
      | finished process => exact h.push hself rfl
  | send c user k =>
      obtain ⟨heap, messages, status, heq⟩ := postSend_frame w { s with user := user } c
      unfold execThread
      dsimp only
      rw [heq]
      exact ⟨hself, h⟩
  | call c user k =>
      have hresume : ({ s with user := user }.push (.resume self msg k)).Restores base := ⟨hself, h⟩
      exact execCall_restores hresume c

/-- A loop over the process list. -/
theorem loop_restores {l : Loop} {tmp : Nat}
    (hexpects : (Frame.loop l tmp : Frame σ).Expects s.processCurrent)
    (h : s.Restores base) : (execFrame w fw s (.loop l tmp)).Restores base := by
  unfold execFrame
  dsimp only
  split
  · cases l with
    | notify proc fromprocess oldCurrent =>
        have hcur : s.processCurrent = oldCurrent := hexpects
        have hunlink : EmbeddedMx.Restores base oldCurrent s.stack := hcur ▸ h
        unfold loopEnd
        dsimp only
        split
        · exact ⟨trivial, hunlink⟩
        · split
          · -- the thread of the process itself, which is made the current one
            exact ⟨rfl, trivial, hunlink⟩
          · exact ⟨trivial, hunlink⟩
    | handle msg => exact h
    | poll => exact h
    | broadcast msgPtr => exact h.push trivial rfl
  · cases l with
    | notify proc fromprocess oldCurrent =>
        have hnext := h.push (f := .loopNext (.notify proc fromprocess oldCurrent) tmp) hexpects rfl
        unfold loopBody
        dsimp only
        split
        · exact callProcess_restores hnext ..
        · exact hnext
    | handle msg =>
        have hnext := h.push (f := .loopNext (.handle msg) tmp) trivial rfl
        exact callProcess_restores hnext ..
    | poll =>
        have hnext := h.push (f := .loopNext .poll tmp) trivial rfl
        unfold loopBody
        dsimp only
        split
        · apply callProcess_restores
          exact hnext
        · exact hnext
    | broadcast msgPtr =>
        have hnext := (h.push (f := .loopNext (.broadcast msgPtr) tmp) trivial rfl).push
          (f := .broadcastCall msgPtr tmp) trivial rfl
        unfold loopBody
        dsimp only
        split
        · exact schedulerUtilizePoll_restores hnext
        · exact hnext

/-- `scheduler_utilize_message` -/
theorem schedulerUtilizeMessage_restores (h : s.Restores base) :
    (schedulerUtilizeMessage w fw s).Restores base := by
  unfold schedulerUtilizeMessage
  dsimp only
  generalize msgListPop s.messages s.heap.mem = r
  split
  · exact h
  · generalize letterAt s.heap.mem r.2 = x
    split
    · exact ⟨trivial, h⟩
    · apply callProcess_restores
      split
      · exact ⟨trivial, h⟩
      · exact ⟨trivial, h⟩

/-- A frame is executed. -/
theorem execFrame_restores {f : Frame σ} (hexpects : f.Expects s.processCurrent)
    (h : EmbeddedMx.Restores base (f.leaves s.processCurrent) s.stack) :
    (execFrame w fw s f).Restores base := by
  cases f with
  | thread self msg prog => exact execThread_restores hexpects h msg prog
  | resume self msg k => exact ⟨hexpects, h⟩
  | called proc ev caller =>
      show (callReturned s proc ev caller).Restores base
      have hcaller : { s with processCurrent := caller }.Restores base := h
      unfold callReturned
      dsimp only
      split
      · exact exitProcess_restores hcaller ..
      · exact hcaller
  | loop l tmp =>
      refine loop_restores hexpects ?_
      cases l <;> exact h
  | loopNext l tmp =>
      cases l with
      | notify proc fromprocess oldCurrent => exact ⟨hexpects, h⟩
      | handle msg => exact ⟨trivial, h⟩
      | poll => exact ⟨trivial, h⟩
      | broadcast msgPtr => exact ⟨trivial, h⟩
  | broadcastCall msgPtr p =>
      exact callProcess_restores (s := s.emit (.deliver p _)) h ..
  | exitFind proc fromprocess oldCurrent tmp =>
      have hcur : s.processCurrent = oldCurrent := hexpects
      have hold : EmbeddedMx.Restores base oldCurrent s.stack := hcur ▸ h
      unfold execFrame
      dsimp only
      split
      · exact h
      · split
        · unfold exitFound
          split
          · exact ⟨trivial, hold⟩
          · exact ⟨hcur, h⟩
        · exact ⟨hcur, h⟩
  | exitUnlink proc oldCurrent =>
      unfold execFrame
      dsimp only
      split
      · exact h
      · exact ⟨trivial, h⟩
  | exitScan proc oldCurrent tmp =>
      unfold execFrame
      dsimp only
      split
      · exact h
      · split
        · exact h
        · exact ⟨trivial, h⟩
  | startFind proc tmp =>
      unfold execFrame
      dsimp only
      split
      · exact h
      · split
        · apply callProcess_restores
          exact h
        · exact ⟨trivial, h⟩
  | utilizeMessage => exact schedulerUtilizeMessage_restores h
  | msgFree msgPtr => exact h
  | runEnd => exact h

end Frames

/-! ## Runs -/

/-- A step from outside keeps `base`, and so does every step of the machine. -/
theorem SchedStep.restores {base : Nat} {w : Width} {fw : Firmware σ} {s s' : Scheduler σ}
    {i : Option (σ × ApiCall)} (hstep : SchedStep w fw s i s') (h : s.Restores base) :
    s'.Restores base := by
  cases hstep with
  | exec hstack =>
      unfold Scheduler.Restores at h
      rw [hstack] at h
      obtain ⟨hexpects, hrest⟩ := h
      exact execFrame_restores hexpects hrest
  | @call user c hstack =>
      cases c with
      | send c => exact postSend_restores (s := { s with user := user }) h c
      | proc c => exact execCall_restores (s := { s with user := user }) h c

/-- **The current process.** In every run from a state where no thread is executing, whatever
calls are made, a thread that is entered, or that a call has returned to, is the one of the
current process; and when no thread is executing any more the current process is what it
was. -/
theorem current_process (w : Width) (fw : Firmware σ) (n : Nat) {s s' : Scheduler σ}
    (hs : s.stack = []) (hreach : ((schedCalls w fw n).starting s).Reachable s') :
    (∀ self, s'.Executing self → s'.processCurrent = self) ∧
      (s'.stack = [] → s'.processCurrent = s.processCurrent) := by
  have hinv : ((schedCalls w fw n).starting s).Invariant
      (Scheduler.Restores s.processCurrent) := by
    apply TSys.Inductive.invariant
    constructor
    · rintro _ rfl
      unfold Scheduler.Restores
      rw [hs]
      rfl
    · intro t i t' h hstep
      exact SchedStep.restores hstep h
  have h := hinv s' hreach
  unfold Scheduler.Restores at h
  constructor
  · rintro self ⟨msg, fs, ⟨prog, hstack⟩ | ⟨k, hstack⟩⟩
    · rw [hstack] at h
      exact h.1
    · rw [hstack] at h
      exact h.1
  · intro hstack
    rw [hstack] at h
    exact h

/-- A process that runs the scheduler from its INIT event; that call has returned. -/
theorem current_process_nested :
    let fw := lonely (.call .run () fun _ => .ret 0 ())
    let s := (startedAlone fw).steps .one fw 4
    s.Executing 16 ∧ s.processCurrent = 16 := by
  intro fw s
  have hreach : ((schedCalls .one fw 64).starting (schedulerInit (fun _ => 0) 16 64 ())).Reachable
      s := by
    have hstart : SchedStep .one fw (schedulerInit (fun _ => 0) 16 64 ())
        (some ((), .proc (.start 16))) (startedAlone fw) := .call rfl
    have hstarted : ((schedCalls .one fw 64).starting
        (schedulerInit (fun _ => 0) 16 64 ())).Reachable (startedAlone fw) := .step (.init rfl) hstart
    have hsteps : ∀ j < 4, ((startedAlone fw).steps .one fw j).stack.isEmpty = false := by
      decide +kernel
    exact reachable_execs hstarted fun j hj => .of_nonempty .one fw (hsteps j hj)
  have hexecuting : s.Executing 16 := ⟨.null, _, .inr ⟨_, rfl⟩⟩
  exact ⟨hexecuting, (current_process .one fw 64 rfl hreach).1 16 hexecuting⟩

end EmbeddedMx
