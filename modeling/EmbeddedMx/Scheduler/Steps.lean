import EmbeddedMx.Scheduler.Machine

/-!
# What a step can do

Every step of the machine is a local part, which pushes frames, logs events and
possibly changes the state or the links of one process, and then at most one
`call_process`. `Local` and `Calls` say which local parts and which calls there
are; the invariants of the scheduler are derived from them and never unfold the
machine again.
-/

namespace EmbeddedMx

open EmbeddedMx.Lib

variable {σ : Type}

/-- `proc->state` -/
def Scheduler.st (s : Scheduler σ) (p : Nat) : ProcessState := (s.procs p).state

/-- The thread that has returned to `call_process` goes on: it has not ended, and the
event was not its exit. -/
def Scheduler.Continues (s : Scheduler σ) (ev : Nat) : Prop :=
  ¬ (s.ret = ptExited ∨ s.ret = ptEnded ∨ ev = processEvExit)

/-- The node of the message that is taken next. -/
def Scheduler.popped (s : Scheduler σ) : Nat := (msgListPop s.messages s.heap.mem).2

/-- The frames that a call pushes, besides those of `call_process`, and its events. -/
inductive CallPushes (s : Scheduler σ) : ProcCall → List (Frame σ) → List SchedEvent → Prop
  | poll {p : Nat} : CallPushes s (.poll p) [] []
  | start {p : Nat} : CallPushes s (.start p) [.startFind p s.processHead] []
  | exit {p : Nat} :
      CallPushes s (.exit p) [.exitFind p s.processCurrent s.processCurrent s.processHead] []
  | handle {p : Nat} {msg : List UInt8} : p ≠ processBroadcast →
      CallPushes s (.handleMsg p msg) [] []
  | handleAll {msg : List UInt8} :
      CallPushes s (.handleMsg processBroadcast msg) [.loop (.handle msg) s.processHead] []
  | run : CallPushes s .run [.utilizeMessage, .runEnd] [.run]
  | runPoll : CallPushes s .run [.loop .poll s.processHead, .utilizeMessage, .runEnd] [.run]

/-- Whose turn it is: the top frame, or the main program makes a call. -/
inductive Turn (σ : Type)
  | frame (f : Frame σ)
  | outside (c : ApiCall)

/-- The frames that the turn takes from the stack. -/
def Turn.frames : Turn σ → List (Frame σ)
  | .frame f => [f]
  | .outside _ => []

/-- The frames that are pushed in a turn and the events that are logged, where no
process changes. -/
inductive Pushes (w : Width) (s : Scheduler σ) :
    Turn σ → List (Frame σ) → List SchedEvent → Prop
  | outside {c new evs} : CallPushes s c new evs → Pushes w s (.outside (.proc c)) new evs
  | outsideSend {c : SendCall} {status} :
      Pushes w s (.outside (.send c)) [] [.send (c.letter w) status]
  | ret {self msg code user} : Pushes w s (.frame (.thread self msg (.ret code user))) [] []
  | read {self msg k bytes} : (∀ p, msg ≠ .node p) →
      Pushes w s (.frame (.thread self msg (.read k))) [.thread self msg (k bytes)] []
  | readNode {self p k} :
      Pushes w s (.frame (.thread self (.node p) (.read k)))
        [.thread self (.node p) (k (letterAt s.heap.mem p).bytes)]
        [.read self (letterAt s.heap.mem p).bytes]
  | send {self msg c user k user' status} :
      Pushes w s (.frame (.thread self msg (.send c user k))) [.thread self msg (k user' status)]
        [.send (c.letter w) status]
  | call {self msg c user k new evs} : CallPushes s c new evs →
      Pushes w s (.frame (.thread self msg (.call c user k))) (new ++ [.resume self msg k]) evs
  | resume {self msg k} : Pushes w s (.frame (.resume self msg k)) [.thread self msg (k s.user)] []
  | returned {proc ev caller} : ¬ s.Continues ev →
      Pushes w s (.frame (.called proc ev caller)) [.exitFind proc proc caller s.processHead] []
  | notify {proc fromprocess old tmp} : tmp ≠ 0 →
      Pushes w s (.frame (.loop (.notify proc fromprocess old) tmp))
        [.loopNext (.notify proc fromprocess old) tmp] []
  | handle {msg tmp} : tmp ≠ 0 →
      Pushes w s (.frame (.loop (.handle msg) tmp)) [.loopNext (.handle msg) tmp] []
  | poll {tmp} : tmp ≠ 0 → (s.procs tmp).needspoll = false →
      Pushes w s (.frame (.loop .poll tmp)) [.loopNext .poll tmp] []
  | broadcast {msgPtr tmp} : tmp ≠ 0 →
      Pushes w s (.frame (.loop (.broadcast msgPtr) tmp))
        [.broadcastCall msgPtr tmp, .loopNext (.broadcast msgPtr) tmp] []
  | broadcastPoll {msgPtr tmp} : tmp ≠ 0 →
      Pushes w s (.frame (.loop (.broadcast msgPtr) tmp))
        [.loop .poll s.processHead, .broadcastCall msgPtr tmp, .loopNext (.broadcast msgPtr) tmp] []
  | notifyEnd {proc fromprocess old} :
      Pushes w s (.frame (.loop (.notify proc fromprocess old) 0)) [.exitUnlink proc old] []
  | handleEnd {msg} : Pushes w s (.frame (.loop (.handle msg) 0)) [] []
  | pollEnd : Pushes w s (.frame (.loop .poll 0)) [] []
  | broadcastEnd {msgPtr} : Pushes w s (.frame (.loop (.broadcast msgPtr) 0)) [.msgFree msgPtr] []
  | loopNext {l tmp} : Pushes w s (.frame (.loopNext l tmp)) [.loop l (s.next tmp)] []
  | broadcastCall {msgPtr p} : Pushes w s (.frame (.broadcastCall msgPtr p)) []
      [.deliver p (letterAt s.heap.mem msgPtr).bytes]
  | findNone {proc fromprocess old} : Pushes w s (.frame (.exitFind proc fromprocess old 0)) [] []
  | findOff {proc fromprocess old} : proc ≠ 0 → s.st proc = .none →
      Pushes w s (.frame (.exitFind proc fromprocess old proc)) [.exitUnlink proc old] []
  | findNext {proc fromprocess old tmp} : tmp ≠ 0 → tmp ≠ proc →
      Pushes w s (.frame (.exitFind proc fromprocess old tmp))
        [.exitFind proc fromprocess old (s.next tmp)] []
  | unlink {proc old} : proc ≠ s.processHead →
      Pushes w s (.frame (.exitUnlink proc old)) [.exitScan proc old s.processHead] []
  | scanNone {proc old} : Pushes w s (.frame (.exitScan proc old 0)) [] []
  | scanNext {proc old tmp} : tmp ≠ 0 → s.next tmp ≠ proc →
      Pushes w s (.frame (.exitScan proc old tmp)) [.exitScan proc old (s.next tmp)] []
  | startFound {proc} : Pushes w s (.frame (.startFind proc proc)) [] []
  | startNext {proc tmp} : tmp ≠ proc → tmp ≠ 0 →
      Pushes w s (.frame (.startFind proc tmp)) [.startFind proc (s.next tmp)] []
  | idle : s.popped = 0 → Pushes w s (.frame .utilizeMessage) [] [.idle]
  | takeAll {msgPtr x} : s.popped = msgPtr → msgPtr ≠ 0 → letterAt s.heap.mem msgPtr = x →
      x.receiver = processBroadcast →
      Pushes w s (.frame .utilizeMessage) [.loop (.broadcast msgPtr) s.processHead] [.take x]
  | take {msgPtr x} : s.popped = msgPtr → msgPtr ≠ 0 → letterAt s.heap.mem msgPtr = x →
      x.receiver ≠ processBroadcast → nodeType w s.heap.mem msgPtr ≠ processEvInit →
      Pushes w s (.frame .utilizeMessage) [.msgFree msgPtr] [.take x, .deliver x.receiver x.bytes]
  | msgFree {msgPtr} : Pushes w s (.frame (.msgFree msgPtr)) [] []
  | runEnd {n} : Pushes w s (.frame .runEnd) [] [.done n]

/-- The local part of a step, with the frames `fs` below it. -/
inductive Local (w : Width) (fw : Firmware σ) (s : Scheduler σ) (fs : List (Frame σ)) :
    Turn σ → Scheduler σ → Prop
  /-- no process changes -/
  | quiet {f new evs s₁} : Pushes w s f new evs → s₁.next = s.next →
      s₁.processHead = s.processHead → s₁.st = s.st → s₁.stack = new ++ fs →
      s₁.log = s.log ++ evs → Local w fw s fs f s₁
  /-- a call has returned -/
  | returned {p ev caller s₁} : s.Continues ev → s₁.next = s.next → s₁.processHead = s.processHead →
      s₁.st = Function.update s.st p .running →
      s₁.stack = fs → s₁.log = s.log → Local w fw s fs (.frame (.called p ev caller)) s₁
  /-- a process is polled -/
  | polled {tmp s₁} : tmp ≠ 0 → (s.procs tmp).needspoll = true → s₁.next = s.next →
      s₁.processHead = s.processHead → s₁.st = Function.update s.st tmp .running →
      s₁.stack = .loopNext .poll tmp :: fs → s₁.log = s.log →
      Local w fw s fs (.frame (.loop .poll tmp)) s₁
  /-- an INIT event is taken from the message list -/
  | inited {msgPtr x s₁} : s.popped = msgPtr → msgPtr ≠ 0 → letterAt s.heap.mem msgPtr = x →
      x.receiver ≠ processBroadcast → nodeType w s.heap.mem msgPtr = processEvInit →
      s₁.next = s.next → s₁.processHead = s.processHead →
      s₁.st = Function.update s.st x.receiver .running → s₁.stack = .msgFree msgPtr :: fs →
      s₁.log = s.log ++ [.take x, .deliver x.receiver x.bytes] →
      Local w fw s fs (.frame .utilizeMessage) s₁
  /-- a process is taken off duty -/
  | off {p fromprocess old s₁} : p ≠ 0 → s.st p ≠ .none → s₁.next = s.next →
      s₁.processHead = s.processHead → s₁.st = Function.update s.st p .none →
      s₁.stack = .loop (.notify p fromprocess old) s.processHead :: fs →
      s₁.log = s.log ++ [.off p] → Local w fw s fs (.frame (.exitFind p fromprocess old p)) s₁
  /-- a process is informed of its own exit -/
  | farewell {p fromprocess old thread s₁} : fw.thread p = some thread → p ≠ fromprocess →
      s₁.next = s.next → s₁.processHead = s.processHead → s₁.st = s.st →
      s₁.stack = .thread p .null (thread processEvExit .null s.user) :: .exitUnlink p old :: fs →
      s₁.log = s.log ++ [.enter p processEvExit .null] →
      Local w fw s fs (.frame (.loop (.notify p fromprocess old) 0)) s₁
  /-- the first process leaves the list -/
  | leaveHead {old s₁} : s₁.next = s.next → s₁.processHead = s.next s.processHead →
      s₁.st = s.st → s₁.stack = fs → s₁.log = s.log ++ [.leave s.processHead] →
      Local w fw s fs (.frame (.exitUnlink s.processHead old)) s₁
  /-- the process behind `tmp` leaves the list -/
  | leave {old tmp s₁} : tmp ≠ 0 →
      s₁.next = Function.update s.next tmp (s.next (s.next tmp)) →
      s₁.processHead = s.processHead → s₁.st = s.st → s₁.stack = fs →
      s₁.log = s.log ++ [.leave (s.next tmp)] →
      Local w fw s fs (.frame (.exitScan (s.next tmp) old tmp)) s₁
  /-- a process joins the list -/
  | join {p s₁} : p ≠ 0 → s₁.next = Function.update s.next p s.processHead →
      s₁.processHead = p → s₁.st = Function.update s.st p .running → s₁.stack = fs →
      s₁.log = s.log ++ [.join p] → Local w fw s fs (.frame (.startFind p 0)) s₁

/-- The call of `call_process` in a step. -/
inductive Calls (w : Width) (s : Scheduler σ) : Turn σ → Nat → Nat → MsgArg → Prop
  | outside {p bytes} : p ≠ processBroadcast →
      Calls w s (.outside (.proc (.handleMsg p bytes))) p (bytesType w bytes) (.onStack bytes)
  | thread {self msg user k p bytes} : p ≠ processBroadcast →
      Calls w s (.frame (.thread self msg (.call (.handleMsg p bytes) user k))) p
        (bytesType w bytes)
        (.onStack bytes)
  | notify {proc fromprocess old tmp} : tmp ≠ 0 → proc ≠ tmp →
      Calls w s (.frame (.loop (.notify proc fromprocess old) tmp)) tmp processEvFinished
        (.finished proc)
  | handle {bytes tmp} : tmp ≠ 0 →
      Calls w s (.frame (.loop (.handle bytes) tmp)) tmp (bytesType w bytes) (.onStack bytes)
  | poll {tmp} : tmp ≠ 0 → (s.procs tmp).needspoll = true →
      Calls w s (.frame (.loop .poll tmp)) tmp processEvPoll .null
  | broadcast {msgPtr p} : Calls w s (.frame (.broadcastCall msgPtr p)) p
      (nodeType w s.heap.mem msgPtr) (.node msgPtr)
  | start {p} : p ≠ 0 → Calls w s (.frame (.startFind p 0)) p processEvInit .null
  | message {msgPtr x} : s.popped = msgPtr → msgPtr ≠ 0 → letterAt s.heap.mem msgPtr = x →
      x.receiver ≠ processBroadcast →
      Calls w s (.frame .utilizeMessage) x.receiver (nodeType w s.heap.mem msgPtr) (.node msgPtr)

/-- A call of `call_process` that reaches the thread. -/
structure EntersThread (fw : Firmware σ) (s₁ : Scheduler σ) (q ev : Nat) (msg : MsgArg)
    (s' : Scheduler σ) : Prop where
  running : s₁.st q = .running
  next : s'.next = s₁.next
  processHead : s'.processHead = s₁.processHead
  st : s'.st = Function.update s₁.st q .called
  stack : ∃ thread, fw.thread q = some thread ∧
    s'.stack = .thread q msg (thread ev msg s₁.user) :: .called q ev s₁.processCurrent :: s₁.stack
  log : s'.log = s₁.log ++ [.enter q ev msg]

/-- A call of `call_process`: it reaches the thread exactly if there is one and the
process is running. -/
def Called (fw : Firmware σ) (s₁ : Scheduler σ) (q ev : Nat) (msg : MsgArg) (s' : Scheduler σ) :
    Prop :=
  (s' = s₁ ∧ ¬ ((fw.thread q).isSome ∧ s₁.st q = .running)) ∨ EntersThread fw s₁ q ev msg s'

/-- What a step does. -/
def Effect (w : Width) (fw : Firmware σ) (s : Scheduler σ) (t : Turn σ)
    (fs : List (Frame σ)) (s' : Scheduler σ) : Prop :=
  ∃ s₁, Local w fw s fs t s₁ ∧
    (((∀ q ev msg, ¬ Calls w s t q ev msg) ∧ s' = s₁) ∨
      ∃ q ev msg, Calls w s t q ev msg ∧ Called fw s₁ q ev msg s')

/-! ## The machine does nothing else -/

section Fields

variable (s : Scheduler σ) (p : Nat)

theorem setState_next (state : ProcessState) : (s.setState p state).next = s.next := by
  funext q
  by_cases hq : q = p
  · subst hq
    simp [Scheduler.next, Scheduler.setState]
  · simp [Scheduler.next, Scheduler.setState, hq]

theorem setState_st (state : ProcessState) :
    (s.setState p state).st = Function.update s.st p state := by
  funext q
  by_cases hq : q = p
  · subst hq
    simp [Scheduler.st, Scheduler.setState]
  · simp [Scheduler.st, Scheduler.setState, hq]

theorem setNext_next (next : Nat) : (s.setNext p next).next = Function.update s.next p next := by
  funext q
  by_cases hq : q = p
  · subst hq
    simp [Scheduler.next, Scheduler.setNext]
  · simp [Scheduler.next, Scheduler.setNext, hq]

theorem setNext_st (next : Nat) : (s.setNext p next).st = s.st := by
  funext q
  by_cases hq : q = p
  · subst hq
    simp [Scheduler.st, Scheduler.setNext]
  · simp [Scheduler.st, Scheduler.setNext, hq]

end Fields

theorem called_callProcess (fw : Firmware σ) (s : Scheduler σ) (q ev : Nat) (msg : MsgArg) :
    Called fw s q ev msg (callProcess fw s q ev msg) := by
  rcases callProcess_cases fw s q ev msg with ⟨heq, hnot⟩ | ⟨thread, hthread, hrun, heq⟩
  · exact .inl ⟨heq, hnot⟩
  · rw [heq]
    exact .inr
      { running := hrun
        next := setState_next s q .called
        processHead := rfl
        st := setState_st s q .called
        stack := ⟨thread, hthread, rfl⟩
        log := rfl }

section Effects

variable (w : Width) (fw : Firmware σ) (s : Scheduler σ) (fs : List (Frame σ))

/-- A step without a call. -/
theorem Effect.stay {w : Width} {fw : Firmware σ} {s s' : Scheduler σ} {fs : List (Frame σ)}
    {t : Turn σ} (h : Local w fw s fs t s') (hno : ∀ q ev msg, ¬ Calls w s t q ev msg) :
    Effect w fw s t fs s' :=
  ⟨s', h, .inl ⟨hno, rfl⟩⟩

/-- A step with a call. -/
theorem Effect.call {w : Width} {fw : Firmware σ} {s s₁ : Scheduler σ} {fs : List (Frame σ)}
    {t : Turn σ} {q ev : Nat} {msg : MsgArg} (h : Local w fw s fs t s₁)
    (hcall : Calls w s t q ev msg) : Effect w fw s t fs (callProcess fw s₁ q ev msg) :=
  ⟨s₁, h, .inr ⟨q, ev, msg, hcall, called_callProcess fw s₁ q ev msg⟩⟩

/-- `process_poll` sets flags only. -/
theorem processPoll_same (s : Scheduler σ) (p : Nat) :
    (processPoll s p).next = s.next ∧ (processPoll s p).processHead = s.processHead ∧
      (processPoll s p).st = s.st ∧ (processPoll s p).stack = s.stack ∧
      (processPoll s p).log = s.log := by
  unfold processPoll
  split
  · split
    · refine ⟨?_, rfl, ?_, rfl, rfl⟩
      · funext q
        by_cases hq : q = p
        · subst hq
          simp [Scheduler.next]
        · simp [Scheduler.next, hq]
      · funext q
        by_cases hq : q = p
        · subst hq
          simp [Scheduler.st]
        · simp [Scheduler.st, hq]
    · exact ⟨rfl, rfl, rfl, rfl, rfl⟩
  · exact ⟨rfl, rfl, rfl, rfl, rfl⟩

/-- What the calls of the module have in common with and without a thread below. -/
theorem execCall_effect (s₀ : Scheduler σ) (hnext : s₀.next = s.next)
    (hhead : s₀.processHead = s.processHead) (hst : s₀.st = s.st)
    (hcurrent : s₀.processCurrent = s.processCurrent) (c : ProcCall) :
    ∃ s₁ new evs, CallPushes s c new evs ∧ s₁.next = s.next ∧ s₁.processHead = s.processHead ∧
      s₁.st = s.st ∧ s₁.stack = new ++ s₀.stack ∧ s₁.log = s₀.log ++ evs ∧
      ((execCall w fw s₀ c = s₁ ∧ ∀ p bytes, c = .handleMsg p bytes → p = processBroadcast) ∨
        ∃ p bytes, c = .handleMsg p bytes ∧ p ≠ processBroadcast ∧
          execCall w fw s₀ c = callProcess fw s₁ p (bytesType w bytes) (.onStack bytes)) := by
  cases c with
  | poll p =>
      obtain ⟨hnext', hhead', hst', hstack, hlog⟩ := processPoll_same s₀ p
      exact ⟨processPoll s₀ p, [], [], .poll, hnext'.trans hnext, hhead'.trans hhead,
        hst'.trans hst, hstack, hlog.trans (List.append_nil _).symm, .inl ⟨rfl, by simp⟩⟩
  | start p =>
      refine ⟨s₀.push (.startFind p s₀.processHead), _, _, .start, hnext, hhead, hst, ?_,
          (List.append_nil _).symm,
        .inl ⟨rfl, by simp⟩⟩
      rw [← hhead]
      rfl
  | exit p =>
      refine ⟨exitProcess s₀ p s₀.processCurrent, _, _, .exit, hnext, hhead, hst, ?_,
          (List.append_nil _).symm,
        .inl ⟨rfl, by simp⟩⟩
      rw [← hhead, ← hcurrent]
      rfl
  | handleMsg p bytes =>
      by_cases hp : p = processBroadcast
      · subst hp
        refine ⟨s₀.push (.loop (.handle bytes) s₀.processHead), _, _, .handleAll, hnext, hhead, hst,
          ?_, (List.append_nil _).symm, .inl ⟨?_, ?_⟩⟩
        · rw [← hhead]
          rfl
        · show schedulerHandleMsg w fw s₀ processBroadcast bytes = _
          unfold schedulerHandleMsg
          rw [if_pos rfl]
        · intro p bytes heq
          injection heq with hp
          exact hp.symm
      · refine ⟨s₀, _, _, .handle hp, hnext, hhead, hst, rfl, (List.append_nil _).symm,
          .inr ⟨p, bytes, rfl, hp, ?_⟩⟩
        show schedulerHandleMsg w fw s₀ p bytes = _
        unfold schedulerHandleMsg
        rw [if_neg hp]
  | run =>
      have hrun : execCall w fw s₀ .run =
          if s₀.pollRequested then
            schedulerUtilizePoll (((s₀.emit .run).push .runEnd).push .utilizeMessage)
          else ((s₀.emit .run).push .runEnd).push .utilizeMessage := rfl
      cases hpoll : s₀.pollRequested with
      | false =>
          refine ⟨((s₀.emit .run).push .runEnd).push .utilizeMessage, _, _, .run, hnext, hhead, hst,
            rfl, rfl, .inl ⟨?_, by simp⟩⟩
          rw [hrun, hpoll]
          rfl
      | true =>
          refine ⟨schedulerUtilizePoll (((s₀.emit .run).push .runEnd).push .utilizeMessage), _, _,
            .runPoll, hnext, hhead, hst, ?_, rfl, .inl ⟨?_, by simp⟩⟩
          · rw [← hhead]
            rfl
          · rw [hrun, hpoll]
            rfl

/-- A thread executes its next statement. -/
theorem execThread_effect (self : Nat) (msg : MsgArg) (prog : ThreadProg σ) :
    Effect w fw s (.frame (.thread self msg prog)) fs
      (execThread w fw { s with stack := fs } self msg prog) := by
  cases prog with
  | ret code user => exact .stay (.quiet .ret rfl rfl rfl rfl (List.append_nil _).symm) nofun
  | read k =>
      cases msg with
      | node p => exact .stay (.quiet .readNode rfl rfl rfl rfl rfl) nofun
      | null =>
          exact .stay (.quiet (.read (by simp)) rfl rfl rfl rfl (List.append_nil _).symm) nofun
      | onStack bytes =>
          exact .stay (.quiet (.read (by simp)) rfl rfl rfl rfl (List.append_nil _).symm) nofun
      | finished process =>
          exact .stay (.quiet (.read (by simp)) rfl rfl rfl rfl (List.append_nil _).symm) nofun
  | send c user k =>
      obtain ⟨heap, messages, status, hsend⟩ :=
        postSend_frame w { s with stack := fs, user := user } c
      unfold execThread
      dsimp only
      rw [hsend]
      exact .stay (.quiet .send rfl rfl rfl rfl rfl) nofun
  | call c user k =>
      obtain ⟨s₁, new, evs, hpush, hnext, hhead, hst, hstack, hlog, hcall⟩ :=
        execCall_effect w fw s ({ s with stack := fs, user := user }.push (.resume self msg k))
          rfl rfl rfl rfl c
      have hlocal : Local w fw s fs (.frame (.thread self msg (.call c user k))) s₁ :=
        .quiet (.call hpush) hnext hhead hst (by rw [hstack, List.append_assoc]; rfl) hlog
      show Effect w fw s _ fs (execCall w fw _ c)
      rcases hcall with ⟨heq, hno⟩ | ⟨p, bytes, rfl, hp, heq⟩
      · rw [heq]
        refine .stay hlocal fun q ev arg hcalls => ?_
        cases hcalls with
        | thread hq => exact hq (hno _ _ rfl)
      · rw [heq]
        exact .call hlocal (.thread hp)

/-- A loop over the process list looks at `tmp`. -/
theorem loop_effect (l : Loop) (tmp : Nat) :
    Effect w fw s (.frame (.loop l tmp)) fs
      (execFrame w fw { s with stack := fs } (.loop l tmp)) := by
  unfold execFrame
  dsimp only
  by_cases htmp : tmp = 0
  · subst htmp
    rw [if_pos rfl]
    cases l with
    | notify proc fromprocess old =>
        unfold loopEnd
        dsimp only
        have hno : ∀ q ev msg, ¬ Calls w s
            (.frame (.loop (.notify proc fromprocess old) 0)) q ev msg := by
          intro q ev msg h
          cases h
          contradiction
        have hquiet : Effect w fw s (.frame (.loop (.notify proc fromprocess old) 0)) fs
            ({ s with stack := fs }.push (.exitUnlink proc old)) :=
          .stay (.quiet .notifyEnd rfl rfl rfl rfl (List.append_nil _).symm) hno
        cases hthread : fw.thread proc with
        | none => exact hquiet
        | some thread =>
            dsimp only
            split
            · rename_i hproc
              exact .stay (.farewell hthread hproc rfl rfl rfl rfl rfl) hno
            · exact hquiet
    | handle bytes =>
        refine .stay (.quiet .handleEnd rfl rfl rfl rfl (List.append_nil _).symm) fun q ev msg h => ?_
        cases h
        contradiction
    | poll =>
        refine .stay (.quiet .pollEnd rfl rfl rfl rfl (List.append_nil _).symm) fun q ev msg h => ?_
        cases h
        contradiction
    | broadcast msgPtr =>
        exact .stay (.quiet .broadcastEnd rfl rfl rfl rfl (List.append_nil _).symm) nofun
  · rw [if_neg htmp]
    cases l with
    | notify proc fromprocess old =>
        have hlocal : Local w fw s fs (.frame (.loop (.notify proc fromprocess old) tmp))
            ({ s with stack := fs }.push (.loopNext (.notify proc fromprocess old) tmp)) :=
          .quiet (.notify htmp) rfl rfl rfl rfl (List.append_nil _).symm
        unfold loopBody
        dsimp only
        split
        · rename_i hproc
          exact .call hlocal (.notify htmp hproc)
        · refine .stay hlocal fun q ev msg h => ?_
          cases h
          contradiction
    | handle bytes =>
        exact .call (.quiet (.handle htmp) rfl rfl rfl rfl (List.append_nil _).symm) (.handle htmp)
    | poll =>
        unfold loopBody
        dsimp only
        split
        · rename_i hpoll
          refine .call (.polled htmp hpoll ?_ rfl ?_ rfl rfl) (.poll htmp hpoll)
          · funext q
            by_cases hq : q = tmp
            · subst hq
              simp [Scheduler.next, Scheduler.push]
            · simp [Scheduler.next, Scheduler.push, hq]
          · funext q
            by_cases hq : q = tmp
            · subst hq
              simp [Scheduler.st]
            · simp [Scheduler.st, Scheduler.push, hq]
        · rename_i hpoll
          refine .stay (.quiet (.poll htmp (Bool.eq_false_iff.mpr hpoll)) rfl rfl rfl rfl
            (List.append_nil _).symm) fun q ev msg h => ?_
          cases h
          contradiction
    | broadcast msgPtr =>
        unfold loopBody
        dsimp only
        split
        · exact .stay (.quiet (.broadcastPoll htmp) rfl rfl rfl rfl (List.append_nil _).symm) nofun
        · exact .stay (.quiet (.broadcast htmp) rfl rfl rfl rfl (List.append_nil _).symm) nofun

/-- `scheduler_utilize_message` -/
theorem utilizeMessage_effect :
    Effect w fw s (.frame .utilizeMessage) fs
      (schedulerUtilizeMessage w fw { s with stack := fs }) := by
  unfold schedulerUtilizeMessage
  dsimp only
  have hpopped : s.popped = (msgListPop s.messages s.heap.mem).2 := rfl
  generalize msgListPop s.messages s.heap.mem = r at hpopped ⊢
  split
  · rename_i hnone
    refine .stay (.quiet (.idle (hpopped.trans hnone)) rfl rfl rfl rfl rfl) fun q ev msg h => ?_
    cases h with
    | message hptr hne _ _ => exact hne (hptr.symm.trans (hpopped.trans hnone))
  · rename_i hsome
    generalize hx : letterAt s.heap.mem r.2 = x
    split
    · rename_i hall
      refine .stay (.quiet (.takeAll hpopped hsome hx hall) rfl rfl rfl rfl rfl) fun q ev msg h => ?_
      cases h with
      | message hptr _ hx' hone =>
          rw [← hptr, hpopped, hx] at hx'
          rw [← hx'] at hone
          exact hone hall
    · rename_i hone
      have hlog : ∀ ev ev' : SchedEvent, s.log ++ [ev] ++ [ev'] = s.log ++ [ev, ev'] :=
        fun ev ev' => List.append_assoc s.log [ev] [ev']
      refine .call ?_ (.message hpopped hsome hx hone)
      split
      · rename_i hinit
        exact .inited hpopped hsome hx hone hinit (setState_next s _ .running) rfl
          (setState_st s _ .running) rfl (hlog _ _)
      · rename_i hinit
        exact .quiet (.take hpopped hsome hx hone hinit) rfl rfl rfl rfl (hlog _ _)

/-- The machine executes the frame `f`. -/
theorem execFrame_effect (f : Frame σ) :
    Effect w fw s (.frame f) fs (execFrame w fw { s with stack := fs } f) := by
  cases f with
  | thread self msg prog => exact execThread_effect w fw s fs self msg prog
  | resume self msg k => exact .stay (.quiet .resume rfl rfl rfl rfl (List.append_nil _).symm) nofun
  | called proc ev caller =>
      show Effect w fw s _ fs (callReturned _ proc ev caller)
      unfold callReturned
      dsimp only
      split
      · rename_i hends
        have hends : ¬ s.Continues ev := fun h => h hends
        exact .stay (.quiet (.returned hends) rfl rfl rfl rfl (List.append_nil _).symm) nofun
      · rename_i hcontinues
        exact .stay (.returned hcontinues (setState_next _ _ _) rfl (setState_st _ _ _) rfl rfl)
          nofun
  | loop l tmp => exact loop_effect w fw s fs l tmp
  | loopNext l tmp => exact .stay (.quiet .loopNext rfl rfl rfl rfl (List.append_nil _).symm) nofun
  | broadcastCall msgPtr p =>
      exact .call (.quiet .broadcastCall rfl rfl rfl rfl rfl) .broadcast
  | exitFind proc fromprocess old tmp =>
      unfold execFrame
      dsimp only
      split
      · rename_i htmp
        subst htmp
        exact .stay (.quiet .findNone rfl rfl rfl rfl (List.append_nil _).symm) nofun
      · rename_i htmp
        split
        · rename_i hproc
          subst hproc
          unfold exitFound
          split
          · rename_i hoff
            exact .stay (.quiet (.findOff htmp hoff) rfl rfl rfl rfl (List.append_nil _).symm) nofun
          · rename_i hduty
            exact .stay (.off htmp hduty (setState_next _ _ _) rfl (setState_st _ _ _) rfl rfl) nofun
        · rename_i hproc
          exact .stay (.quiet (.findNext htmp hproc) rfl rfl rfl rfl (List.append_nil _).symm) nofun
  | exitUnlink proc old =>
      unfold execFrame
      dsimp only
      split
      · rename_i hhead
        subst hhead
        exact .stay (.leaveHead rfl rfl rfl rfl rfl) nofun
      · rename_i hhead
        exact .stay (.quiet (.unlink hhead) rfl rfl rfl rfl (List.append_nil _).symm) nofun
  | exitScan proc old tmp =>
      unfold execFrame
      dsimp only
      split
      · rename_i htmp
        subst htmp
        exact .stay (.quiet .scanNone rfl rfl rfl rfl (List.append_nil _).symm) nofun
      · rename_i htmp
        split
        · rename_i hproc
          subst hproc
          exact .stay (.leave htmp (setNext_next _ _ _) rfl (setNext_st _ _ _) rfl rfl) nofun
        · rename_i hproc
          exact .stay (.quiet (.scanNext htmp hproc) rfl rfl rfl rfl (List.append_nil _).symm) nofun
  | startFind proc tmp =>
      unfold execFrame
      dsimp only
      split
      · rename_i hproc
        subst hproc
        refine .stay (.quiet .startFound rfl rfl rfl rfl (List.append_nil _).symm) fun q ev msg h => ?_
        cases h
        contradiction
      · rename_i hproc
        split
        · rename_i htmp
          subst htmp
          unfold schedulerStartProcess
          dsimp only
          refine .call (.join (Ne.symm hproc) ?_ rfl ?_ rfl rfl) (.start (Ne.symm hproc))
          · funext q
            by_cases hq : q = proc
            · subst hq
              simp [Scheduler.next, Scheduler.emit]
            · simp [Scheduler.next, Scheduler.emit, hq]
          · funext q
            by_cases hq : q = proc
            · subst hq
              simp [Scheduler.st, Scheduler.emit]
            · simp [Scheduler.st, Scheduler.emit, hq]
        · rename_i htmp
          refine .stay (.quiet (.startNext hproc htmp) rfl rfl rfl rfl (List.append_nil _).symm)
            fun q ev msg h => ?_
          cases h
          contradiction
  | utilizeMessage => exact utilizeMessage_effect w fw s fs
  | msgFree msgPtr => exact .stay (.quiet .msgFree rfl rfl rfl rfl (List.append_nil _).symm) nofun
  | runEnd => exact .stay (.quiet .runEnd rfl rfl rfl rfl rfl) nofun

theorem exec_effect (w : Width) (fw : Firmware σ) {s : Scheduler σ} {fs : List (Frame σ)}
    {f : Frame σ} (hstack : s.stack = f :: fs) : Effect w fw s (.frame f) fs (s.exec w fw) := by
  unfold Scheduler.exec
  rw [hstack]
  exact execFrame_effect w fw s fs f

/-- A call from outside. -/
theorem apiCall_effect (hstack : s.stack = []) (user : σ) (c : ApiCall) :
    Effect w fw s (.outside c) [] (apiCall w fw { s with user := user } c) := by
  cases c with
  | send c =>
      obtain ⟨heap, messages, status, hsend⟩ := postSend_frame w { s with user := user } c
      show Effect w fw s _ [] (postSend w _ c).1
      rw [hsend]
      exact .stay (.quiet .outsideSend rfl rfl rfl hstack rfl) nofun
  | proc c =>
      obtain ⟨s₁, new, evs, hpush, hnext, hhead, hst, hstack₁, hlog, hcall⟩ :=
        execCall_effect w fw s { s with user := user } rfl rfl rfl rfl c
      have hlocal : Local w fw s [] (.outside (.proc c)) s₁ :=
        .quiet (.outside hpush) hnext hhead hst (hstack ▸ hstack₁) hlog
      show Effect w fw s _ [] (execCall w fw _ c)
      rcases hcall with ⟨heq, hno⟩ | ⟨p, bytes, rfl, hp, heq⟩
      · rw [heq]
        refine .stay hlocal fun q ev arg hcalls => ?_
        cases hcalls with
        | outside hq => exact hq (hno _ _ rfl)
      · rw [heq]
        exact .call hlocal (.outside hp)

end Effects

/-- **What a step can do**: it takes the top frame, or with an empty stack there is a
call from outside. -/
theorem SchedStep.effect {w : Width} {fw : Firmware σ} {s s' : Scheduler σ}
    {i : Option (σ × ApiCall)} (h : SchedStep w fw s i s') :
    ∃ t fs, s.stack = t.frames ++ fs ∧ (∀ c, t = .outside c → fs = []) ∧
      Effect w fw s t fs s' := by
  cases h with
  | @exec f fs hstack => exact ⟨.frame f, fs, hstack, nofun, execFrame_effect w fw s fs f⟩
  | @call user c hstack =>
      exact ⟨.outside c, [], hstack, fun _ _ => rfl, apiCall_effect w fw s hstack user c⟩

end EmbeddedMx
