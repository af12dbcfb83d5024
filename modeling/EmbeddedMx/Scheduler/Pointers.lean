import EmbeddedMx.Scheduler.Liveness

/-!
# The scheduler pointer of a process

`PROCESS` leaves `proc->sched` at `NULL`, and only `scheduler_start_process` sets it. Three
functions follow it: `exit_process` does so first of all, `call_process` for a process that is
running, and `process_poll` for one that is running or called. So it has to be set in every
process that is not off duty, and in every process that is to exit.
-/

namespace EmbeddedMx

open EmbeddedMx.Lib

variable {σ : Type}

/-- Processes of which each has a thread, as `PROCESS` defines them. -/
def processFirmware (thread : Nat → Nat → MsgArg → σ → ThreadProg σ) (ptInit : Nat → σ → σ) :
    Firmware σ :=
  { thread := fun p => some (thread p), ptInit := ptInit }

/-! ## Uses of the pointer -/

/-- `call_process` follows the pointer of `proc`, and it is `NULL`. -/
def CallFaults (fw : Firmware σ) (s : Scheduler σ) (proc : Nat) : Prop :=
  (fw.thread proc).isSome ∧ (s.procs proc).state = .running ∧ ¬ s.Started proc

/-- A call follows a `NULL` pointer before it comes to its first loop. -/
def ProcCall.Faults (fw : Firmware σ) (s : Scheduler σ) : ProcCall → Prop
  | .poll self =>
      self ≠ 0 ∧ ((s.procs self).state = .running ∨ (s.procs self).state = .called) ∧
        ¬ s.Started self
  | .start _ => False
  | .exit self => ¬ s.Started self
  | .handleMsg self _ => self ≠ processBroadcast ∧ CallFaults fw s self
  | .run => False

/-- The next part of a function of the scheduler follows a `NULL` pointer. -/
def Frame.Faults (w : Width) (fw : Firmware σ) (s : Scheduler σ) : Frame σ → Prop
  | .called proc _ _ => ¬ s.Started proc
  | .loop (.notify proc _ _) tmp => tmp ≠ 0 ∧ proc ≠ tmp ∧ CallFaults fw s tmp
  | .loop (.handle _) tmp => tmp ≠ 0 ∧ CallFaults fw s tmp
  | .loop .poll tmp =>
      tmp ≠ 0 ∧ (s.procs tmp).needspoll = true ∧ CallFaults fw (s.setState tmp .running) tmp
  | .broadcastCall _ p => CallFaults fw s p
  | .startFind proc tmp =>
      let p := { s.procs proc with state := .running, sched := true, next := s.processHead }
      tmp ≠ proc ∧ tmp = 0 ∧
        CallFaults fw { s with procs := Function.update s.procs proc p } proc
  | .utilizeMessage =>
      let x := letterAt s.heap.mem s.popped
      s.popped ≠ 0 ∧ x.receiver ≠ processBroadcast ∧
        CallFaults fw (if nodeType w s.heap.mem s.popped = processEvInit
          then s.setState x.receiver .running else s) x.receiver
  | _ => False

/-- The step follows a `NULL` pointer: in the call that it makes, or in its frame. -/
def Scheduler.Faults (w : Width) (fw : Firmware σ) (s : Scheduler σ) (i : Option (σ × ApiCall)) :
    Prop :=
  (∃ c, s.issues i = some (.proc c) ∧ c.Faults fw s) ∨
    i = none ∧ ∃ f fs, s.stack = f :: fs ∧ f.Faults w fw s

/-- The process that an INIT event is for, if one is taken from the message list now. -/
def Scheduler.initReceiver (w : Width) (s : Scheduler σ) : Option Nat :=
  let x := letterAt s.heap.mem s.popped
  if s.popped ≠ 0 ∧ x.receiver ≠ processBroadcast ∧ nodeType w s.heap.mem s.popped = processEvInit
  then some x.receiver else none

/-- The process that the step uses without having a look at its state: one that is to exit, or
the receiver of an INIT event. -/
def Scheduler.trusts (w : Width) (s : Scheduler σ) (i : Option (σ × ApiCall)) : Option Nat :=
  match s.issues i with
  | some (.proc (.exit self)) => some self
  | some _ => none
  | none =>
      match s.stack.head? with
      | some .utilizeMessage => s.initReceiver w
      | _ => none

/-- This process has been started before. -/
def Scheduler.OnlyStarted (w : Width) (s : Scheduler σ) (i : Option (σ × ApiCall)) : Prop :=
  ∀ p ∈ s.trusts w i, s.Started p

/-! ## Where the pointer is set -/

/-- A process that has not been started is off duty, and no poll of it is pending. -/
def Process.Coherent (p : Process) : Prop :=
  p.sched = true ∨ p.state = .none ∧ p.needspoll = false

/-- The pointer is set wherever it may be followed. -/
structure PointersSet (s : Scheduler σ) : Prop where
  procs : ∀ p, (s.procs p).Coherent
  frames : ∀ f ∈ s.stack, ∀ p, f.calls = some p → s.Started p

section Inv

variable {w : Width} {fw : Firmware σ} {s : Scheduler σ}

/-- A process that is not off duty has been started. -/
theorem PointersSet.started (h : PointersSet s) {p : Nat} {state : ProcessState}
    (hp : (s.procs p).state = state) (hduty : state ≠ .none) : s.Started p := by
  rcases h.procs p with hsched | ⟨hoff, -⟩
  · exact hsched
  · exact absurd (hp.symm.trans hoff) hduty

/-- So has one that is to be polled. -/
theorem PointersSet.started_of_poll (h : PointersSet s) {p : Nat}
    (hp : (s.procs p).needspoll = true) : s.Started p := by
  rcases h.procs p with hsched | ⟨-, hoff⟩
  · exact hsched
  · rw [hoff] at hp
    cases hp

theorem PointersSet.push (h : PointersSet s) {f : Frame σ}
    (hf : ∀ p, f.calls = some p → s.Started p) : PointersSet (s.push f) where
  procs := h.procs
  frames g hg p hp := by
    rcases List.mem_cons.mp hg with rfl | hg
    · exact hf p hp
    · exact h.frames g hg p hp

/-- No process changes, and the frames that are pushed do not follow the pointer. -/
theorem PointersSet.grow {s' : Scheduler σ} (h : PointersSet s) (new : List (Frame σ))
    (hprocs : s'.procs = s.procs) (hstack : s'.stack = new ++ s.stack)
    (hnew : (new.all fun f => f.calls.isNone) = true) : PointersSet s' where
  procs := hprocs ▸ h.procs
  frames f hf p hp := by
    rw [hstack] at hf
    rcases List.mem_append.mp hf with hf | hf
    · have hnone := List.all_eq_true.mp hnew f hf
      rw [hp] at hnone
      cases hnone
    · show (s'.procs p).sched = true
      rw [hprocs]
      exact h.frames f hf p hp

/-- A process is changed, but not taken from its scheduler. -/
theorem PointersSet.update (h : PointersSet s) {p : Nat} {proc : Process} (hproc : proc.Coherent)
    (hsched : s.Started p → proc.sched = true) :
    PointersSet { s with procs := Function.update s.procs p proc } where
  procs q := by
    dsimp only
    rcases eq_or_ne q p with rfl | hne
    · rw [Function.update_self]
      exact hproc
    · rw [Function.update_of_ne hne]
      exact h.procs q
  frames f hf q hq := by
    have hstarted := h.frames f hf q hq
    show (Function.update s.procs p proc q).sched = true
    rcases eq_or_ne q p with rfl | hne
    · rw [Function.update_self]
      exact hsched hstarted
    · rw [Function.update_of_ne hne]
      exact hstarted

/-- A process that has been started may change its state. -/
theorem PointersSet.setState (h : PointersSet s) {p : Nat} (hp : s.Started p)
    (state : ProcessState) : PointersSet (s.setState p state) :=
  h.update (.inl hp) fun _ => hp

/-- A process may leave its duty. -/
theorem PointersSet.off (h : PointersSet s) (p : Nat) : PointersSet (s.setState p .none) :=
  h.update ((h.procs p).imp_right fun hoff => ⟨rfl, hoff.2⟩) id

theorem PointersSet.setNext (h : PointersSet s) (p next : Nat) : PointersSet (s.setNext p next) :=
  h.update (h.procs p) id

/-! ## Functions -/

/-- `call_process` does not follow the pointer of a process that is off duty. -/
theorem PointersSet.not_callFaults (h : PointersSet s) (p : Nat) : ¬ CallFaults fw s p := by
  rintro ⟨-, hrunning, hnot⟩
  exact hnot (h.started hrunning nofun)

theorem callProcess_pointers (h : PointersSet s) (proc ev : Nat) (msg : MsgArg) :
    PointersSet (callProcess fw s proc ev msg) := by
  rcases callProcess_cases fw s proc ev msg with ⟨heq, -⟩ | ⟨thread, -, hrunning, heq⟩
  · rw [heq]
    exact h
  · have hp : s.Started proc := h.started hrunning nofun
    have hcalled := (h.setState hp .called).push (f := .called proc ev s.processCurrent)
      fun p hcalls => by
        injection hcalls with hcalls
        subst hcalls
        show (Function.update s.procs proc _ proc).sched = true
        rw [Function.update_self]
        exact hp
    rw [heq]
    exact hcalled.grow [.thread proc msg (thread ev msg s.user)] rfl rfl rfl

/-- A search for a process that has been started goes on. -/
theorem exitFind_pointers (h : PointersSet s) {proc : Nat} (hproc : s.Started proc)
    (fromprocess oldCurrent tmp : Nat) :
    PointersSet (s.push (.exitFind proc fromprocess oldCurrent tmp)) := by
  refine h.push fun p hcalls => ?_
  injection hcalls with hcalls
  exact hcalls ▸ hproc

theorem exitProcess_pointers (h : PointersSet s) {proc : Nat} (hproc : s.Started proc)
    (fromprocess : Nat) : PointersSet (exitProcess s proc fromprocess) :=
  exitFind_pointers h hproc ..

theorem schedulerUtilizePoll_pointers (h : PointersSet s) :
    PointersSet (schedulerUtilizePoll s) :=
  h.grow [.loop .poll s.processHead] rfl rfl rfl

/-- A call, where a process that is to exit has been started. -/
theorem execCall_pointers (h : PointersSet s) (c : ProcCall)
    (hexit : ∀ p, c = .exit p → s.Started p) : PointersSet (execCall w fw s c) := by
  cases c with
  | poll self =>
      show PointersSet (processPoll s self)
      unfold processPoll
      split
      · split
        · rename_i hstate
          have hself : s.Started self := by
            rcases hstate with hstate | hstate
            · exact h.started hstate nofun
            · exact h.started hstate nofun
          have hpolled : Process.Coherent { s.procs self with needspoll := true } := .inl hself
          exact (h.update hpolled fun (_ : s.Started self) => hself).grow [] rfl rfl rfl
        · exact h
      · exact h
  | start self => exact h.grow [.startFind self s.processHead] rfl rfl rfl
  | exit self => exact exitProcess_pointers h (hexit self rfl) _
  | handleMsg self msg =>
      show PointersSet (schedulerHandleMsg w fw s self msg)
      unfold schedulerHandleMsg
      split
      · exact h.grow [.loop (.handle msg) s.processHead] rfl rfl rfl
      · exact callProcess_pointers h ..
  | run =>
      have hpushed : PointersSet (((s.emit .run).push .runEnd).push .utilizeMessage) :=
        h.grow [.utilizeMessage, .runEnd] rfl rfl rfl
      show PointersSet (schedulerRun s)
      unfold schedulerRun
      dsimp only
      split
      · exact schedulerUtilizePoll_pointers hpushed
      · exact hpushed

theorem postSend_pointers (h : PointersSet s) (c : SendCall) : PointersSet (postSend w s c).1 := by
  obtain ⟨heap, messages, status, heq⟩ := postSend_frame w s c
  rw [heq]
  exact h.grow [] rfl rfl rfl

/-- A thread makes its next statement. -/
theorem execThread_pointers (h : PointersSet s) (self : Nat) (msg : MsgArg) (prog : ThreadProg σ)
    (hexit : ∀ p user k, prog = .call (.exit p) user k → s.Started p) :
    PointersSet (execThread w fw s self msg prog) := by
  cases prog with
  | ret code user => exact h.grow [] rfl rfl rfl
  | read k =>
      cases msg with
      | null => exact h.grow [.thread self .null (k _)] rfl rfl rfl
      | node p => exact h.grow [.thread self (.node p) (k _)] rfl rfl rfl
      | onStack msg => exact h.grow [.thread self (.onStack msg) (k _)] rfl rfl rfl
      | finished process => exact h.grow [.thread self (.finished process) (k _)] rfl rfl rfl
  | send c user k =>
      obtain ⟨heap, messages, status, heq⟩ := postSend_frame w { s with user := user } c
      unfold execThread
      dsimp only
      rw [heq]
      exact h.grow [.thread self msg (k _ _)] rfl rfl rfl
  | call c user k =>
      have hresume : PointersSet ({ s with user := user }.push (.resume self msg k)) :=
        h.grow [.resume self msg k] rfl rfl rfl
      exact execCall_pointers hresume c fun p hc => hexit p user k (by rw [hc])

/-- A loop over the process list. -/
theorem loop_pointers (h : PointersSet s) (l : Loop) (tmp : Nat) :
    PointersSet (execFrame w fw s (.loop l tmp)) := by
  unfold execFrame
  dsimp only
  split
  · cases l with
    | notify proc fromprocess oldCurrent =>
        have hunlink : PointersSet (s.push (.exitUnlink proc oldCurrent)) :=
          h.grow [.exitUnlink proc oldCurrent] rfl rfl rfl
        unfold loopEnd
        dsimp only
        split
        · exact hunlink
        · rename_i thread _
          split
          · exact hunlink.grow [.thread proc .null (thread processEvExit .null s.user)] rfl rfl rfl
          · exact hunlink
    | handle msg => exact h
    | poll => exact h
    | broadcast msgPtr => exact h.grow [.msgFree msgPtr] rfl rfl rfl
  · have hnext : PointersSet (s.push (.loopNext l tmp)) := h.grow [.loopNext l tmp] rfl rfl rfl
    cases l with
    | notify proc fromprocess oldCurrent =>
        unfold loopBody
        dsimp only
        split
        · exact callProcess_pointers hnext ..
        · exact hnext
    | handle msg => exact callProcess_pointers hnext ..
    | poll =>
        unfold loopBody
        dsimp only
        split
        · rename_i hpoll
          have htmp : s.Started tmp := h.started_of_poll hpoll
          apply callProcess_pointers
          exact hnext.update (.inl htmp) fun _ => htmp
        · exact hnext
    | broadcast msgPtr =>
        have hcall : PointersSet ((s.push (.loopNext (.broadcast msgPtr) tmp)).push
            (.broadcastCall msgPtr tmp)) := hnext.grow [.broadcastCall msgPtr tmp] rfl rfl rfl
        unfold loopBody
        dsimp only
        split
        · exact schedulerUtilizePoll_pointers hcall
        · exact hcall

/-- `scheduler_utilize_message`, where the receiver of an INIT event has been started. -/
theorem schedulerUtilizeMessage_pointers (h : PointersSet s)
    (hinit : ∀ p ∈ s.initReceiver w, s.Started p) :
    PointersSet (schedulerUtilizeMessage w fw s) := by
  unfold schedulerUtilizeMessage
  dsimp only
  generalize hpop : msgListPop s.messages s.heap.mem = r
  obtain ⟨messages, msgPtr⟩ := r
  have hpopped : s.popped = msgPtr := by
    unfold Scheduler.popped
    rw [hpop]
  unfold Scheduler.initReceiver at hinit
  rw [hpopped] at hinit
  dsimp only at hinit ⊢
  generalize letterAt s.heap.mem msgPtr = x at hinit ⊢
  generalize nodeType w s.heap.mem msgPtr = type at hinit ⊢
  split
  · exact h.grow [] rfl rfl rfl
  · rename_i hsome
    split
    · exact h.grow [.loop (.broadcast msgPtr) s.processHead] rfl rfl rfl
    · rename_i hreceiver
      apply callProcess_pointers
      split
      · rename_i htype
        have hp : s.Started x.receiver := hinit _ (if_pos ⟨hsome, hreceiver, htype⟩)
        exact (h.setState hp .running).grow [.msgFree msgPtr] rfl rfl rfl
      · exact h.grow [.msgFree msgPtr] rfl rfl rfl

/-- A frame is executed. -/
theorem execFrame_pointers (h : PointersSet s) {f : Frame σ}
    (hf : ∀ p, f.calls = some p → s.Started p)
    (hexit : ∀ p, f.issues = some (.proc (.exit p)) → s.Started p)
    (hinit : f = .utilizeMessage → ∀ p ∈ s.initReceiver w, s.Started p) :
    PointersSet (execFrame w fw s f) := by
  cases f with
  | thread self msg prog =>
      refine execThread_pointers h self msg prog fun p user k hprog => hexit p ?_
      rw [hprog]
      rfl
  | resume self msg k => exact h.grow [.thread self msg (k s.user)] rfl rfl rfl
  | called proc ev caller =>
      have hproc : s.Started proc := hf proc rfl
      have hcaller : PointersSet { s with processCurrent := caller } := h.grow [] rfl rfl rfl
      show PointersSet (callReturned s proc ev caller)
      unfold callReturned
      dsimp only
      split
      · exact exitProcess_pointers hcaller hproc _
      · exact hcaller.setState hproc _
  | loop l tmp => exact loop_pointers h l tmp
  | loopNext l tmp => exact h.grow [.loop l (s.next tmp)] rfl rfl rfl
  | broadcastCall msgPtr p =>
      apply callProcess_pointers
      exact h.grow [] rfl rfl rfl
  | exitFind proc fromprocess oldCurrent tmp =>
      have hproc : s.Started proc := hf proc rfl
      unfold execFrame
      dsimp only
      split
      · exact h
      · split
        · unfold exitFound
          split
          · exact h.grow [.exitUnlink proc oldCurrent] rfl rfl rfl
          · exact (h.off proc).grow [.loop (.notify proc fromprocess oldCurrent) s.processHead]
              rfl rfl rfl
        · exact exitFind_pointers h hproc ..
  | exitUnlink proc oldCurrent =>
      unfold execFrame
      dsimp only
      split
      · exact h.grow [] rfl rfl rfl
      · exact h.grow [.exitScan proc oldCurrent s.processHead] rfl rfl rfl
  | exitScan proc oldCurrent tmp =>
      unfold execFrame
      dsimp only
      split
      · exact h.grow [] rfl rfl rfl
      · split
        · exact (h.setNext tmp (s.next proc)).grow [] rfl rfl rfl
        · exact h.grow [.exitScan proc oldCurrent (s.next tmp)] rfl rfl rfl
  | startFind proc tmp =>
      unfold execFrame
      dsimp only
      split
      · exact h
      · split
        · apply callProcess_pointers
          exact (h.update (.inl rfl) fun _ => rfl).grow [] rfl rfl rfl
        · exact h.grow [.startFind proc (s.next tmp)] rfl rfl rfl
  | utilizeMessage => exact schedulerUtilizeMessage_pointers h (hinit rfl)
  | msgFree msgPtr => exact h.grow [] rfl rfl rfl
  | runEnd => exact h.grow [] rfl rfl rfl

/-! ## Runs -/

/-- A step that uses only processes that have been started. -/
theorem SchedStep.pointers {s' : Scheduler σ} {i : Option (σ × ApiCall)}
    (hstep : SchedStep w fw s i s') (h : PointersSet s) (honly : s.OnlyStarted w i) :
    PointersSet s' := by
  have hexit : ∀ p, s.issues i = some (.proc (.exit p)) → s.Started p := by
    intro p hissues
    refine honly p ?_
    unfold Scheduler.trusts
    rw [hissues]
    rfl
  cases hstep with
  | @exec f fs hstack =>
      have hissues : s.issues none = f.issues := Scheduler.issues_of_top hstack
      have hbelow : PointersSet { s with stack := fs } :=
        ⟨h.procs, fun g hg => h.frames g (hstack ▸ List.mem_cons_of_mem _ hg)⟩
      refine execFrame_pointers hbelow (h.frames f (hstack ▸ List.mem_cons_self)) ?_ ?_
      · intro p hp
        exact hexit p (hissues.trans hp)
      · rintro rfl p hp
        refine honly p ?_
        unfold Scheduler.trusts
        rw [hissues, hstack]
        exact hp
  | @call user c hstack =>
      have huser : PointersSet { s with user := user } := ⟨h.procs, h.frames⟩
      cases c with
      | send c => exact postSend_pointers huser c
      | proc c => exact execCall_pointers huser c fun p hp => hexit p (by rw [hp]; rfl)

theorem schedulerInit_pointers (mem : Mem) (buffer len : Nat) (user : σ) :
    PointersSet (schedulerInit mem buffer len user) where
  procs _ := .inr ⟨rfl, rfl⟩
  frames := nofun

/-! ## Faults -/

theorem started_setState (s : Scheduler σ) (p q : Nat) (state : ProcessState) :
    (s.setState p state).Started q ↔ s.Started q := by
  unfold Scheduler.Started Scheduler.setState
  dsimp only
  rcases eq_or_ne q p with rfl | hne
  · rw [Function.update_self]
  · rw [Function.update_of_ne hne]

/-- A call follows a `NULL` pointer only to make a process exit. -/
theorem ProcCall.Faults.exit {c : ProcCall} (hfaults : c.Faults fw s) (h : PointersSet s) :
    ∃ p, c = .exit p ∧ ¬ s.Started p := by
  cases c with
  | poll self =>
      obtain ⟨-, hstate, hnot⟩ := hfaults
      rcases hstate with hstate | hstate
      · exact absurd (h.started hstate nofun) hnot
      · exact absurd (h.started hstate nofun) hnot
  | start self => exact hfaults.elim
  | exit self => exact ⟨self, rfl, hfaults⟩
  | handleMsg self msg => exact absurd hfaults.2 (h.not_callFaults self)
  | run => exact hfaults.elim

/-- A part of a function does so only for the receiver of an INIT event. -/
theorem Frame.Faults.init {f : Frame σ} (hfaults : f.Faults w fw s) (h : PointersSet s)
    (hf : f ∈ s.stack) : f = .utilizeMessage ∧ ∃ p ∈ s.initReceiver w, ¬ s.Started p := by
  cases f with
  | called proc ev caller => exact absurd (h.frames _ hf proc rfl) hfaults
  | loop l tmp =>
      cases l with
      | notify proc fromprocess oldCurrent => exact absurd hfaults.2.2 (h.not_callFaults tmp)
      | handle msg => exact absurd hfaults.2 (h.not_callFaults tmp)
      | poll =>
          obtain ⟨-, hpoll, -, -, hnot⟩ := hfaults
          rw [started_setState] at hnot
          exact absurd (h.started_of_poll hpoll) hnot
      | broadcast msgPtr => exact hfaults.elim
  | broadcastCall msgPtr p => exact absurd hfaults (h.not_callFaults p)
  | startFind proc tmp =>
      -- `scheduler_start_process` has just set the pointer
      obtain ⟨-, -, -, -, hnot⟩ := hfaults
      refine absurd ?_ hnot
      show (Function.update s.procs proc _ proc).sched = true
      rw [Function.update_self]
  | utilizeMessage =>
      obtain ⟨hpopped, hreceiver, hcall⟩ := hfaults
      refine ⟨rfl, ?_⟩
      by_cases htype : nodeType w s.heap.mem s.popped = processEvInit
      · rw [if_pos htype] at hcall
        obtain ⟨-, -, hnot⟩ := hcall
        rw [started_setState] at hnot
        exact ⟨_, if_pos ⟨hpopped, hreceiver, htype⟩, hnot⟩
      · rw [if_neg htype] at hcall
        exact absurd hcall (h.not_callFaults _)
  | _ => exact hfaults.elim

/-- The receiver of an INIT event is called, whether it has been started or not. -/
theorem utilizeMessage_faults (hthread : ∀ p, (fw.thread p).isSome) {p : Nat}
    (hp : p ∈ s.initReceiver w) (hnot : ¬ s.Started p) :
    (Frame.utilizeMessage : Frame σ).Faults w fw s := by
  unfold Scheduler.initReceiver at hp
  obtain ⟨⟨hpopped, hreceiver, htype⟩, hp⟩ := Option.ite_none_right_eq_some.mp hp
  obtain rfl : (letterAt s.heap.mem s.popped).receiver = p := Option.some.inj hp
  refine ⟨hpopped, hreceiver, ?_⟩
  rw [if_pos htype]
  have hrunning := congrFun (setState_st s (letterAt s.heap.mem s.popped).receiver .running)
    (letterAt s.heap.mem s.popped).receiver
  rw [Function.update_self] at hrunning
  refine ⟨hthread _, hrunning, ?_⟩
  rw [started_setState]
  exact hnot

/-- A step follows a `NULL` pointer if and only if it uses a process that has not been started
without having a look at its state. -/
theorem PointersSet.faults_iff (h : PointersSet s) (hthread : ∀ p, (fw.thread p).isSome)
    (i : Option (σ × ApiCall)) : s.Faults w fw i ↔ ¬ s.OnlyStarted w i := by
  constructor
  · rintro (⟨c, hissues, hfaults⟩ | ⟨rfl, f, fs, hstack, hfaults⟩) honly
    · obtain ⟨p, rfl, hnot⟩ := hfaults.exit h
      refine hnot (honly p ?_)
      unfold Scheduler.trusts
      rw [hissues]
      rfl
    · obtain ⟨rfl, p, hp, hnot⟩ := hfaults.init h (hstack ▸ List.mem_cons_self)
      refine hnot (honly p ?_)
      unfold Scheduler.trusts
      rw [Scheduler.issues_of_top hstack, hstack]
      exact hp
  · intro honly
    unfold Scheduler.OnlyStarted Scheduler.trusts at honly
    push Not at honly
    obtain ⟨p, hp, hnot⟩ := honly
    cases hissues : s.issues i with
    | some c =>
        rw [hissues] at hp
        cases c with
        | send c => cases hp
        | proc c =>
            cases c with
            | exit self =>
                injection hp with hp
                exact .inl ⟨.exit self, hissues, hp ▸ hnot⟩
            | _ => cases hp
    | none =>
        rw [hissues] at hp
        have hi : i = none := by
          cases i with
          | none => rfl
          | some uc => cases hissues
        cases hstack : s.stack with
        | nil =>
            rw [hstack] at hp
            cases hp
        | cons f fs =>
            rw [hstack] at hp
            cases f with
            | utilizeMessage =>
                exact .inr ⟨hi, _, fs, hstack, utilizeMessage_faults hthread hp hnot⟩
            | _ => cases hp

/-! ## Processes that are not on the list -/

/-- A search that does not find its process comes to the end of the list, and changes nothing. -/
theorem exitFind_steps {ps : List Nat} {tmp : Nat} (hpath : LinkPath s.next tmp ps 0)
    (hzero : 0 ∉ ps) {p : Nat} (hp : p ∉ ps) (fromprocess oldCurrent : Nat) :
    ∃ k, (s.push (.exitFind p fromprocess oldCurrent tmp)).steps w fw k = s := by
  induction ps generalizing tmp with
  | nil =>
      obtain rfl : tmp = 0 := hpath
      exact ⟨1, rfl⟩
  | cons q ps ih =>
      obtain ⟨rfl, hpath⟩ := hpath
      rw [List.mem_cons, not_or] at hzero hp
      obtain ⟨k, hk⟩ := ih hpath hzero.2 hp.2
      refine ⟨k + 1, ?_⟩
      have hexec : (s.push (.exitFind p fromprocess oldCurrent tmp)).exec w fw =
          s.push (.exitFind p fromprocess oldCurrent (s.next tmp)) := by
        show execFrame w fw s (.exitFind p fromprocess oldCurrent tmp) = _
        unfold execFrame
        dsimp only
        rw [if_neg (Ne.symm hzero.1), if_neg (Ne.symm hp.1)]
      show ((s.push (.exitFind p fromprocess oldCurrent tmp)).exec w fw).steps w fw k = s
      rw [hexec]
      exact hk

end Inv

/-- **The scheduler pointer is set where it is used**, whatever is called and whatever the
threads of the processes do, as long as each step uses only processes that have been started:
the next step follows a `NULL` pointer if and only if it makes a process exit, or takes an INIT
event for a process, that has never been started. The exit of a started process that is not on
the list changes nothing. -/
theorem sched_pointer_set (w : Width) (thread : Nat → Nat → MsgArg → σ → ThreadProg σ)
    (ptInit : Nat → σ → σ) (n : Nat) {s : Scheduler σ}
    (hreach : ((schedCalls w (processFirmware thread ptInit) n).restrict fun s i =>
      s.OnlyStarted w i).Reachable s) :
    (∀ i, s.Faults w (processFirmware thread ptInit) i ↔ ¬ s.OnlyStarted w i) ∧
    ∀ p, s.Started p → ¬ s.Listed p → ∃ k,
      (execCall w (processFirmware thread ptInit) s (.exit p)).steps w
        (processFirmware thread ptInit) k = s := by
  have hinv : PointersSet s ∧ ProcInv s := by
    induction hreach with
    | init hinit =>
        obtain ⟨mem, buffer, user, -, -, rfl⟩ := hinit
        exact ⟨schedulerInit_pointers mem buffer n user, schedulerInit_procInv mem buffer n user⟩
    | step _ hstep ih =>
        obtain ⟨honly, hstep⟩ := hstep
        obtain ⟨t, fs, hstack, houtside, heff⟩ := SchedStep.effect hstep
        exact ⟨SchedStep.pointers hstep ih.1 honly, heff.procInv ih.2 hstack houtside⟩
  obtain ⟨hpointers, hlist⟩ := hinv
  refine ⟨hpointers.faults_iff fun _ => rfl, fun p _ hnot => ?_⟩
  rw [hlist.listed_iff] at hnot
  exact exitFind_steps hlist.path hlist.zero hnot s.processCurrent s.processCurrent

/-! ## Processes that have not been started -/

/-- Processes that only wait for events. -/
def idleProcesses : Firmware Unit := processFirmware (fun _ _ _ _ => .ret 0 ()) fun _ user => user

/-- A step of a run of these processes that is given by its calls. -/
def idleTurn (s : Scheduler Unit) : Option (Unit × ApiCall) → Scheduler Unit
  | none => s.exec .one idleProcesses
  | some (user, c) => apiCall .one idleProcesses { s with user := user } c

/-- The run, after `process_init` with a pool of 64 bytes. -/
def idleRun (is : List (Option (Unit × ApiCall))) : Scheduler Unit :=
  is.foldl idleTurn (schedulerInit (fun _ => 0) 16 64 ())

theorem idleRun_reachable {P : Scheduler Unit → Option (Unit × ApiCall) → Prop}
    (is : List (Option (Unit × ApiCall)))
    (his : ∀ k (hk : k < is.length),
      P (idleRun (is.take k)) is[k] ∧ (idleRun (is.take k)).stack.isEmpty = is[k].isSome) :
    ((schedCalls .one idleProcesses 64).restrict P).Reachable (idleRun is) := by
  have hinit : ((schedCalls .one idleProcesses 64).restrict P).Reachable
      (schedulerInit (fun _ => 0) 16 64 ()) :=
    .init ⟨_, _, _, by decide, by decide, rfl⟩
  refine hinit.foldl idleTurn is fun k hk => ?_
  obtain ⟨hP, hready⟩ := his k hk
  refine ⟨hP, ?_⟩
  show SchedStep .one idleProcesses (idleRun (is.take k)) is[k] (idleTurn _ is[k])
  generalize is[k] = i at hready
  cases i with
  | none => exact .of_nonempty .one idleProcesses hready
  | some call => exact .call (List.isEmpty_iff.mp hready)

instance (w : Width) (s : Scheduler σ) (i : Option (σ × ApiCall)) :
    Decidable (s.OnlyStarted w i) :=
  inferInstanceAs (Decidable (∀ p ∈ s.trusts w i, (s.procs p).sched = true))

/-- A process that has been started and has exited may exit again, one that has not been started
may not. -/
theorem sched_pointer_set_exited :
    let s := idleRun
      (some ((), .proc (.start 16)) :: List.replicate 3 none ++
        some ((), .proc (.exit 16)) :: List.replicate 6 none)
    s.Started 16 ∧ ¬ s.Listed 16 ∧
      ¬ s.Faults .one idleProcesses (some ((), .proc (.exit 16))) ∧
      s.Faults .one idleProcesses (some ((), .proc (.exit 32))) ∧
      ∃ k, (execCall .one idleProcesses s (.exit 16)).steps .one idleProcesses k = s := by
  intro s
  have hreach : ((schedCalls .one idleProcesses 64).restrict fun s i =>
      s.OnlyStarted .one i).Reachable s := by
    apply idleRun_reachable
    decide +kernel
  have hstarted : s.Started 16 := by
    unfold Scheduler.Started
    decide +kernel
  have hlisted : ¬ s.Listed 16 := by
    have hhead : s.processHead = 0 := by decide +kernel
    rintro ⟨ps, hpath, hzero, hp⟩
    cases ps with
    | nil => cases hp
    | cons q ps => exact hzero (by rw [← hhead, hpath.1]; exact List.mem_cons_self)
  obtain ⟨hfaults, hexit⟩ := sched_pointer_set .one (fun _ _ _ _ => .ret 0 ())
    (fun _ (user : Unit) => user) 64 hreach
  refine ⟨hstarted, hlisted, ?_, ?_, hexit 16 hstarted hlisted⟩
  · exact fun h => (hfaults _).mp h (by decide +kernel)
  · exact (hfaults _).mpr (by decide +kernel)

/-- After `process_init`, the first `process_exit` follows a `NULL` pointer; and so does
`process_run`, if the message is an INIT event for a process that has not been started. -/
theorem sched_pointer_null :
    (schedCalls .one idleProcesses 64).Reachable (idleRun []) ∧
    (idleRun []).Faults .one idleProcesses (some ((), .proc (.exit 16))) ∧
    let s := idleRun [some ((), .send (.p0 16 processEvInit)), some ((), .proc .run)]
    (schedCalls .one idleProcesses 64).Reachable s ∧ s.Faults .one idleProcesses none := by
  refine ⟨?_, .inl ⟨.exit 16, rfl, nofun⟩, ?_, .inr ⟨rfl, .utilizeMessage, _, rfl, ?_⟩⟩
  · exact (idleRun_reachable (P := fun _ _ => True) [] (by decide +kernel)).of_restrict
  · apply TSys.Reachable.of_restrict (P := fun _ _ => True)
    apply idleRun_reachable
    decide +kernel
  · apply utilizeMessage_faults (p := 16) fun _ => rfl
    · decide +kernel
    · unfold Scheduler.Started
      decide +kernel

end EmbeddedMx
