import EmbeddedMx.Scheduler.Machine

/-!
# The scheduler does not look at the memory of the application

Two applications are similar if a relation between their memories is kept by their threads,
which make the same calls and return the same codes, and by `PT_INIT`. Then the scheduler
runs them alike: every run with the one is matched, step by step, by a run with the other, in
which pool, messages, processes and log are the same at every moment.
-/

namespace EmbeddedMx

open EmbeddedMx.Lib

variable {σ σ' : Type} (I : σ → σ' → Prop)

/-- The same reads, sends and calls with related memories, and the same code at the end. -/
inductive ThreadProg.Sim : ThreadProg σ → ThreadProg σ' → Prop
  | ret {code user user'} : I user user' → Sim (.ret code user) (.ret code user')
  | read {k k'} : (∀ bytes, Sim (k bytes) (k' bytes)) → Sim (.read k) (.read k')
  | send {c user user' k k'} : I user user' →
      (∀ user user' status, I user user' → Sim (k user status) (k' user' status)) →
      Sim (.send c user k) (.send c user' k')
  | call {c user user' k k'} : I user user' →
      (∀ user user', I user user' → Sim (k user) (k' user')) →
      Sim (.call c user k) (.call c user' k')

/-- Similar applications. -/
structure Firmware.Sim (fw : Firmware σ) (fw' : Firmware σ') : Prop where
  thread_none : ∀ p, fw.thread p = none ↔ fw'.thread p = none
  thread : ∀ p t t', fw.thread p = some t → fw'.thread p = some t' →
    ∀ ev msg user user', I user user' → (t ev msg user).Sim I (t' ev msg user')
  ptInit : ∀ p user user', I user user' → I (fw.ptInit p user) (fw'.ptInit p user')

/-- The same place in the code of the scheduler, or in similar threads. -/
inductive Frame.Sim : Frame σ → Frame σ' → Prop
  | thread {self msg prog prog'} : prog.Sim I prog' →
      Sim (.thread self msg prog) (.thread self msg prog')
  | resume {self msg k k'} : (∀ user user', I user user' → (k user).Sim I (k' user')) →
      Sim (.resume self msg k) (.resume self msg k')
  | called {proc ev caller} : Sim (.called proc ev caller) (.called proc ev caller)
  | loop {l tmp} : Sim (.loop l tmp) (.loop l tmp)
  | loopNext {l tmp} : Sim (.loopNext l tmp) (.loopNext l tmp)
  | broadcastCall {msgPtr p} : Sim (.broadcastCall msgPtr p) (.broadcastCall msgPtr p)
  | exitFind {proc fromprocess oldCurrent tmp} :
      Sim (.exitFind proc fromprocess oldCurrent tmp) (.exitFind proc fromprocess oldCurrent tmp)
  | exitUnlink {proc oldCurrent} : Sim (.exitUnlink proc oldCurrent) (.exitUnlink proc oldCurrent)
  | exitScan {proc oldCurrent tmp} :
      Sim (.exitScan proc oldCurrent tmp) (.exitScan proc oldCurrent tmp)
  | startFind {proc tmp} : Sim (.startFind proc tmp) (.startFind proc tmp)
  | utilizeMessage : Sim .utilizeMessage .utilizeMessage
  | msgFree {msgPtr} : Sim (.msgFree msgPtr) (.msgFree msgPtr)
  | runEnd : Sim .runEnd .runEnd

/-- Schedulers that differ in the memory of the application only. -/
structure Scheduler.Sim (s : Scheduler σ) (s' : Scheduler σ') : Prop where
  heap : s.heap = s'.heap
  messages : s.messages = s'.messages
  processHead : s.processHead = s'.processHead
  processCurrent : s.processCurrent = s'.processCurrent
  pollRequested : s.pollRequested = s'.pollRequested
  procs : s.procs = s'.procs
  user : I s.user s'.user
  ret : s.ret = s'.ret
  stack : List.Forall₂ (Frame.Sim I) s.stack s'.stack
  log : s.log = s'.log

variable {I} {s : Scheduler σ} {s' : Scheduler σ'} {fw : Firmware σ} {fw' : Firmware σ'}

theorem ThreadProg.Sim.symm {prog : ThreadProg σ} {prog' : ThreadProg σ'} (h : prog.Sim I prog') :
    prog'.Sim (flip I) prog := by
  induction h with
  | ret huser => exact .ret huser
  | read _ ih => exact .read ih
  | send huser _ ih => exact .send huser fun user user' status hI => ih user' user status hI
  | call huser _ ih => exact .call huser fun user user' hI => ih user' user hI

theorem Firmware.Sim.symm (h : fw.Sim I fw') : fw'.Sim (flip I) fw where
  thread_none p := (h.thread_none p).symm
  thread p t' t ht' ht ev msg user' user hI := (h.thread p t t' ht ht' ev msg user user' hI).symm
  ptInit p user' user hI := h.ptInit p user user' hI

/-! ## The functions of the scheduler -/

namespace Scheduler.Sim

/-- Both take the same branch. -/
theorem ite {c c' : Prop} [Decidable c] [Decidable c'] {a b : Scheduler σ} {a' b' : Scheduler σ'}
    (hc : c = c') (ha : c → a.Sim I a') (hb : ¬ c → b.Sim I b') :
    (if c then a else b).Sim I (if c' then a' else b') := by
  by_cases h : c
  · rw [if_pos h, if_pos (hc ▸ h)]
    exact ha h
  · rw [if_neg h, if_neg (hc ▸ h)]
    exact hb h

theorem push (h : s.Sim I s') {f : Frame σ} {f' : Frame σ'} (hf : f.Sim I f') :
    (s.push f).Sim I (s'.push f') :=
  { h with stack := .cons hf h.stack }

theorem emit (h : s.Sim I s') {ev ev' : SchedEvent} (hev : ev = ev') :
    (s.emit ev).Sim I (s'.emit ev') :=
  { h with log := by simp only [Scheduler.emit, h.log, hev] }

theorem setState (h : s.Sim I s') (p : Nat) (state : ProcessState) :
    (s.setState p state).Sim I (s'.setState p state) :=
  { h with procs := by simp only [Scheduler.setState, h.procs] }

theorem setNext (h : s.Sim I s') (p : Nat) {next next' : Nat} (hnext : next = next') :
    (s.setNext p next).Sim I (s'.setNext p next') :=
  { h with procs := by simp only [Scheduler.setNext, h.procs, hnext] }

theorem setCurrent (h : s.Sim I s') (p : Nat) :
    Scheduler.Sim I { s with processCurrent := p } { s' with processCurrent := p } :=
  { h with processCurrent := rfl }

theorem setPoll (h : s.Sim I s') (b : Bool) :
    Scheduler.Sim I { s with pollRequested := b } { s' with pollRequested := b } :=
  { h with pollRequested := rfl }

theorem setProc (h : s.Sim I s') (p : Nat) {proc proc' : Process} (hproc : proc = proc') :
    Scheduler.Sim I { s with procs := Function.update s.procs p proc }
      { s' with procs := Function.update s'.procs p proc' } :=
  { h with procs := by rw [h.procs, hproc] }

theorem setHeap (h : s.Sim I s') {heap heap' : Heap} (heq : heap = heap') :
    Scheduler.Sim I { s with heap := heap } { s' with heap := heap' } :=
  { h with heap := heq }

theorem setMessages (h : s.Sim I s') {messages messages' : MsgList} (heq : messages = messages') :
    Scheduler.Sim I { s with messages := messages } { s' with messages := messages' } :=
  { h with messages := heq }

theorem setUser (h : s.Sim I s') {user : σ} {user' : σ'} (hu : I user user') :
    Scheduler.Sim I { s with user := user } { s' with user := user' } :=
  { h with user := hu }

theorem enter (h : s.Sim I s') (proc ev : Nat) (msg : MsgArg)
    {t : Nat → MsgArg → σ → ThreadProg σ} {t' : Nat → MsgArg → σ' → ThreadProg σ'}
    (ht : ∀ ev msg user user', I user user' → (t ev msg user).Sim I (t' ev msg user')) :
    (enterThread s proc ev msg t).Sim I (enterThread s' proc ev msg t') :=
  (h.emit rfl).push (.thread (ht ev msg _ _ h.user))

theorem state_eq (h : s.Sim I s') (p : Nat) (state : ProcessState) :
    ((s.procs p).state = state) = ((s'.procs p).state = state) := by
  rw [h.procs]

theorem next_eq (h : s.Sim I s') (p : Nat) : s.next p = s'.next p :=
  congrArg (fun procs => (procs p).next) h.procs

end Scheduler.Sim

/-- Whether a process has a thread is the same in both applications. -/
theorem Firmware.Sim.cases (hfw : fw.Sim I fw') (p : Nat) :
    (fw.thread p = none ∧ fw'.thread p = none) ∨
    ∃ t t', fw.thread p = some t ∧ fw'.thread p = some t' ∧
      ∀ ev msg user user', I user user' → (t ev msg user).Sim I (t' ev msg user') := by
  cases ht : fw.thread p with
  | none => exact .inl ⟨rfl, (hfw.thread_none p).mp ht⟩
  | some t =>
      cases ht' : fw'.thread p with
      | none =>
          rw [(hfw.thread_none p).mpr ht'] at ht
          cases ht
      | some t' => exact .inr ⟨t, t', rfl, rfl, hfw.thread p t t' ht ht'⟩

theorem callProcess_sim (hfw : fw.Sim I fw') (h : s.Sim I s') (proc ev : Nat) (msg : MsgArg) :
    (callProcess fw s proc ev msg).Sim I (callProcess fw' s' proc ev msg) := by
  unfold callProcess
  rcases hfw.cases proc with ⟨ht, ht'⟩ | ⟨t, t', ht, ht', hsim⟩
  · rw [ht, ht']
    exact h
  · rw [ht, ht']
    refine .ite (h.state_eq proc .running) (fun _ => ?_) fun _ => h
    have hcalled := (h.setState proc .called).setCurrent proc
    exact (hcalled.push (h.processCurrent ▸ .called)).enter proc ev msg hsim

theorem exitProcess_sim (h : s.Sim I s') (proc fromprocess : Nat) :
    (exitProcess s proc fromprocess).Sim I (exitProcess s' proc fromprocess) := by
  unfold exitProcess
  rw [h.processCurrent, h.processHead]
  exact h.push .exitFind

theorem callReturned_sim (h : s.Sim I s') (proc ev caller : Nat) :
    (callReturned s proc ev caller).Sim I (callReturned s' proc ev caller) := by
  refine .ite (congrArg (fun ret => ret = ptExited ∨ ret = ptEnded ∨ ev = processEvExit) h.ret)
    (fun _ => ?_) fun _ => ?_
  · exact exitProcess_sim (h.setCurrent caller) proc proc
  · exact (h.setCurrent caller).setState proc .running

theorem exitFound_sim (h : s.Sim I s') (proc fromprocess oldCurrent : Nat) :
    (exitFound s proc fromprocess oldCurrent).Sim I (exitFound s' proc fromprocess oldCurrent) := by
  refine .ite (h.state_eq proc .none) (fun _ => h.push .exitUnlink) fun _ => ?_
  exact ((h.setState proc .none).emit rfl).push (h.processHead ▸ .loop)

theorem schedulerUtilizePoll_sim (h : s.Sim I s') :
    (schedulerUtilizePoll s).Sim I (schedulerUtilizePoll s') :=
  (h.setPoll false).push (h.processHead ▸ .loop)

theorem schedulerStartProcess_sim (hfw : fw.Sim I fw') (h : s.Sim I s') (proc : Nat) :
    (schedulerStartProcess fw s proc).Sim I (schedulerStartProcess fw' s' proc) := by
  unfold schedulerStartProcess
  refine callProcess_sim hfw (.emit ?_ rfl) proc processEvInit .null
  exact {
    h with
    user := hfw.ptInit proc _ _ h.user
    procs := by simp only [h.procs, h.processHead]
    processHead := rfl }

theorem processPoll_sim (h : s.Sim I s') (self : Nat) :
    (processPoll s self).Sim I (processPoll s' self) := by
  refine .ite rfl (fun _ => ?_) fun _ => h
  refine .ite (by rw [h.procs]) (fun _ => ?_) fun _ => h
  exact (h.setProc self (by rw [h.procs])).setPoll true

theorem schedulerHandleMsg_sim (w : Width) (hfw : fw.Sim I fw') (h : s.Sim I s') (proc : Nat)
    (msg : List UInt8) :
    (schedulerHandleMsg w fw s proc msg).Sim I (schedulerHandleMsg w fw' s' proc msg) := by
  refine .ite rfl (fun _ => ?_) fun _ => callProcess_sim hfw h _ _ _
  exact h.push (h.processHead ▸ .loop)

theorem schedulerRun_sim (h : s.Sim I s') : (schedulerRun s).Sim I (schedulerRun s') := by
  have hrun := ((h.emit (rfl : SchedEvent.run = .run)).push .runEnd).push .utilizeMessage
  refine .ite (congrArg (· = true) h.pollRequested) (fun _ => ?_) fun _ => hrun
  exact schedulerUtilizePoll_sim hrun

theorem execCall_sim (w : Width) (hfw : fw.Sim I fw') (h : s.Sim I s') (c : ProcCall) :
    (execCall w fw s c).Sim I (execCall w fw' s' c) := by
  cases c with
  | poll self => exact processPoll_sim h self
  | start self => exact h.push (h.processHead ▸ .startFind)
  | exit self =>
      unfold execCall
      rw [h.processCurrent]
      exact exitProcess_sim h self _
  | handleMsg self msg => exact schedulerHandleMsg_sim w hfw h self msg
  | run => exact schedulerRun_sim h

theorem schedulerPostMsg_sim (h : s.Sim I s') (proc msg : Nat) :
    (schedulerPostMsg s proc msg).Sim I (schedulerPostMsg s' proc msg) :=
  { h with
    heap := by simp only [schedulerPostMsg, h.heap, h.messages]
    messages := by simp only [schedulerPostMsg, h.heap, h.messages] }

/-- A send depends on the pool and the message list only. -/
theorem sendMessage_sim (w : Width) (h : s.Sim I s') (self size : Nat) (fill : Mem → Nat → Mem) :
    (sendMessage w s self size fill).1.Sim I (sendMessage w s' self size fill).1 ∧
      (sendMessage w s self size fill).2 = (sendMessage w s' self size fill).2 := by
  have hmalloc : (schedulerMalloc w s size).1.Sim I (schedulerMalloc w s' size).1 :=
    h.setHeap (by rw [h.heap])
  have hptr : (schedulerMalloc w s size).2 = (schedulerMalloc w s' size).2 := by
    unfold schedulerMalloc
    rw [h.heap]
  unfold sendMessage
  dsimp only
  rw [hptr]
  split
  · exact ⟨hmalloc, rfl⟩
  · refine ⟨schedulerPostMsg_sim (hmalloc.setHeap ?_) self _, rfl⟩
    rw [hmalloc.heap]

theorem postSend_sim (w : Width) (h : s.Sim I s') (c : SendCall) :
    (postSend w s c).1.Sim I (postSend w s' c).1 ∧ (postSend w s c).2 = (postSend w s' c).2 := by
  unfold postSend
  dsimp only
  rw [execSend_eq, execSend_eq]
  have hsend := sendMessage_sim w h (c.letter w).receiver (c.letter w).bytes.length
    fun m p => m.write p (c.letter w).bytes
  exact ⟨hsend.1.emit (congrArg _ hsend.2), hsend.2⟩

theorem schedulerUtilizeMessage_sim (w : Width) (hfw : fw.Sim I fw') (h : s.Sim I s') :
    (schedulerUtilizeMessage w fw s).Sim I (schedulerUtilizeMessage w fw' s') := by
  have hmem : s.heap.mem = s'.heap.mem := congrArg Heap.mem h.heap
  unfold schedulerUtilizeMessage
  dsimp only
  rw [hmem, h.messages]
  generalize msgListPop s'.messages s'.heap.mem = r
  have htake : ∀ ev, Scheduler.Sim I ({ s with messages := r.1 }.emit ev)
      ({ s' with messages := r.1 }.emit ev) := fun ev => (h.setMessages rfl).emit rfl
  refine .ite rfl (fun _ => h.emit rfl) fun _ => .ite rfl (fun _ => ?_) fun _ => ?_
  · refine (htake _).push ?_
    show Frame.Sim I (.loop _ s.processHead) (.loop _ s'.processHead)
    exact h.processHead ▸ .loop
  · refine callProcess_sim hfw (.push (.emit ?_ rfl) .msgFree) _ _ _
    exact .ite rfl (fun _ => (htake _).setState _ _) fun _ => htake _

/-! ## One frame -/

theorem execThread_sim (w : Width) (hfw : fw.Sim I fw') (h : s.Sim I s') (self : Nat)
    (msg : MsgArg) {prog : ThreadProg σ} {prog' : ThreadProg σ'} (hprog : prog.Sim I prog') :
    (execThread w fw s self msg prog).Sim I (execThread w fw' s' self msg prog') := by
  cases hprog with
  | ret huser => exact { h with user := huser, ret := rfl }
  | read hk =>
      unfold execThread
      dsimp only
      rw [h.heap]
      refine Scheduler.Sim.push ?_ (.thread (hk _))
      cases msg with
      | node p => exact h.emit rfl
      | null => exact h
      | onStack msg => exact h
      | finished process => exact h
  | @send c user user' k k' huser hk =>
      obtain ⟨hsend, hstatus⟩ := postSend_sim w (h.setUser huser) c
      unfold execThread
      dsimp only
      rw [hstatus]
      exact hsend.push (.thread (hk _ _ _ hsend.user))
  | call huser hk => exact execCall_sim w hfw ((h.setUser huser).push (.resume hk)) _

theorem loopBody_sim (w : Width) (hfw : fw.Sim I fw') (h : s.Sim I s') (tmp : Nat) (l : Loop) :
    (loopBody w fw s tmp l).Sim I (loopBody w fw' s' tmp l) := by
  cases l with
  | notify proc fromprocess oldCurrent =>
      exact .ite rfl (fun _ => callProcess_sim hfw h _ _ _) fun _ => h
  | handle msg => exact callProcess_sim hfw h _ _ _
  | poll =>
      refine .ite (by rw [h.procs]) (fun _ => ?_) fun _ => h
      exact callProcess_sim hfw (h.setProc tmp (by rw [h.procs])) _ _ _
  | broadcast msgPtr =>
      have hpush := h.push (f := .broadcastCall msgPtr tmp) .broadcastCall
      refine .ite (congrArg (· = true) h.pollRequested) (fun _ => ?_) fun _ => hpush
      exact schedulerUtilizePoll_sim hpush

theorem loopEnd_sim (hfw : fw.Sim I fw') (h : s.Sim I s') (l : Loop) :
    (loopEnd fw s l).Sim I (loopEnd fw' s' l) := by
  cases l with
  | notify proc fromprocess oldCurrent =>
      have hpush := h.push (f := .exitUnlink proc oldCurrent) .exitUnlink
      unfold loopEnd
      dsimp only
      rcases hfw.cases proc with ⟨ht, ht'⟩ | ⟨t, t', ht, ht', hsim⟩
      · rw [ht, ht']
        exact hpush
      · rw [ht, ht']
        exact .ite rfl (fun _ => (hpush.setCurrent proc).enter proc _ _ hsim) fun _ => hpush
  | handle msg => exact h
  | poll => exact h
  | broadcast msgPtr => exact h.push .msgFree

theorem execFrame_sim (w : Width) (hfw : fw.Sim I fw') (h : s.Sim I s') {f : Frame σ}
    {f' : Frame σ'} (hf : f.Sim I f') : (execFrame w fw s f).Sim I (execFrame w fw' s' f') := by
  cases hf with
  | thread hprog => exact execThread_sim w hfw h _ _ hprog
  | resume hk => exact h.push (.thread (hk _ _ h.user))
  | called => exact callReturned_sim h _ _ _
  | loop =>
      refine .ite rfl (fun _ => loopEnd_sim hfw h _) fun _ => ?_
      exact loopBody_sim w hfw (h.push .loopNext) _ _
  | loopNext => exact h.push (h.next_eq _ ▸ .loop)
  | @broadcastCall msgPtr p =>
      unfold execFrame
      dsimp only
      rw [h.heap]
      exact callProcess_sim hfw (h.emit rfl) _ _ _
  | exitFind =>
      refine .ite rfl (fun _ => h) fun _ => .ite rfl (fun _ => exitFound_sim h _ _ _) fun _ => ?_
      exact h.push (h.next_eq _ ▸ .exitFind)
  | @exitUnlink proc oldCurrent =>
      refine .ite (congrArg (proc = ·) h.processHead) (fun _ => ?_) fun _ => ?_
      · refine Scheduler.Sim.emit ?_ rfl
        exact { h with processHead := by rw [h.processHead, h.next_eq], processCurrent := rfl }
      · exact h.push (h.processHead ▸ .exitScan)
  | @exitScan proc oldCurrent tmp =>
      refine .ite rfl (fun _ => h.setCurrent _) fun _ =>
        .ite (congrArg (· = proc) (h.next_eq tmp)) (fun _ => ?_) fun _ => ?_
      · exact ((h.setNext tmp (h.next_eq proc)).setCurrent oldCurrent).emit rfl
      · exact h.push (h.next_eq _ ▸ .exitScan)
  | startFind =>
      refine .ite rfl (fun _ => h) fun _ =>
        .ite rfl (fun _ => schedulerStartProcess_sim hfw h _) fun _ => ?_
      exact h.push (h.next_eq _ ▸ .startFind)
  | utilizeMessage => exact schedulerUtilizeMessage_sim w hfw h
  | msgFree => exact h.setHeap (by rw [h.heap])
  | runEnd =>
      refine h.emit ?_
      unfold schedulerEvents
      rw [h.messages, h.pollRequested]

/-! ## Runs -/

theorem apiCall_sim (w : Width) (hfw : fw.Sim I fw') (h : s.Sim I s') (c : ApiCall) :
    (apiCall w fw s c).Sim I (apiCall w fw' s' c) := by
  cases c with
  | send c => exact (postSend_sim w h c).1
  | proc c => exact execCall_sim w hfw h c

theorem valid_sim {w : Width} (h : s.Sim I s') {c : ApiCall} (hc : c.Valid w s) :
    c.Valid w s' := by
  have hstarted : ∀ p, s.Started p → s'.Started p := by
    intro p hp
    unfold Scheduler.Started at hp ⊢
    rwa [← h.procs]
  cases c with
  | send c => exact hc.imp id (hstarted _)
  | proc c =>
      cases c with
      | poll self => exact hc
      | start self => exact hc
      | exit self => exact hstarted _ hc
      | handleMsg self msg => exact hc.imp (Or.imp id (hstarted _)) id
      | run => exact hc

theorem issues_sim {f : Frame σ} {f' : Frame σ'} (h : f.Sim I f') : f.issues = f'.issues := by
  cases h with
  | thread hprog => cases hprog <;> rfl
  | _ => rfl

/-- The main program changes the memory of the application by `J` only. -/
def MainKeeps (J : σ → σ → Prop) (s : Scheduler σ) (i : Option (σ × ApiCall)) : Prop :=
  ∀ user c, i = some (user, c) → J s.user user

/-- A step of the scheduler with the one application is one with the other. -/
theorem schedStep_sim {w : Width} {n : Nat} {J : σ → σ → Prop} {J' : σ' → σ' → Prop}
    (hfw : fw.Sim I fw') (hJ : ∀ u u' v, I u u' → J u v → ∃ v', I v v' ∧ J' u' v')
    (h : s.Sim I s') {i : Option (σ × ApiCall)} {t : Scheduler σ}
    (hstep : ((schedSystem w fw n).restrict (MainKeeps J)).step s i t) :
    ∃ i' t', ((schedSystem w fw' n).restrict (MainKeeps J')).step s' i' t' ∧ t.Sim I t' := by
  obtain ⟨hmain, hvalid, hstep⟩ := hstep
  have hstack := h.stack
  cases hstep with
  | @exec f fs hs =>
      rw [hs] at hstack
      generalize hs' : s'.stack = stack' at hstack
      cases hstack with
      | @cons _ f' _ fs' hf hfs =>
          refine ⟨none, _, ⟨?_, ?_, .exec hs'⟩, ?_⟩
          · rintro user c hc
            cases hc
          · intro c hc
            refine valid_sim h (hvalid c ?_)
            rw [Scheduler.issues_of_top hs]
            rw [Scheduler.issues_of_top hs'] at hc
            rwa [issues_sim hf]
          · have hpop : Scheduler.Sim I { s with stack := fs } { s' with stack := fs' } :=
              { h with stack := hfs }
            exact execFrame_sim w hfw hpop hf
  | @call user c hs =>
      rw [hs] at hstack
      generalize hs' : s'.stack = stack' at hstack
      cases hstack with
      | nil =>
          obtain ⟨user', hI, huser'⟩ := hJ _ _ _ h.user (hmain user c rfl)
          refine ⟨some (user', c), _, ⟨?_, ?_, .call hs'⟩, ?_⟩
          · rintro _ _ hc
            cases hc
            exact huser'
          · rintro _ hc
            cases hc
            exact valid_sim h (hvalid c rfl)
          · exact apiCall_sim w hfw (h.setUser hI) c

/-- Every run with the one application is matched by a run with the other. -/
theorem schedRun_sim {w : Width} {n : Nat} {J : σ → σ → Prop} {J' : σ' → σ' → Prop}
    (hfw : fw.Sim I fw') (hJ : ∀ u u' v, I u u' → J u v → ∃ v', I v v' ∧ J' u' v')
    {s₀ : Scheduler σ} {s₀' : Scheduler σ'} (h₀ : s₀.Sim I s₀') {s : Scheduler σ}
    (hs : (((schedSystem w fw n).restrict (MainKeeps J)).starting s₀).Reachable s) :
    ∃ s', (((schedSystem w fw' n).restrict (MainKeeps J')).starting s₀').Reachable s' ∧
      s.Sim I s' := by
  induction hs with
  | init hinit => exact ⟨s₀', .init rfl, hinit ▸ h₀⟩
  | step _ hstep ih =>
      obtain ⟨s', hreach, hsim⟩ := ih
      obtain ⟨i', t', hstep', hsim'⟩ := schedStep_sim (n := n) hfw hJ hsim hstep
      exact ⟨t', hreach.step hstep', hsim'⟩

/-- Before the first call. -/
theorem schedulerInit_sim (mem : Mem) (buffer n : Nat) {user : σ} {user' : σ'} (h : I user user') :
    (schedulerInit mem buffer n user).Sim I (schedulerInit mem buffer n user') where
  heap := rfl
  messages := rfl
  processHead := rfl
  processCurrent := rfl
  pollRequested := rfl
  procs := rfl
  user := h
  ret := rfl
  stack := .nil
  log := rfl

end EmbeddedMx
