import EmbeddedMx.Scheduler.Broadcast
import EmbeddedMx.Scheduler.Mail
import EmbeddedMx.Scheduler.Mailbox

/-!
# The scheduler is a mailbox

`Mailing` relates a state of the machine to a mailbox: the pool and the message list
hold the letters that wait, and the stack stands on the frames of at most one
`scheduler_run`, whose place says what the mailbox is doing. Everything above these
frames is threads and what they call. Such a frame may change the process list, and it
may send; a step of `scheduler_run` itself moves the mailbox on.
-/

namespace EmbeddedMx

open EmbeddedMx.Lib

variable {σ : Type}

/-! ## What leaves the messages alone -/

/-- The message list and the pool with the messages. -/
def Scheduler.store (s : Scheduler σ) : MsgList × Heap := (s.messages, s.heap)

theorem Scheduler.of_store {s : Scheduler σ} {l : MsgList} {h : Heap} (hs : s.store = (l, h)) :
    s.messages = l ∧ s.heap = h :=
  ⟨congrArg Prod.fst hs, congrArg Prod.snd hs⟩

/-- A message is posted, taken or freed. -/
def Frame.stores : Frame σ → Bool
  | .thread _ _ (.send _ _ _) => true
  | .utilizeMessage => true
  | .msgFree _ => true
  | _ => false

section Store

variable (w : Width) (fw : Firmware σ) (s : Scheduler σ)

theorem callProcess_store (p ev : Nat) (msg : MsgArg) :
    (callProcess fw s p ev msg).store = s.store := by
  rcases callProcess_cases fw s p ev msg with ⟨heq, -⟩ | ⟨thread, -, -, heq⟩
  · rw [heq]
  · rw [heq]
    rfl

theorem execCall_store (c : ProcCall) : (execCall w fw s c).store = s.store := by
  cases c with
  | poll p =>
      show (processPoll s p).store = s.store
      unfold processPoll
      split_ifs <;> rfl
  | start p => rfl
  | exit p => rfl
  | handleMsg p bytes =>
      show (schedulerHandleMsg w fw s p bytes).store = s.store
      unfold schedulerHandleMsg
      split
      · rfl
      · exact callProcess_store fw s p _ _
  | run =>
      show (schedulerRun s).store = s.store
      unfold schedulerRun
      dsimp only
      split <;> rfl

theorem loop_store (l : Loop) (tmp : Nat) :
    (execFrame w fw s (.loop l tmp)).store = s.store := by
  unfold execFrame
  dsimp only
  split
  · -- the loop is over
    cases l with
    | notify proc fromprocess old =>
        unfold loopEnd
        dsimp only
        split
        · rfl
        · split <;> rfl
    | _ => rfl
  · cases l with
    | notify proc fromprocess old =>
        unfold loopBody
        dsimp only
        split
        · exact callProcess_store fw _ tmp _ _
        · rfl
    | handle bytes => exact callProcess_store fw _ tmp _ _
    | poll =>
        unfold loopBody
        dsimp only
        split
        · exact callProcess_store fw _ tmp _ _
        · rfl
    | broadcast msgPtr =>
        unfold loopBody
        dsimp only
        split <;> rfl

/-- The messages are left alone by all other frames. -/
theorem execFrame_store {f : Frame σ} (hf : f.stores = false) :
    (execFrame w fw s f).store = s.store := by
  cases f with
  | thread self msg prog =>
      cases prog with
      | ret code user => rfl
      | read k => cases msg <;> rfl
      | send c user k => cases hf
      | call c user k => exact execCall_store w fw _ c
  | resume self msg k => rfl
  | called proc ev caller =>
      show (callReturned s proc ev caller).store = s.store
      unfold callReturned
      dsimp only
      split <;> rfl
  | loop l tmp => exact loop_store w fw s l tmp
  | loopNext l tmp => rfl
  | broadcastCall msgPtr p => exact callProcess_store fw _ p _ _
  | exitFind proc fromprocess old tmp =>
      unfold execFrame exitFound
      dsimp only
      split_ifs <;> rfl
  | exitUnlink proc old =>
      unfold execFrame
      dsimp only
      split <;> rfl
  | exitScan proc old tmp =>
      unfold execFrame
      dsimp only
      split_ifs <;> rfl
  | startFind proc tmp =>
      unfold execFrame
      dsimp only
      split_ifs
      · rfl
      · exact callProcess_store fw _ proc _ _
      · rfl
  | runEnd => rfl
  | utilizeMessage => cases hf
  | msgFree msgPtr => cases hf

/-- A message is taken from the list and stays in the pool. -/
theorem utilizeMessage_store : (execFrame w fw s .utilizeMessage).store =
    ((msgListPop s.messages s.heap.mem).1, s.heap) := by
  show (schedulerUtilizeMessage w fw s).store = _
  unfold schedulerUtilizeMessage
  dsimp only
  by_cases hnone : (msgListPop s.messages s.heap.mem).2 = 0
  · have hhead : s.messages.msgHead = 0 := by
      unfold msgListPop at hnone
      dsimp only at hnone
      split at hnone
      · assumption
      · exact hnone
    rw [if_pos hnone, msgListPop, if_pos hhead]
    rfl
  · rw [if_neg hnone]
    split
    · rfl
    · refine (callProcess_store fw _ _ _ _).trans ?_
      split <;> rfl

end Store

/-! ## Threads and what they call -/

/-- The frames of `scheduler_run` itself. -/
def Frame.base : Frame σ → Bool
  | .loop (.broadcast _) _ => true
  | .loopNext (.broadcast _) _ => true
  | .broadcastCall _ _ => true
  | .utilizeMessage => true
  | .msgFree _ => true
  | .runEnd => true
  | _ => false

/-- The node of a message. -/
def MsgArg.ptr : MsgArg → Option Nat
  | .node p => some p
  | _ => none

/-- The process whose thread may read a node, and this node. -/
def Frame.reads : Frame σ → Option (Nat × Nat)
  | .thread self msg _ => msg.ptr.map (self, ·)
  | .resume self msg _ => msg.ptr.map (self, ·)
  | _ => none

/-- What a thread, and what it calls, leave on the stack. -/
def Frame.Follows (f g : Frame σ) : Prop := g.base = false ∧ (g.reads = none ∨ g.reads = f.reads)

/-- The events of threads and of what they call, apart from sends. -/
def SchedEvent.Aside (s : Scheduler σ) (f : Frame σ) : SchedEvent → Prop
  | .read q bytes => ∃ p, f.reads = some (q, p) ∧ bytes = (letterAt s.heap.mem p).bytes
  | .enter _ _ msg => ∀ p, msg ≠ .node p
  | .off _ => True
  | .join _ => True
  | .leave _ => True
  | _ => False

section Aside

variable {w : Width} {fw : Firmware σ} {s s₁ s' : Scheduler σ} {f : Frame σ}
  {fs new : List (Frame σ)} {evs : List SchedEvent}

theorem CallPushes.aside {c : ProcCall} (h : CallPushes s c new evs) (hrun : c ≠ .run) :
    evs = [] ∧ ∀ g ∈ new, g.base = false ∧ g.reads = none := by
  cases h with
  | run => exact absurd rfl hrun
  | runPoll => exact absurd rfl hrun
  | _ => simp [Frame.base, Frame.reads]

theorem Pushes.aside (h : Pushes w s (.frame f) new evs) (hf : f.base = false)
    (hrun : f.issues ≠ some (.proc .run)) (hsend : ∀ c, f.issues ≠ some (.send c)) :
    (∀ g ∈ new, f.Follows g) ∧ ∀ ev ∈ evs, ev.Aside s f := by
  cases h with
  | @call self msg c user k new evs h =>
      have hc : c ≠ .run := fun heq => hrun (heq ▸ rfl)
      obtain ⟨rfl, hnew⟩ := h.aside hc
      refine ⟨?_, nofun⟩
      intro g hg
      rcases List.mem_append.mp hg with hg | hg
      · exact ⟨(hnew g hg).1, .inl (hnew g hg).2⟩
      · obtain rfl := List.mem_singleton.mp hg
        exact ⟨rfl, .inr rfl⟩
  | send => exact absurd rfl (hsend _)
  | read hmsg => exact ⟨List.forall_mem_singleton.mpr ⟨rfl, .inr rfl⟩, nofun⟩
  | readNode =>
      exact ⟨List.forall_mem_singleton.mpr ⟨rfl, .inr rfl⟩,
        List.forall_mem_singleton.mpr ⟨_, rfl, rfl⟩⟩
  | resume => exact ⟨List.forall_mem_singleton.mpr ⟨rfl, .inr rfl⟩, nofun⟩
  | @loopNext l tmp =>
      refine ⟨List.forall_mem_singleton.mpr ?_, nofun⟩
      cases l with
      | broadcast msgPtr => cases hf
      | _ => exact ⟨rfl, .inl rfl⟩
  | broadcast _ => cases hf
  | broadcastPoll _ => cases hf
  | broadcastEnd => cases hf
  | broadcastCall => cases hf
  | idle _ => cases hf
  | takeAll _ _ _ _ => cases hf
  | take _ _ _ _ _ => cases hf
  | msgFree => cases hf
  | runEnd => cases hf
  | _ => simp [Frame.Follows, Frame.base, Frame.reads, MsgArg.ptr]

theorem Local.aside (h : Local w fw s fs (.frame f) s₁) (hf : f.base = false)
    (hrun : f.issues ≠ some (.proc .run)) (hsend : ∀ c, f.issues ≠ some (.send c)) :
    ∃ (new : List (Frame σ)) (evs : List SchedEvent), s₁.stack = new ++ fs ∧
    s₁.log = s.log ++ evs ∧ (∀ g ∈ new, f.Follows g) ∧
      ∀ ev ∈ evs, ev.Aside s f := by
  cases h with
  | quiet hpush _ _ _ hstack hlog =>
      obtain ⟨hnew, hevs⟩ := hpush.aside hf hrun hsend
      exact ⟨_, _, hstack, hlog, hnew, hevs⟩
  | returned _ _ _ _ hstack hlog =>
      exact ⟨[], [], hstack, hlog.trans (List.append_nil _).symm, nofun, nofun⟩
  | polled _ _ _ _ _ hstack hlog =>
      exact ⟨[_], [], hstack, hlog.trans (List.append_nil _).symm,
        List.forall_mem_singleton.mpr ⟨rfl, .inl rfl⟩, nofun⟩
  | inited _ _ _ _ _ _ _ _ _ _ => cases hf
  | off _ _ _ _ _ hstack hlog =>
      exact ⟨[_], [_], hstack, hlog, List.forall_mem_singleton.mpr ⟨rfl, .inl rfl⟩,
        List.forall_mem_singleton.mpr trivial⟩
  | farewell _ _ _ _ _ hstack hlog =>
      exact ⟨[_, _], [_], hstack, hlog,
          by simp [Frame.Follows, Frame.base, Frame.reads, MsgArg.ptr],
        List.forall_mem_singleton.mpr nofun⟩
  | leaveHead _ _ _ hstack hlog =>
      exact ⟨[], [_], hstack, hlog, nofun, List.forall_mem_singleton.mpr trivial⟩
  | leave _ _ _ _ hstack hlog =>
      exact ⟨[], [_], hstack, hlog, nofun, List.forall_mem_singleton.mpr trivial⟩
  | join _ _ _ _ hstack hlog =>
      exact ⟨[], [_], hstack, hlog, nofun, List.forall_mem_singleton.mpr trivial⟩

/-- A call of a process: its thread may read the message it is given. -/
theorem Called.stack {q ev : Nat} {msg : MsgArg} (h : Called fw s₁ q ev msg s') :
    ∃ (new : List (Frame σ)) (evs : List SchedEvent), s'.stack = new ++ s₁.stack ∧
    s'.log = s₁.log ++ evs ∧
      (∀ g ∈ new, g.base = false ∧ (g.reads = none ∨ ∃ p, msg = .node p ∧ g.reads = some (q, p))) ∧
      (evs = [] ∨ evs = [.enter q ev msg]) := by
  rcases h with ⟨rfl, -⟩ | h
  · exact ⟨[], [], rfl, (List.append_nil _).symm, nofun, .inl rfl⟩
  · obtain ⟨thread, -, hstack⟩ := h.stack
    refine ⟨[_, _], [_], hstack, h.log, ?_, .inr rfl⟩
    intro g hg
    simp only [List.mem_cons, List.not_mem_nil, or_false] at hg
    rcases hg with rfl | rfl
    · cases msg with
      | node p => exact ⟨rfl, .inr ⟨p, rfl, rfl⟩⟩
      | _ => exact ⟨rfl, .inl rfl⟩
    · exact ⟨rfl, .inl rfl⟩

/-- A step of a thread, or of what it calls. -/
theorem Effect.aside (h : Effect w fw s (.frame f) fs s') (hf : f.base = false)
    (hrun : f.issues ≠ some (.proc .run)) (hsend : ∀ c, f.issues ≠ some (.send c)) :
    ∃ (new : List (Frame σ)) (evs : List SchedEvent), s'.stack = new ++ fs ∧
    s'.log = s.log ++ evs ∧ (∀ g ∈ new, f.Follows g) ∧
      ∀ ev ∈ evs, ev.Aside s f := by
  obtain ⟨s₁, hlocal, hcall⟩ := h
  obtain ⟨new, evs, hstack, hlog, hnew, hevs⟩ := hlocal.aside hf hrun hsend
  rcases hcall with ⟨-, rfl⟩ | ⟨q, ev, msg, hcalls, hcalled⟩
  · exact ⟨new, evs, hstack, hlog, hnew, hevs⟩
  · -- a thread that is called aside is not given a node
    have hmsg : ∀ p, msg ≠ .node p := by
      rintro p rfl
      cases hcalls <;> cases hf
    obtain ⟨new', evs', hstack', hlog', hnew', hevs'⟩ := hcalled.stack
    refine ⟨new' ++ new, evs ++ evs', by rw [hstack', hstack, List.append_assoc],
      by rw [hlog', hlog, List.append_assoc], ?_, ?_⟩
    · refine List.forall_mem_append.mpr ⟨fun g hg => ?_, hnew⟩
      obtain ⟨hbase, hreads⟩ := hnew' g hg
      refine ⟨hbase, .inl (hreads.resolve_right ?_)⟩
      rintro ⟨p, heq, -⟩
      exact hmsg p heq
    · refine List.forall_mem_append.mpr ⟨hevs, fun e he => ?_⟩
      rcases hevs' with rfl | rfl
      · cases he
      · obtain rfl := List.mem_singleton.mp he
        exact hmsg

end Aside

/-! ## `scheduler_run` -/

section Run

variable {w : Width} {fw : Firmware σ} {s s' : Scheduler σ} {fs : List (Frame σ)}

/-- The broadcast loop ends, or turns to the process `tmp`. -/
theorem Effect.broadcastLoop {ptr tmp : Nat}
    (h : Effect w fw s (.frame (.loop (.broadcast ptr) tmp)) fs s') :
    s'.next = s.next ∧ s'.log = s.log ∧
      ((tmp = 0 ∧ s'.stack = .msgFree ptr :: fs) ∨
        tmp ≠ 0 ∧ ∃ new : List (Frame σ),
          s'.stack = new ++ .broadcastCall ptr tmp :: .loopNext (.broadcast ptr) tmp :: fs ∧
          ∀ g ∈ new, g.base = false ∧ g.reads = none) := by
  obtain ⟨s₁, hlocal, ⟨-, rfl⟩ | ⟨q, ev, msg, hcalls, -⟩⟩ := h
  · cases hlocal with
    | quiet hpush hnext _ _ hstack hlog =>
        cases hpush with
        | broadcast htmp =>
            exact ⟨hnext, hlog.trans (List.append_nil _), .inr ⟨htmp, [], hstack, nofun⟩⟩
        | broadcastPoll htmp =>
            exact ⟨hnext, hlog.trans (List.append_nil _),
              .inr ⟨htmp, [_], hstack, List.forall_mem_singleton.mpr ⟨rfl, rfl⟩⟩⟩
        | broadcastEnd => exact ⟨hnext, hlog.trans (List.append_nil _), .inl ⟨rfl, hstack⟩⟩
  · cases hcalls

/-- The process `tmp` is given the message. -/
theorem Effect.broadcastCall {ptr tmp : Nat}
    (h : Effect w fw s (.frame (.broadcastCall ptr tmp)) fs s') :
    s'.next = s.next ∧ ∃ (new : List (Frame σ)) (evs : List SchedEvent), s'.stack = new ++ fs ∧
      s'.log = s.log ++ (.deliver tmp (letterAt s.heap.mem ptr).bytes :: evs) ∧
      (∀ g ∈ new, g.base = false ∧ (g.reads = none ∨ g.reads = some (tmp, ptr))) ∧
      (evs = [] ∨ ∃ ev, evs = [.enter tmp ev (.node ptr)]) := by
  obtain ⟨s₁, hlocal, ⟨hno, -⟩ | ⟨q, ev, msg, hcalls, hcalled⟩⟩ := h
  · exact absurd .broadcast (hno _ _ _)
  · cases hlocal with
    | quiet hpush hnext _ _ hstack hlog =>
        cases hpush
        cases hcalls
        obtain ⟨new, evs, hstack', hlog', hnew, hevs⟩ := hcalled.stack
        refine ⟨hcalled.same.1.trans hnext, new, evs, by rw [hstack', hstack]; rfl,
          by rw [hlog', hlog, List.append_assoc]; rfl, ?_, hevs.imp_right fun heq => ⟨_, heq⟩⟩
        intro g hg
        obtain ⟨hbase, hreads⟩ := hnew g hg
        refine ⟨hbase, hreads.imp_right ?_⟩
        rintro ⟨p, heq, hreads⟩
        injection heq with heq
        rw [heq]
        exact hreads

/-- A message is taken: it is for all, or its receiver is given it. -/
theorem Effect.utilizeMessage (h : Effect w fw s (.frame .utilizeMessage) fs s') :
    s'.next = s.next ∧
      ((s.popped = 0 ∧ s'.stack = fs ∧ s'.log = s.log ++ [.idle]) ∨
        ∃ ptr x, s.popped = ptr ∧ ptr ≠ 0 ∧ letterAt s.heap.mem ptr = x ∧
          ((x.receiver = processBroadcast ∧
              s'.stack = .loop (.broadcast ptr) s.processHead :: fs ∧
              s'.log = s.log ++ [.take x]) ∨
            (x.receiver ≠ processBroadcast ∧ ∃ (new : List (Frame σ)) (evs : List SchedEvent),
              s'.stack = new ++ .msgFree ptr :: fs ∧
              s'.log = s.log ++ ([.take x, .deliver x.receiver x.bytes] ++ evs) ∧
              (∀ g ∈ new, g.base = false ∧
                (g.reads = none ∨ g.reads = some (x.receiver, ptr))) ∧
              (evs = [] ∨ ∃ ev, evs = [.enter x.receiver ev (.node ptr)])))) := by
  obtain ⟨s₁, hlocal, hcall⟩ := h
  -- behind the local part the receiver is called
  have hone : ∀ {ptr x}, s.popped = ptr → ptr ≠ 0 → letterAt s.heap.mem ptr = x →
      x.receiver ≠ processBroadcast → s₁.next = s.next → s₁.stack = .msgFree ptr :: fs →
      s₁.log = s.log ++ [.take x, .deliver x.receiver x.bytes] →
      s'.next = s.next ∧ ∃ (new : List (Frame σ)) (evs : List SchedEvent),
        s'.stack = new ++ .msgFree ptr :: fs ∧
        s'.log = s.log ++ ([.take x, .deliver x.receiver x.bytes] ++ evs) ∧
        (∀ g ∈ new, g.base = false ∧ (g.reads = none ∨ g.reads = some (x.receiver, ptr))) ∧
        (evs = [] ∨ ∃ ev, evs = [.enter x.receiver ev (.node ptr)]) := by
    intro ptr x hptr hne hx hreceiver hnext hstack hlog
    rcases hcall with ⟨hno, -⟩ | ⟨q, ev, msg, hcalls, hcalled⟩
    · exact absurd (.message hptr hne hx hreceiver) (hno _ _ _)
    · cases hcalls with
      | message hptr' _ hx' _ =>
          obtain rfl := hptr'.symm.trans hptr
          obtain rfl := hx'.symm.trans hx
          obtain ⟨new, evs, hstack', hlog', hnew, hevs⟩ := hcalled.stack
          refine ⟨hcalled.same.1.trans hnext, new, evs, by rw [hstack', hstack],
            by rw [hlog', hlog, List.append_assoc], ?_, hevs.imp_right fun heq => ⟨_, heq⟩⟩
          intro g hg
          obtain ⟨hbase, hreads⟩ := hnew g hg
          refine ⟨hbase, hreads.imp_right ?_⟩
          rintro ⟨p, heq, hreads⟩
          injection heq with heq
          rw [heq]
          exact hreads
  cases hlocal with
  | quiet hpush hnext _ _ hstack hlog =>
      cases hpush with
      | idle hnone =>
          rcases hcall with ⟨-, rfl⟩ | ⟨q, ev, msg, hcalls, -⟩
          · exact ⟨hnext, .inl ⟨hnone, hstack, hlog⟩⟩
          · cases hcalls with
            | message hptr hne _ _ => exact absurd (hptr.symm.trans hnone) hne
      | takeAll hptr hne hx hall =>
          rcases hcall with ⟨-, rfl⟩ | ⟨q, ev, msg, hcalls, -⟩
          · exact ⟨hnext, .inr ⟨_, _, hptr, hne, hx, .inl ⟨hall, hstack, hlog⟩⟩⟩
          · cases hcalls with
            | message hptr' _ hx' hreceiver =>
                obtain rfl := hptr'.symm.trans hptr
                obtain rfl := hx'.symm.trans hx
                exact absurd hall hreceiver
      | take hptr hne hx hreceiver _ =>
          obtain ⟨hnext', hrest⟩ := hone hptr hne hx hreceiver hnext hstack hlog
          exact ⟨hnext', .inr ⟨_, _, hptr, hne, hx, .inr ⟨hreceiver, hrest⟩⟩⟩
  | inited hptr hne hx hreceiver _ hnext _ _ hstack hlog =>
      obtain ⟨hnext', hrest⟩ := hone hptr hne hx hreceiver hnext hstack hlog
      exact ⟨hnext', .inr ⟨_, _, hptr, hne, hx, .inr ⟨hreceiver, hrest⟩⟩⟩

/-- The main program makes a call; a call of `scheduler_run` begins. -/
theorem Effect.outside {c : ProcCall} (h : Effect w fw s (.outside (.proc c)) [] s') :
    s'.next = s.next ∧
      ((s'.log = s.log ++ [.run] ∧
        ∃ new : List (Frame σ), s'.stack = new ++ [.utilizeMessage, .runEnd] ∧
          ∀ g ∈ new, g.base = false ∧ g.reads = none) ∨
        ∃ evs : List SchedEvent, s'.log = s.log ++ evs ∧
        (∀ g ∈ s'.stack, g.base = false ∧ g.reads = none) ∧
          ∀ e ∈ evs, ∃ q ev bytes, e = .enter q ev (.onStack bytes)) := by
  obtain ⟨s₁, hlocal, hcall⟩ := h
  cases hlocal with
  | quiet hpush hnext _ _ hstack hlog =>
      rw [List.append_nil] at hstack
      cases hpush with
      | outside hpush =>
          rcases hcall with ⟨-, rfl⟩ | ⟨q, ev, msg, hcalls, hcalled⟩
          · refine ⟨hnext, ?_⟩
            cases hpush with
            | run => exact .inl ⟨hlog, [], hstack, nofun⟩
            | runPoll =>
                exact .inl ⟨hlog, [_], hstack, List.forall_mem_singleton.mpr ⟨rfl, rfl⟩⟩
            | poll => exact .inr ⟨[], hlog, by rw [hstack]; exact nofun, nofun⟩
            | handle _ => exact .inr ⟨[], hlog, by rw [hstack]; exact nofun, nofun⟩
            | _ =>
                refine .inr ⟨[], hlog, ?_, nofun⟩
                rw [hstack]
                exact List.forall_mem_singleton.mpr ⟨rfl, rfl⟩
          · cases hcalls with
            | outside hp =>
                cases hpush with
                | handleAll => exact absurd rfl hp
                | handle _ =>
                    obtain ⟨new, evs, hstack', hlog', hnew, hevs⟩ := hcalled.stack
                    rw [hstack, List.append_nil] at hstack'
                    rw [hlog, List.append_nil] at hlog'
                    refine ⟨hcalled.same.1.trans hnext, .inr ⟨evs, hlog', ?_, ?_⟩⟩
                    · rw [hstack']
                      intro g hg
                      refine ⟨(hnew g hg).1, (hnew g hg).2.resolve_right ?_⟩
                      rintro ⟨p, heq, -⟩
                      cases heq
                    · rcases hevs with rfl | rfl
                      · exact nofun
                      · exact List.forall_mem_singleton.mpr ⟨_, _, _, rfl⟩

end Run

/-! ## Where `scheduler_run` is -/

/-- The frames of `scheduler_run`, the message it holds, and what the mailbox does then. -/
inductive Scheduler.Stands (s : Scheduler σ) : List (Frame σ) → List Msg → MailPhase → Prop
  | idle : Stands s [] [] .idle
  | running : Stands s [.utilizeMessage, .runEnd] [] .running
  | loop {o x current todo tmp} : letterAt s.heap.mem o.ptr = x → x.receiver = processBroadcast →
      (∀ xs, todo = some xs → LinkPath s.next tmp xs 0 ∧ 0 ∉ xs) →
      Stands s [.loop (.broadcast o.ptr) tmp, .runEnd] [o] (.handling x current todo)
  | call {o x current todo tmp} : letterAt s.heap.mem o.ptr = x → x.receiver = processBroadcast →
      (∀ xs, todo = some xs → ∃ ys, xs = tmp :: ys ∧ s.Ahead tmp ys) →
      Stands s [.broadcastCall o.ptr tmp, .loopNext (.broadcast o.ptr) tmp, .runEnd] [o]
        (.handling x current todo)
  | next {o x current todo tmp} : letterAt s.heap.mem o.ptr = x → x.receiver = processBroadcast →
      (∀ xs, todo = some xs → current = some tmp ∧ s.Ahead tmp xs) →
      Stands s [.loopNext (.broadcast o.ptr) tmp, .runEnd] [o] (.handling x current todo)
  | free {o x current todo} : letterAt s.heap.mem o.ptr = x → todo.getD [] = [] →
      Stands s [.msgFree o.ptr, .runEnd] [o] (.handling x current todo)
  | freed {x current todo} : todo.getD [] = [] →
      Stands s [.runEnd] [] (.handling x current todo)
  | missed : Stands s [.runEnd] [] .missed

/-- The letter that is handled, and who was given it last, stay the same. -/
def MailPhase.Keeps (phase phase' : MailPhase) : Prop :=
  ∀ x current todo, phase = .handling x current todo → ∃ todo', phase' = .handling x current todo'

theorem MailPhase.Keeps.refl (phase : MailPhase) : phase.Keeps phase :=
  fun _ _ todo h => ⟨todo, h⟩

theorem MailPhase.join_keeps (phase : MailPhase) (p : Nat) : phase.Keeps (phase.join p) := by
  rintro x current todo rfl
  cases todo with
  | none => exact ⟨none, rfl⟩
  | some todo =>
      rw [MailPhase.join_handling]
      split
      · exact ⟨none, rfl⟩
      · exact ⟨some todo, rfl⟩

theorem MailPhase.Leave.keeps {phase phase' : MailPhase} {p : Nat} (h : phase.Leave p phase') :
    phase.Keeps phase' := by
  rintro x current todo rfl
  cases h with
  | stay => exact ⟨todo, rfl⟩
  | drop _ _ => exact ⟨_, rfl⟩

namespace Scheduler.Stands

variable {s s' : Scheduler σ} {base : List (Frame σ)} {held : List Msg} {phase : MailPhase}
  {p : Nat} {evs : List SchedEvent}

/-- The message that is held is the letter that is handled. -/
theorem letter {x : Letter} {current : Option Nat} {todo : Option (List Nat)}
    (h : s.Stands base held (.handling x current todo)) :
    ∀ o ∈ held, letterAt s.heap.mem o.ptr = x := by
  cases h with
  | freed _ => exact nofun
  | loop hx _ _ => exact List.forall_mem_singleton.mpr hx
  | call hx _ _ => exact List.forall_mem_singleton.mpr hx
  | next hx _ _ => exact List.forall_mem_singleton.mpr hx
  | free hx _ => exact List.forall_mem_singleton.mpr hx

/-- The chains and the held message are the same. -/
theorem congr (h : s.Stands base held phase) (hnext : s'.next = s.next)
    (hletters : ∀ o ∈ held, letterAt s'.heap.mem o.ptr = letterAt s.heap.mem o.ptr) :
    s'.Stands base held phase := by
  have hahead : ∀ {tmp xs}, s.Ahead tmp xs → s'.Ahead tmp xs := by
    intro tmp xs h
    unfold Scheduler.Ahead
    rw [hnext]
    exact h
  cases h with
  | idle => exact .idle
  | running => exact .running
  | loop hx hall htodo =>
      refine .loop ((hletters _ List.mem_cons_self).trans hx) hall ?_
      rw [hnext]
      exact htodo
  | call hx hall htodo =>
      refine .call ((hletters _ List.mem_cons_self).trans hx) hall fun xs hxs => ?_
      obtain ⟨ys, heq, hys⟩ := htodo xs hxs
      exact ⟨ys, heq, hahead hys⟩
  | next hx hall htodo =>
      refine .next ((hletters _ List.mem_cons_self).trans hx) hall fun xs hxs => ?_
      exact ⟨(htodo xs hxs).1, hahead (htodo xs hxs).2⟩
  | free hx htodo => exact .free ((hletters _ List.mem_cons_self).trans hx) htodo
  | freed htodo => exact .freed htodo
  | missed => exact .missed

/-- A process joins the list: a loop that has it in front of it goes on somewhere else. -/
theorem joined (h : s.Stands base held phase) (hheap : s'.heap = s.heap)
    (hpath : ∀ {a xs}, LinkPath s.next a xs 0 → p ∉ xs → LinkPath s'.next a xs 0) :
    s'.Stands base held (phase.join p) := by
  cases h with
  | idle => exact .idle
  | running => exact .running
  | missed => exact .missed
  | @loop o x current todo tmp hx hall htodo =>
      rw [← hheap] at hx
      cases todo with
      | none => exact .loop hx hall nofun
      | some xs =>
          rw [MailPhase.join_handling]
          split
          · exact .loop hx hall nofun
          · rename_i hp
            refine .loop hx hall fun ys hys => ?_
            injection hys with hys
            subst hys
            obtain ⟨hlink, hzero⟩ := htodo xs rfl
            exact ⟨hpath hlink fun hmem => hp ⟨hall, .inr hmem⟩, hzero⟩
  | @call o x current todo tmp hx hall htodo =>
      rw [← hheap] at hx
      cases todo with
      | none => exact .call hx hall nofun
      | some xs =>
          rw [MailPhase.join_handling]
          split
          · exact .call hx hall nofun
          · rename_i hp
            refine .call hx hall fun ys hys => ?_
            injection hys with hys
            subst hys
            obtain ⟨ys, rfl, hlink, hzero⟩ := htodo xs rfl
            exact ⟨ys, rfl, hpath hlink fun hmem => hp ⟨hall, .inr hmem⟩, hzero⟩
  | @next o x current todo tmp hx hall htodo =>
      rw [← hheap] at hx
      cases todo with
      | none => exact .next hx hall nofun
      | some xs =>
          rw [MailPhase.join_handling]
          split
          · exact .next hx hall nofun
          · rename_i hp
            refine .next hx hall fun ys hys => ?_
            injection hys with hys
            subst hys
            obtain ⟨hcurrent, hlink, hzero⟩ := htodo xs rfl
            refine ⟨hcurrent, hpath hlink fun hmem => hp ⟨hall, ?_⟩, hzero⟩
            rcases List.mem_cons.mp hmem with rfl | hmem
            · exact .inl hcurrent
            · exact .inr hmem
  | @free o x current todo hx htodo =>
      rw [← hheap] at hx
      cases todo with
      | none => exact .free hx htodo
      | some xs =>
          rw [MailPhase.join_handling]
          split
          · exact .free hx rfl
          · exact .free hx htodo
  | @freed x current todo htodo =>
      cases todo with
      | none => exact .freed htodo
      | some xs =>
          rw [MailPhase.join_handling]
          split
          · exact .freed rfl
          · exact .freed htodo

/-- A process leaves the list: a loop that has it in front of it may pass it by. -/
theorem left (h : s.Stands base held phase) (hheap : s'.heap = s.heap) (hzero : 0 ∉ members s.log)
    (hrelinks : Relinks s s' [.leave p]) :
    ∃ phase', phase.Leave p phase' ∧ s'.Stands base held phase' := by
  have hjoin : ∀ {xs : List Nat} q, SchedEvent.join q ∈ [SchedEvent.leave p] → q ∉ xs := by simp
  have hgone : ∀ {xs xs' : List Nat},
      (∀ x ∈ xs, x ∉ xs' → SchedEvent.leave x ∈ [SchedEvent.leave p]) →
      ∀ x ∈ xs, x ∉ xs' → x = p := by
    intro xs xs' hleft x hx hnot
    injection List.mem_singleton.mp (hleft x hx hnot)
  cases h with
  | idle => exact ⟨_, .stay, .idle⟩
  | running => exact ⟨_, .stay, .running⟩
  | missed => exact ⟨_, .stay, .missed⟩
  | free hx htodo => exact ⟨_, .stay, .free (hheap ▸ hx) htodo⟩
  | freed htodo => exact ⟨_, .stay, .freed htodo⟩
  | @loop o x current todo tmp hx hall htodo =>
      rw [← hheap] at hx
      cases todo with
      | none => exact ⟨_, .stay, .loop hx hall nofun⟩
      | some xs =>
          obtain ⟨hlink, hxs⟩ := htodo xs rfl
          obtain ⟨xs', hlink', hsub, hleft⟩ := hrelinks.chain hzero hlink hxs hjoin
          refine ⟨_, .drop hsub (hgone hleft), .loop hx hall fun ys hys => ?_⟩
          injection hys with hys
          subst hys
          exact ⟨hlink', fun hmem => hxs (hsub.subset hmem)⟩
  | @call o x current todo tmp hx hall htodo =>
      rw [← hheap] at hx
      cases todo with
      | none => exact ⟨_, .stay, .call hx hall nofun⟩
      | some xs =>
          obtain ⟨ys, rfl, hahead⟩ := htodo xs rfl
          obtain ⟨ys', hahead', hsub, hleft⟩ := hrelinks.ahead hzero hahead hjoin
          refine ⟨_, .drop (hsub.cons_cons tmp) ?_, .call hx hall fun zs hzs => ?_⟩
          · -- the process it stands on is still given the message
            intro y hy hnot
            obtain ⟨hne, hnot⟩ := not_or.mp (List.mem_cons.not.mp hnot)
            exact hgone hleft y ((List.mem_cons.mp hy).resolve_left hne) hnot
          · injection hzs with hzs
            subst hzs
            exact ⟨ys', rfl, hahead'⟩
  | @next o x current todo tmp hx hall htodo =>
      rw [← hheap] at hx
      cases todo with
      | none => exact ⟨_, .stay, .next hx hall nofun⟩
      | some xs =>
          obtain ⟨hcurrent, hahead⟩ := htodo xs rfl
          obtain ⟨xs', hahead', hsub, hleft⟩ := hrelinks.ahead hzero hahead hjoin
          refine ⟨_, .drop hsub (hgone hleft), .next hx hall fun ys hys => ?_⟩
          injection hys with hys
          subst hys
          exact ⟨hcurrent, hahead'⟩

end Scheduler.Stands

/-! ## The relation -/

/-- A frame of a thread, or of what it calls: only the process that was given the message
last may read it. -/
def Frame.Above (held : List Msg) (phase : MailPhase) (f : Frame σ) : Prop :=
  f.base = false ∧ ∀ q p, f.reads = some (q, p) →
    held.map Msg.ptr = [p] ∧ ∃ x todo, phase = .handling x (some q) todo

/-- The state `s` of the machine stands for the mailbox `m`: its stack are the frames
`base` of `scheduler_run`, which holds `held`, with the frames `above` over them, and the
letters in the messages `queued` wait. -/
structure Mailing (w : Width) (n buffer : Nat) (s : Scheduler σ) (m : Mailbox)
    (above base : List (Frame σ)) (held queued : List Msg) : Prop where
  runs : MailRuns .empty s.log m
  procs : m.procs = members s.log
  buffer : s.heap.cba.buffer = buffer
  stack : s.stack = above ++ base
  aside : ∀ f ∈ above, f.Above held m.phase
  stands : s.Stands base held m.phase
  rep : MailRep w n s.heap s.messages held queued
  waiting : letters s.heap.mem queued = m.waiting

/-- A message that may be sent: a process is an address. -/
def Letter.Mailable (x : Letter) : Prop :=
  x.bytes.length ≤ 4096 ∧ x.receiver < 256 ^ sizeofPtr

theorem Frame.Above.keeps {held : List Msg} {phase phase' : MailPhase} {f : Frame σ}
    (h : f.Above held phase) (hkeeps : phase.Keeps phase') : f.Above held phase' := by
  refine ⟨h.1, fun q p hreads => ?_⟩
  obtain ⟨hheld, x, todo, hphase⟩ := h.2 q p hreads
  obtain ⟨todo', hphase'⟩ := hkeeps x (some q) todo hphase
  exact ⟨hheld, x, todo', hphase'⟩

/-- A frame that reads nothing. -/
theorem Frame.Above.of_plain {held : List Msg} {phase : MailPhase} {f : Frame σ}
    (h : f.base = false ∧ f.reads = none) : f.Above held phase := by
  refine ⟨h.1, fun q p hreads => ?_⟩
  rw [h.2] at hreads
  cases hreads

/-- An event of a thread, or of what it calls, that does not change the process list. -/
theorem SchedEvent.Aside.mail {s : Scheduler σ} {f : Frame σ} {ev : SchedEvent} {m : Mailbox}
    (h : ev.Aside s f) (hlisting : ev.listing = false)
    (hreads : ∀ q p, f.reads = some (q, p) →
      ∃ todo, m.phase = .handling (letterAt s.heap.mem p) (some q) todo) : MailStep m ev m := by
  cases ev with
  | read q bytes =>
      obtain ⟨p, hf, hbytes⟩ := h
      obtain ⟨todo, hphase⟩ := hreads q p hf
      rw [hbytes]
      exact .read hphase
  | enter q ev msg => exact .enter fun p heq => absurd heq (h p)
  | off p => exact .off
  | join p => cases hlisting
  | leave p => cases hlisting
  | _ => exact h.elim

namespace Mailing

variable {w : Width} {fw : Firmware σ} {n buffer : Nat} {s s₁ s' : Scheduler σ} {m : Mailbox}
  {f : Frame σ} {above base : List (Frame σ)} {held queued : List Msg}

/-- A frame that reads a message reads the letter that is handled. -/
theorem reads (h : Mailing w n buffer s m above base held queued) (hf : f.Above held m.phase)
    {phase : MailPhase} (hkeeps : m.phase.Keeps phase) :
    ∀ q p, f.reads = some (q, p) →
      ∃ todo, phase = .handling (letterAt s.heap.mem p) (some q) todo := by
  intro q p hreads
  obtain ⟨hheld, x, todo, hphase⟩ := hf.2 q p hreads
  have hstands := h.stands
  rw [hphase] at hstands
  cases held with
  | nil => cases hheld
  | cons o rest =>
      injection hheld with hp
      obtain ⟨todo', hphase'⟩ := hkeeps x (some q) todo hphase
      refine ⟨todo', ?_⟩
      rw [hphase', ← hp, hstands.letter o List.mem_cons_self]

/-- A step of a thread, or of what it calls, that posts nothing. -/
theorem step_aside (h : Mailing w n buffer s m (f :: above) base held queued) (hproc : ProcInv s)
    (heff : Effect w fw s (.frame f) (above ++ base) s') (hstore : s'.store = s.store)
    (hrun : f.issues ≠ some (.proc .run)) (hsend : ∀ c, f.issues ≠ some (.send c)) :
    ∃ m' above', Mailing w n buffer s' m' above' base held queued := by
  have hf := h.aside f List.mem_cons_self
  obtain ⟨new, evs, hstack, hlog, hnew, hevs⟩ := heff.aside hf.1 hrun hsend
  obtain ⟨evs', hlog', hrelinks⟩ := heff.relinks hproc h.stack
  obtain rfl : evs' = evs := List.append_cancel_left (hlog'.symm.trans hlog)
  obtain ⟨hmessages, hheap⟩ := Scheduler.of_store hstore
  -- the mailbox may change its process list, and with it who gets the letter next
  suffices hmail : ∃ phase', m.phase.Keeps phase' ∧ s'.Stands base held phase' ∧
      MailRuns m evs' { m with procs := members s'.log, phase := phase' } by
    obtain ⟨phase', hkeeps, hstands, hruns⟩ := hmail
    refine ⟨{ m with procs := members s'.log, phase := phase' }, new ++ above,
      { runs := by
          rw [hlog] at hruns ⊢
          exact h.runs.trans hruns
        procs := rfl
        buffer := hheap ▸ h.buffer
        stack := by rw [hstack, List.append_assoc]
        aside := ?_
        stands := hstands
        rep := by rw [hheap, hmessages]; exact h.rep
        waiting := by rw [hheap]; exact h.waiting }⟩
    refine List.forall_mem_append.mpr ⟨fun g hg => ?_, fun g hg => ?_⟩
    · obtain ⟨hbase, hreads⟩ := hnew g hg
      rcases hreads with hreads | hreads
      · exact .of_plain ⟨hbase, hreads⟩
      · refine (show g.Above held m.phase from ⟨hbase, ?_⟩).keeps hkeeps
        rw [hreads]
        exact hf.2
    · exact (h.aside g (List.mem_cons_of_mem _ hg)).keeps hkeeps
  have hleave : ∀ {p}, Relinks s s' [.leave p] → evs' = [.leave p] →
      ∃ phase', m.phase.Keeps phase' ∧ s'.Stands base held phase' ∧
        MailRuns m evs' { m with procs := members s'.log, phase := phase' } := by
    intro p hleave heq
    obtain ⟨phase', hleft, hstands⟩ := h.stands.left hheap hproc.zero hleave
    refine ⟨phase', hleft.keeps, hstands, ?_⟩
    have hprocs : members s'.log = m.procs.erase p := by
      rw [hlog, heq, members_append, h.procs]
      rfl
    rw [hprocs, heq]
    exact .single (.leave hleft)
  cases hrelinks with
  | same hnext _ hquiet =>
      refine ⟨m.phase, .refl _, h.stands.congr hnext fun o _ => by rw [hheap], ?_⟩
      have hprocs : members s'.log = m.procs := by rw [hlog, members_quiet hquiet, h.procs]
      rw [hprocs]
      exact .same fun ev hev => (hevs ev hev).mail (hquiet ev hev) (h.reads hf (.refl _))
  | @join p rest hp hnot hnext hhead hquiet =>
      have hpath : ∀ {a xs}, LinkPath s.next a xs 0 → p ∉ xs → LinkPath s'.next a xs 0 := by
        intro a xs hlink hxs
        rw [hnext]
        exact hlink.congr fun x hx => Function.update_of_ne (fun heq : x = p => hxs (heq ▸ hx)) _ _
      refine ⟨m.phase.join p, m.phase.join_keeps p, h.stands.joined hheap hpath, ?_⟩
      have hprocs : members s'.log = p :: m.procs := by
        rw [hlog, members_append, List.foldl_cons, foldl_relist_quiet hquiet, h.procs]
        rfl
      rw [hprocs]
      refine (MailRuns.single .join).trans (.same fun ev hev => ?_)
      exact (hevs ev (List.mem_cons_of_mem _ hev)).mail (hquiet ev hev)
        (h.reads hf (m.phase.join_keeps p))
  | leaveHead h₁ h₂ h₃ => exact hleave (.leaveHead h₁ h₂ h₃) rfl
  | leave h₁ h₂ h₃ h₄ => exact hleave (.leave h₁ h₂ h₃ h₄) rfl

/-- A send is refused without effect, or the letter waits behind the others. -/
theorem posts (h : Mailing w n buffer s m above base held queued) (hn : n ≤ 4099)
    (hstore : s₁.store = s.store) {c : SendCall} (hc : (c.letter w).Mailable) :
    postSend w s₁ c = (s₁.emit (.send (c.letter w) processErrNoMemory), processErrNoMemory) ∨
    ∃ (heap : Heap) (messages : MsgList) (o : Msg), postSend w s₁ c =
        ({ s₁ with heap := heap, messages := messages }.emit (.send (c.letter w) processSuccess),
          processSuccess) ∧
      MailRep w n heap messages held (queued ++ [o]) ∧ letterAt heap.mem o.ptr = c.letter w ∧
      (∀ o' ∈ held ++ queued, letterAt heap.mem o'.ptr = letterAt s.heap.mem o'.ptr) ∧
      heap.cba.buffer = s.heap.cba.buffer := by
  obtain ⟨hmessages, hheap⟩ := Scheduler.of_store hstore
  have hrep : MailRep w n s₁.heap s₁.messages held queued := by
    rw [hmessages, hheap]
    exact h.rep
  obtain ⟨heap, messages, hframe⟩ := sendMessage_frame w s₁ (c.letter w).receiver
    (c.letter w).bytes.length fun m p => m.write p (c.letter w).bytes
  have hbuffer := sendMessage_buffer w s₁ (c.letter w).receiver (c.letter w).bytes.length
    fun m p => m.write p (c.letter w).bytes
  unfold postSend
  dsimp only
  rw [execSend_eq]
  rcases hrep.send hn hc.1 hc.2 rfl with hrefused | ⟨hstatus, o, hrep', hletter, hkept⟩
  · rw [hrefused]
    exact .inl rfl
  · rw [hstatus]
    rw [hframe] at hbuffer hrep' hletter hkept ⊢
    rw [hheap] at hbuffer hkept
    exact .inr ⟨heap, messages, o, rfl, hrep', hletter, hkept, hbuffer⟩

/-- A step that sends. -/
theorem step_send {above' : List (Frame σ)} (h : Mailing w n buffer s m above base held queued)
    (hn : n ≤ 4099) (hstore₁ : s₁.store = s.store) (hlog₁ : s₁.log = s.log) {c : SendCall}
    (hc : (c.letter w).Mailable) (hstore : s'.store = (postSend w s₁ c).1.store)
    (hlog : s'.log = (postSend w s₁ c).1.log) (hnext : s'.next = s.next)
    (hstack : s'.stack = above' ++ base) (haside : ∀ f ∈ above', f.Above held m.phase) :
    ∃ m' queued', Mailing w n buffer s' m' above' base held queued' := by
  obtain ⟨hmessages₁, hheap₁⟩ := Scheduler.of_store hstore₁
  rcases h.posts hn hstore₁ hc with hposted |
      ⟨heap, messages, o, hposted, hrep, hletter, hkept, hbuffer⟩
  · rw [hposted] at hstore hlog
    obtain ⟨hmessages, hheap⟩ := Scheduler.of_store hstore
    have hheap' : s'.heap = s.heap := hheap.trans hheap₁
    have hmessages' : s'.messages = s.messages := hmessages.trans hmessages₁
    have hlog' : s'.log = s.log ++ [.send (c.letter w) processErrNoMemory] := by
      rw [← hlog₁]
      exact hlog
    refine ⟨m, queued,
      { runs := hlog' ▸ h.runs.trans (.single .refused)
        procs := by rw [hlog', members_event (by rfl)]; exact h.procs
        buffer := hheap' ▸ h.buffer
        stack := hstack
        aside := haside
        stands := h.stands.congr hnext fun o _ => by rw [hheap']
        rep := by rw [hheap', hmessages']; exact h.rep
        waiting := by rw [hheap']; exact h.waiting }⟩
  · rw [hposted] at hstore hlog
    obtain ⟨hmessages, hheap⟩ := Scheduler.of_store hstore
    have hheap' : s'.heap = heap := hheap
    have hmessages' : s'.messages = messages := hmessages
    have hlog' : s'.log = s.log ++ [.send (c.letter w) processSuccess] := by
      rw [← hlog₁]
      exact hlog
    refine ⟨{ m with waiting := m.waiting ++ [c.letter w] }, queued ++ [o],
      { runs := hlog' ▸ h.runs.trans (.single .sent)
        procs := by rw [hlog', members_event (by rfl)]; exact h.procs
        buffer := by rw [hheap']; exact hbuffer.trans h.buffer
        stack := hstack
        aside := haside
        stands := h.stands.congr hnext fun o ho => ?_
        rep := by rw [hheap', hmessages']; exact hrep
        waiting := ?_ }⟩
    · rw [hheap']
      exact hkept o (List.mem_append_left _ ho)
    · have hold : letters heap.mem queued = letters s.heap.mem queued :=
        List.map_congr_left fun o ho => hkept o (List.mem_append_right _ ho)
      have hnew : letters heap.mem [o] = [c.letter w] := by
        unfold letters
        rw [List.map_singleton, hletter]
      rw [hheap', letters_append, hold, hnew, h.waiting]

/-! ## The steps of `scheduler_run` -/

/-- `scheduler_utilize_message` -/
theorem step_take (h : Mailing w n buffer s m [] [.utilizeMessage, .runEnd] [] queued)
    (hphase : m.phase = .running) (hproc : ProcInv s)
    (heff : Effect w fw s (.frame .utilizeMessage) [.runEnd] s')
    (hstore : s'.store = ((msgListPop s.messages s.heap.mem).1, s.heap)) :
    ∃ m' above' base' held' queued', Mailing w n buffer s' m' above' base' held' queued' := by
  obtain ⟨hmessages, hheap⟩ := Scheduler.of_store hstore
  obtain ⟨hnext, hcases⟩ := heff.utilizeMessage
  have hwaiting := h.waiting
  cases queued with
  | nil =>
      -- the list is empty
      have hpop := h.rep.pop_nil
      have hnone : s.popped = 0 := by
        show (msgListPop s.messages s.heap.mem).2 = 0
        rw [hpop]
      rw [hpop] at hmessages
      have hruns : MailRuns m [.idle] { m with phase := .missed } :=
        .single (.nothing hphase hwaiting.symm)
      rcases hcases with ⟨-, hstack, hlog⟩ | ⟨ptr, x, hptr, hne, -⟩
      · refine ⟨{ m with phase := .missed }, [], [.runEnd], [], [],
          { runs := by
              rw [hlog]
              exact h.runs.trans hruns
            procs := by rw [hlog, members_event (by rfl)]; exact h.procs
            buffer := hheap ▸ h.buffer
            stack := hstack
            aside := nofun
            stands := .missed
            rep := by rw [hheap, hmessages]; exact h.rep
            waiting := by rw [hheap]; exact hwaiting }⟩
      · exact absurd (hptr.symm.trans hnone) hne
  | cons o rest =>
      obtain ⟨hpopped, hne, hrep⟩ := h.rep.pop_cons
      have hrep' : MailRep w n s'.heap s'.messages [o] rest := by
        rw [hheap, hmessages]
        exact hrep
      have hrest : letters s'.heap.mem rest = letters s.heap.mem rest := by rw [hheap]
      have htake : ∀ {x}, letterAt s.heap.mem o.ptr = x → MailStep m (.take x)
          { m with waiting := letters s.heap.mem rest,
                   phase := .handling x none (some (m.addressees x)) } := by
        rintro x rfl
        exact .take hphase hwaiting.symm
      rcases hcases with ⟨hnone, -⟩ | ⟨ptr, x, hptr, -, hx, hcases⟩
      · exact absurd (hpopped.symm.trans hnone) hne
      · obtain rfl : o.ptr = ptr := hpopped.symm.trans hptr
        have hx' : letterAt s'.heap.mem o.ptr = x := by rw [hheap, hx]
        rcases hcases with ⟨hall, hstack, hlog⟩ | ⟨hone, new, evs, hstack, hlog, hnew, hevs⟩
        · -- the loop begins at the head of the process list
          have haddressees : m.addressees x = members s.log := by
            unfold Mailbox.addressees
            rw [if_pos hall]
            exact h.procs
          refine ⟨_, [], _, [o], rest,
            { runs := by
                rw [hlog]
                exact h.runs.trans (.single (htake hx))
              procs := by rw [hlog, members_event (by rfl)]; exact h.procs
              buffer := hheap ▸ h.buffer
              stack := hstack
              aside := nofun
              stands := .loop hx' hall fun xs hxs => ?_
              rep := hrep'
              waiting := hrest }⟩
          injection hxs with hxs
          rw [← hxs, haddressees, hnext]
          exact ⟨hproc.path, hproc.zero⟩
        · -- the receiver has been called
          have haddressees : m.addressees x = [x.receiver] := by
            unfold Mailbox.addressees
            rw [if_neg hone]
          have hruns : MailRuns m ([.take x, .deliver x.receiver x.bytes] ++ evs)
              { m with waiting := letters s.heap.mem rest,
                       phase := .handling x (some x.receiver) (some []) } := by
            refine MailRuns.trans ?_ (.same fun ev hev => ?_)
            · have htaken := htake hx
              rw [haddressees] at htaken
              exact (MailRuns.single htaken).trans (.single (.deliver rfl))
            · rcases hevs with rfl | ⟨type, rfl⟩
              · cases hev
              · obtain rfl := List.mem_singleton.mp hev
                exact .enter fun _ _ => ⟨x, _, rfl⟩
          refine ⟨_, new, _, [o], rest,
            { runs := by
                rw [hlog]
                exact h.runs.trans hruns
              procs := ?_
              buffer := hheap ▸ h.buffer
              stack := hstack
              aside := fun g hg => ⟨(hnew g hg).1, fun q p hreads => ?_⟩
              stands := .free hx' rfl
              rep := hrep'
              waiting := hrest }⟩
          · have hquiet : ∀ ev ∈ [.take x, .deliver x.receiver x.bytes] ++ evs,
                ev.listing = false := by
              rcases hevs with rfl | ⟨type, rfl⟩ <;> simp [SchedEvent.listing]
            rw [hlog, members_quiet hquiet]
            exact h.procs
          · rcases (hnew g hg).2 with hnone | hsome
            · rw [hnone] at hreads
              cases hreads
            · rw [hsome] at hreads
              injection hreads with hreads
              injection hreads with hq hp
              subst hq hp
              exact ⟨rfl, x, _, rfl⟩

variable {o : Msg} {x : Letter} {current : Option Nat} {todo : Option (List Nat)} {tmp : Nat}

/-- A step of `scheduler_run` that nobody sees and that leaves the messages alone. -/
theorem silent {above' base' : List (Frame σ)}
    (h : Mailing w n buffer s m above base held queued) (hstore : s'.store = s.store)
    (hlog : s'.log = s.log) (hstack : s'.stack = above' ++ base')
    (haside : ∀ f ∈ above', f.Above held m.phase) (hstands : s'.Stands base' held m.phase) :
    Mailing w n buffer s' m above' base' held queued := by
  obtain ⟨hmessages, hheap⟩ := Scheduler.of_store hstore
  exact
    { runs := by rw [hlog]; exact h.runs
      procs := by rw [hlog]; exact h.procs
      buffer := by rw [hheap]; exact h.buffer
      stack := hstack
      aside := haside
      stands := hstands
      rep := by rw [hheap, hmessages]; exact h.rep
      waiting := by rw [hheap]; exact h.waiting }

/-- The broadcast loop looks at `tmp`. -/
theorem step_loop (h : Mailing w n buffer s m [] [.loop (.broadcast o.ptr) tmp, .runEnd] [o] queued)
    (hphase : m.phase = .handling x current todo) (hx : letterAt s.heap.mem o.ptr = x)
    (hall : x.receiver = processBroadcast)
    (htodo : ∀ xs, todo = some xs → LinkPath s.next tmp xs 0 ∧ 0 ∉ xs)
    (heff : Effect w fw s (.frame (.loop (.broadcast o.ptr) tmp)) [.runEnd] s')
    (hstore : s'.store = s.store) :
    ∃ m' above' base' held' queued', Mailing w n buffer s' m' above' base' held' queued' := by
  obtain ⟨hmessages, hheap⟩ := Scheduler.of_store hstore
  obtain ⟨hnext, hlog, hcases⟩ := heff.broadcastLoop
  rw [← hheap] at hx
  rcases hcases with ⟨rfl, hstack⟩ | ⟨htmp, new, hstack, hnew⟩
  · -- nobody is left
    have hdone : todo.getD [] = [] := by
      cases todo with
      | none => rfl
      | some xs =>
          obtain ⟨hlink, hzero⟩ := htodo xs rfl
          cases xs with
          | nil => rfl
          | cons y ys => exact absurd (hlink.1 ▸ List.mem_cons_self) hzero
    refine ⟨m, [], _, [o], queued, h.silent hstore hlog hstack nofun ?_⟩
    rw [hphase]
    exact .free hx hdone
  · refine ⟨m, new, _, [o], queued,
        h.silent hstore hlog hstack (fun g hg => .of_plain (hnew g hg)) ?_⟩
    rw [hphase]
    refine .call hx hall fun xs hxs => ?_
    obtain ⟨hlink, hzero⟩ := htodo xs hxs
    cases xs with
    | nil => exact absurd hlink htmp
    | cons y ys =>
        obtain rfl : tmp = y := hlink.1
        refine ⟨ys, rfl, ?_, hzero⟩
        rw [hnext]
        exact hlink

/-- The process `tmp` is given the message. -/
theorem step_call
    (h : Mailing w n buffer s m []
      [.broadcastCall o.ptr tmp, .loopNext (.broadcast o.ptr) tmp, .runEnd] [o] queued)
    (hphase : m.phase = .handling x current todo) (hx : letterAt s.heap.mem o.ptr = x)
    (hall : x.receiver = processBroadcast)
    (htodo : ∀ xs, todo = some xs → ∃ ys, xs = tmp :: ys ∧ s.Ahead tmp ys)
    (heff : Effect w fw s (.frame (.broadcastCall o.ptr tmp))
      [.loopNext (.broadcast o.ptr) tmp, .runEnd] s')
    (hstore : s'.store = s.store) :
    ∃ m' above' base' held' queued', Mailing w n buffer s' m' above' base' held' queued' := by
  obtain ⟨hmessages, hheap⟩ := Scheduler.of_store hstore
  obtain ⟨hnext, new, evs, hstack, hlog, hnew, hevs⟩ := heff.broadcastCall
  rw [hx] at hlog
  rw [← hheap] at hx
  -- who is left after this process
  have hdeliver : ∃ todo', MailStep m (.deliver tmp x.bytes)
      { m with phase := .handling x (some tmp) todo' } ∧ ∀ ys, todo' = some ys →
      s'.Ahead tmp ys := by
    cases todo with
    | none => exact ⟨none, .deliverAgain hphase, nofun⟩
    | some xs =>
        obtain ⟨ys, rfl, hahead⟩ := htodo xs rfl
        refine ⟨some ys, .deliver hphase, fun zs hzs => ?_⟩
        injection hzs with hzs
        rw [← hzs, Scheduler.Ahead, hnext]
        exact hahead
  obtain ⟨todo', hstep, hahead⟩ := hdeliver
  have hruns : MailRuns m (.deliver tmp x.bytes :: evs)
      { m with phase := .handling x (some tmp) todo' } := by
    refine (MailRuns.single hstep).trans (.same fun ev hev => ?_)
    rcases hevs with rfl | ⟨type, rfl⟩
    · cases hev
    · obtain rfl := List.mem_singleton.mp hev
      exact .enter fun _ _ => ⟨x, _, rfl⟩
  have hquiet : ∀ ev ∈ .deliver tmp x.bytes :: evs, ev.listing = false := by
    rcases hevs with rfl | ⟨type, rfl⟩ <;> simp [SchedEvent.listing]
  refine ⟨_, new, _, [o], queued,
    { runs := by
        rw [hlog]
        exact h.runs.trans hruns
      procs := by
        rw [hlog, members_quiet hquiet]
        exact h.procs
      buffer := by rw [hheap]; exact h.buffer
      stack := hstack
      aside := fun g hg => ⟨(hnew g hg).1, fun q p hreads => ?_⟩
      stands := .next hx hall fun ys hys => ⟨rfl, hahead ys hys⟩
      rep := by rw [hheap, hmessages]; exact h.rep
      waiting := by rw [hheap]; exact h.waiting }⟩
  rcases (hnew g hg).2 with hnone | hsome
  · rw [hnone] at hreads
    cases hreads
  · rw [hsome] at hreads
    injection hreads with hreads
    injection hreads with hq hp
    subst hq hp
    exact ⟨rfl, x, _, rfl⟩

/-- The broadcast loop goes on. -/
theorem step_next
    (h : Mailing w n buffer s m [] [.loopNext (.broadcast o.ptr) tmp, .runEnd] [o] queued)
    (hphase : m.phase = .handling x current todo) (hx : letterAt s.heap.mem o.ptr = x)
    (hall : x.receiver = processBroadcast)
    (htodo : ∀ xs, todo = some xs → current = some tmp ∧ s.Ahead tmp xs)
    (heff : Effect w fw s (.frame (.loopNext (.broadcast o.ptr) tmp)) [.runEnd] s')
    (hstore : s'.store = s.store) :
    ∃ m' above' base' held' queued', Mailing w n buffer s' m' above' base' held' queued' := by
  obtain ⟨hmessages, hheap⟩ := Scheduler.of_store hstore
  obtain ⟨hnext, hstack, hlog⟩ := heff.loopNext
  rw [← hheap] at hx
  refine ⟨m, [], _, [o], queued, h.silent hstore hlog hstack nofun ?_⟩
  rw [hphase]
  refine .loop hx hall fun xs hxs => ?_
  obtain ⟨-, hlink, hzero⟩ := htodo xs hxs
  rw [hnext]
  exact ⟨hlink.2, fun hmem => hzero (List.mem_cons_of_mem _ hmem)⟩

/-- The message is freed. -/
theorem step_free (h : Mailing w n buffer s m [] [.msgFree o.ptr, .runEnd] [o] queued)
    (hphase : m.phase = .handling x current todo) (htodo : todo.getD [] = []) :
    Mailing w n buffer { s with stack := [.runEnd], heap := msgPtrFree s.heap o.ptr } m []
      [.runEnd] [] queued := by
  obtain ⟨hrep, hletters⟩ := h.rep.free
  exact
    { runs := h.runs
      procs := h.procs
      buffer := (msgPtrFree_buffer s.heap o.ptr).trans h.buffer
      stack := rfl
      aside := nofun
      stands := by
        rw [hphase]
        exact .freed htodo
      rep := hrep
      waiting := hletters.trans h.waiting }

/-- `scheduler_run` returns. -/
theorem step_end (h : Mailing w n buffer s m [] [.runEnd] [] queued)
    (hdone : ∀ k, MailStep m (.done k) { m with phase := .idle }) :
    Mailing w n buffer ({ s with stack := [] }.emit (.done (schedulerEvents s)))
      { m with phase := .idle } [] [] [] queued :=
  { runs := h.runs.trans (.single (hdone _))
    procs := h.procs.trans (members_event (by rfl)).symm
    buffer := h.buffer
    stack := rfl
    aside := nofun
    stands := .idle
    rep := h.rep
    waiting := h.waiting }

/-- The main program makes a call that posts nothing. -/
theorem step_outside {c : ProcCall} (h : Mailing w n buffer s m [] [] [] queued)
    (hphase : m.phase = .idle) (heff : Effect w fw s (.outside (.proc c)) [] s')
    (hstore : s'.store = s.store) :
    ∃ m' above' base' held' queued', Mailing w n buffer s' m' above' base' held' queued' := by
  obtain ⟨hmessages, hheap⟩ := Scheduler.of_store hstore
  obtain ⟨hnext, ⟨hlog, new, hstack, hnew⟩ | ⟨evs, hlog, hnew, hevs⟩⟩ := heff.outside
  · refine ⟨{ m with phase := .running }, new, _, [], queued,
      { runs := by
          rw [hlog]
          exact h.runs.trans (.single (.run hphase))
        procs := by
          rw [hlog, members_event (by rfl)]
          exact h.procs
        buffer := by rw [hheap]; exact h.buffer
        stack := hstack
        aside := fun g hg => .of_plain (hnew g hg)
        stands := .running
        rep := by rw [hheap, hmessages]; exact h.rep
        waiting := by rw [hheap]; exact h.waiting }⟩
  · have hruns : MailRuns m evs m := by
      refine .same fun ev hev => ?_
      obtain ⟨q, type, bytes, rfl⟩ := hevs ev hev
      refine .enter fun ptr hmsg => ?_
      cases hmsg
    have hquiet : ∀ ev ∈ evs, ev.listing = false := by
      intro ev hev
      obtain ⟨q, type, bytes, rfl⟩ := hevs ev hev
      rfl
    refine ⟨m, s'.stack, [], [], queued,
      { runs := by
          rw [hlog]
          exact h.runs.trans hruns
        procs := by
          rw [hlog, members_quiet hquiet]
          exact h.procs
        buffer := by rw [hheap]; exact h.buffer
        stack := (List.append_nil _).symm
        aside := fun g hg => .of_plain (hnew g hg)
        stands := by
          rw [hphase]
          exact .idle
        rep := by rw [hheap, hmessages]; exact h.rep
        waiting := by rw [hheap]; exact h.waiting }⟩

/-! ## Every step -/

/-- A thread sends, and goes on with the status. -/
theorem step_thread_send {self : Nat} {msg : MsgArg} {c : SendCall} {user : σ}
    {k : σ → Int → ThreadProg σ}
    (h : Mailing w n buffer s m (.thread self msg (.send c user k) :: above) base held queued)
    (hn : n ≤ 4099) (hc : (c.letter w).Mailable) :
    ∃ m' above' queued', Mailing w n buffer
      (execFrame w fw { s with stack := above ++ base } (.thread self msg (.send c user k)))
      m' above' base held queued' := by
  obtain ⟨s₁, hs₁⟩ : ∃ s₁ : Scheduler σ, s₁ = { s with stack := above ++ base, user := user } :=
    ⟨_, rfl⟩
  have hexec : execFrame w fw { s with stack := above ++ base }
      (.thread self msg (.send c user k)) =
      (postSend w s₁ c).1.push
      (.thread self msg (k (postSend w s₁ c).1.user (postSend w s₁ c).2)) := by
    rw [hs₁]
    rfl
  have hstore₁ : s₁.store = s.store := by rw [hs₁]; rfl
  have hlog₁ : s₁.log = s.log := by rw [hs₁]
  obtain ⟨heap, messages, status, hframe⟩ := postSend_frame w s₁ c
  have hnext : (postSend w s₁ c).1.next = s.next := by
    rw [hframe, hs₁]
    rfl
  have hbelow : (postSend w s₁ c).1.stack = above ++ base := by rw [hframe, hs₁]; rfl
  obtain ⟨hself, habove⟩ := List.forall_mem_cons.mp h.aside
  rw [hexec]
  generalize hprog : k (postSend w s₁ c).1.user (postSend w s₁ c).2 = prog
  obtain ⟨s', hs'⟩ : ∃ s', s' = (postSend w s₁ c).1.push (.thread self msg prog) := ⟨_, rfl⟩
  rw [← hs']
  have hstack : s'.stack = (.thread self msg prog :: above) ++ base := by
    rw [hs', Scheduler.push, hbelow]
    rfl
  have haside : ∀ g ∈ .thread self msg prog :: above, g.Above held m.phase :=
    List.forall_mem_cons.mpr ⟨⟨rfl, hself.2⟩, habove⟩
  obtain ⟨m', queued', hm'⟩ := h.step_send hn hstore₁ hlog₁ hc (by rw [hs']; rfl) (by rw [hs']; rfl)
    (by rw [hs']; exact hnext) hstack haside
  exact ⟨m', _, queued', hm'⟩

/-- The main program sends. -/
theorem step_outside_send {c : SendCall} {user : σ} (h : Mailing w n buffer s m [] [] [] queued)
    (hn : n ≤ 4099) (hc : (c.letter w).Mailable) :
    ∃ m' queued', Mailing w n buffer (apiCall w fw { s with user := user } (.send c)) m' [] [] []
      queued' := by
  obtain ⟨s₁, hs₁⟩ : ∃ s₁ : Scheduler σ, s₁ = { s with user := user } := ⟨_, rfl⟩
  have hstore₁ : s₁.store = s.store := by rw [hs₁]; rfl
  have hlog₁ : s₁.log = s.log := by rw [hs₁]
  obtain ⟨heap, messages, status, hframe⟩ := postSend_frame w s₁ c
  have hnext : (postSend w s₁ c).1.next = s.next := by
    rw [hframe, hs₁]
    rfl
  have hbelow : (postSend w s₁ c).1.stack = [] ++ [] := by
    rw [hframe, hs₁]
    exact h.stack
  show ∃ m' queued', Mailing w n buffer (postSend w { s with user := user } c).1 m' [] [] [] queued'
  rw [← hs₁]
  exact h.step_send hn hstore₁ hlog₁ hc rfl rfl hnext hbelow nofun

/-- The machine executes a frame. -/
theorem step_exec (h : Mailing w n buffer s m above base held queued) (hn : n ≤ 4099)
    (hproc : ProcInv s) {fs : List (Frame σ)} (hstack : s.stack = f :: fs)
    (hrun : f.issues ≠ some (.proc .run))
    (hsend : ∀ c, f.issues = some (.send c) → (c.letter w).Mailable) :
    ∃ m' above' base' held' queued',
      Mailing w n buffer (execFrame w fw { s with stack := fs } f) m' above' base' held' queued' := by
  have heff : Effect w fw s (.frame f) fs (execFrame w fw { s with stack := fs } f) :=
    execFrame_effect w fw s fs f
  have hstack' := hstack
  rw [h.stack] at hstack'
  cases above with
  | cons g above =>
      injection hstack' with hg hfs
      subst hg hfs
      by_cases hpost : ∃ c, g.issues = some (.send c)
      · obtain ⟨c, hc⟩ := hpost
        have hmailable := hsend c hc
        cases g with
        | thread self msg prog =>
            cases prog with
            | send c' user k =>
                injection hc with hc
                injection hc with hc
                subst hc
                obtain ⟨m', above', queued', hm'⟩ := h.step_thread_send hn hmailable
                exact ⟨m', above', base, held, queued', hm'⟩
            | _ => cases hc
        | _ => cases hc
      · have hnosend : ∀ c, g.issues ≠ some (.send c) := fun c hc => hpost ⟨c, hc⟩
        have hbase := (h.aside g List.mem_cons_self).1
        have hstores : g.stores = false := by
          cases g with
          | thread self msg prog =>
              cases prog with
              | send c user k => exact absurd rfl (hnosend c)
              | _ => rfl
          | utilizeMessage => cases hbase
          | msgFree ptr => cases hbase
          | _ => rfl
        obtain ⟨m', above', hm'⟩ := h.step_aside hproc heff
          (execFrame_store w fw { s with stack := above ++ base } hstores) hrun hnosend
        exact ⟨m', above', base, held, queued, hm'⟩
  | nil =>
      have hstands := h.stands
      have hbase : base = f :: fs := hstack'
      generalize hphase : m.phase = phase at hstands
      cases hstands with
      | idle => cases hbase
      | running =>
          injection hbase with hf hfs
          subst hf hfs
          exact h.step_take hphase hproc heff (utilizeMessage_store w fw _)
      | loop hx hall htodo =>
          injection hbase with hf hfs
          subst hf hfs
          exact h.step_loop hphase hx hall htodo heff (execFrame_store w fw _ rfl)
      | call hx hall htodo =>
          injection hbase with hf hfs
          subst hf hfs
          exact h.step_call hphase hx hall htodo heff (execFrame_store w fw _ rfl)
      | next hx hall htodo =>
          injection hbase with hf hfs
          subst hf hfs
          exact h.step_next hphase hx hall htodo heff (execFrame_store w fw _ rfl)
      | free hx htodo =>
          injection hbase with hf hfs
          subst hf hfs
          exact ⟨m, [], _, [], queued, h.step_free hphase htodo⟩
      | freed htodo =>
          injection hbase with hf hfs
          subst hf hfs
          exact ⟨_, [], [], [], queued, h.step_end fun k => .handled hphase htodo⟩
      | missed =>
          injection hbase with hf hfs
          subst hf hfs
          exact ⟨_, [], [], [], queued, h.step_end fun k => .done hphase⟩

/-- The main program makes a call. -/
theorem step_call_outside (h : Mailing w n buffer s m above base held queued) (hn : n ≤ 4099)
    (hstack : s.stack = []) (user : σ) (c : ApiCall)
    (hsend : ∀ c', c = .send c' → (c'.letter w).Mailable) :
    ∃ m' above' base' held' queued',
      Mailing w n buffer (apiCall w fw { s with user := user } c) m' above' base' held' queued' := by
  have heff := apiCall_effect w fw s hstack user c
  obtain ⟨rfl, rfl⟩ := List.append_eq_nil_iff.mp (h.stack.symm.trans hstack)
  have hstands := h.stands
  generalize hphase : m.phase = phase at hstands
  cases hstands with
  | idle =>
      cases c with
      | send c =>
          obtain ⟨m', queued', hm'⟩ := h.step_outside_send hn (hsend c rfl)
          exact ⟨m', [], [], [], queued', hm'⟩
      | proc c => exact h.step_outside hphase heff (execCall_store w fw _ c)

end Mailing

/-- What is asked of a step: threads do not call `scheduler_run`, and what is sent may be
sent. -/
def Scheduler.Mails (w : Width) (s : Scheduler σ) (i : Option (σ × ApiCall)) : Prop :=
  (i = none → s.issues none ≠ some (.proc .run)) ∧
    ∀ c, s.issues i = some (.send c) → (c.letter w).Mailable

/-- The runs of a scheduler that is used as a mailbox. -/
def mailSystem (w : Width) (fw : Firmware σ) (n : Nat) :
    TSys (Scheduler σ) (Option (σ × ApiCall)) :=
  (schedSystem w fw n).restrict (Scheduler.Mails w)

/-- The scheduler stands for a mailbox in every run. -/
theorem mail_invariant (w : Width) (fw : Firmware σ) {n : Nat} (hn : n ≤ 4099) {s₀ : Scheduler σ}
    (hs₀ : (mailSystem w fw n).init s₀) :
    ((mailSystem w fw n).starting s₀).Invariant fun s => ProcInv s ∧
      ∃ m above base held queued,
        Mailing w n s₀.heap.cba.buffer s m above base held queued := by
  apply TSys.Inductive.invariant
  constructor
  · rintro s rfl
    obtain ⟨mem, buffer, user, hsize, haddr, rfl⟩ := hs₀
    exact ⟨schedulerInit_procInv mem buffer n user, .empty, [], [], [], [],
      { runs := .refl _
        procs := rfl
        buffer := rfl
        stack := rfl
        aside := nofun
        stands := .idle
        rep := mailRep_init w mem hsize haddr
        waiting := rfl }⟩
  · rintro s i s' ⟨hproc, m, above, base, held, queued, h⟩ ⟨hmails, -, hstep⟩
    obtain ⟨t, fs, hstack, houtside, heff⟩ := hstep.effect
    refine ⟨heff.procInv hproc hstack houtside, ?_⟩
    cases hstep with
    | @exec f fs hstack =>
        have hissues : s.issues none = f.issues := by
          unfold Scheduler.issues
          rw [hstack]
          rfl
        refine h.step_exec hn hproc hstack ?_ fun c hc => hmails.2 c (hissues.trans hc)
        exact fun hrun => hmails.1 rfl (hissues.trans hrun)
    | @call user c hstack =>
        refine h.step_call_outside hn hstack user c fun c' hc => hmails.2 c' ?_
        rw [hc]
        rfl

/-- The message list spells out the letters `xs`. -/
def Scheduler.Queues (s : Scheduler σ) (xs : List Letter) : Prop :=
  ∃ ptrs, MsgListRep s.messages s.heap.mem ptrs ∧ ptrs.map (letterAt s.heap.mem) = xs

theorem MailRep.queues {w : Width} {n : Nat} {s : Scheduler σ} {held queued : List Msg}
    (h : MailRep w n s.heap s.messages held queued) : s.Queues (letters s.heap.mem queued) :=
  ⟨queued.map Msg.ptr, h.store.reps () List.mem_cons_self, List.map_map⟩

/-- **The scheduler refines a mailbox.** In every run over a pool of at most 4099 bytes, the
log is one of a mailbox: letters are taken in the order of their sends, each once, and are
given to their receivers and read as they were sent. Its waiting letters are those in the
message list. At any moment a send is refused and changes nothing, or its letter is put at
the end of the list; and with an empty list between two calls of the scheduler the
allocator is as it was in the beginning. -/
theorem scheduler_refines_mailbox (w : Width) (fw : Firmware σ) {n : Nat} (hn : n ≤ 4099)
    {s₀ s : Scheduler σ} (hs₀ : (mailSystem w fw n).init s₀)
    (hs : ((mailSystem w fw n).starting s₀).Reachable s) :
    ∃ m, MailRuns .empty s.log m ∧ sentLetters s.log = takenLetters s.log ++ m.waiting ∧
      s.Queues m.waiting ∧
      (∀ (s₁ : Scheduler σ) (c : SendCall), s₁.store = s.store → (c.letter w).Mailable →
        postSend w s₁ c = (s₁.emit (.send (c.letter w) processErrNoMemory), processErrNoMemory) ∨
        (postSend w s₁ c).2 = processSuccess ∧
          (postSend w s₁ c).1.Queues (m.waiting ++ [c.letter w])) ∧
      (s.stack = [] → msgListLength s.messages = 0 → s.heap.cba = s₀.heap.cba) := by
  obtain ⟨-, m, above, base, held, queued, h⟩ := mail_invariant w fw hn hs₀ s hs
  refine ⟨m, h.runs, h.runs.fifo, h.waiting ▸ h.rep.queues, ?_, ?_⟩
  · intro s₁ c hstore hc
    rcases h.posts hn hstore hc with hposted | ⟨heap, messages, o, hposted, hrep, hletter, hkept, -⟩
    · exact .inl hposted
    · rw [hposted]
      refine .inr ⟨rfl, ?_⟩
      have hold : letters heap.mem queued = m.waiting := by
        rw [← h.waiting]
        exact List.map_congr_left fun o ho => hkept o (List.mem_append_right _ ho)
      have hnew : letters heap.mem [o] = [c.letter w] := by
        unfold letters
        rw [List.map_singleton, hletter]
      rw [← hold, ← hnew, ← letters_append]
      exact MailRep.queues (s := { s₁ with heap := heap, messages := messages }) hrep
  · intro hstack hlength
    obtain ⟨rfl, rfl⟩ := List.append_eq_nil_iff.mp (h.stack.symm.trans hstack)
    have hqueued : queued = [] := List.length_eq_zero_iff.mp (h.rep.length_eq.symm.trans hlength)
    have hheld : held = [] := by
      have hstands := h.stands
      generalize m.phase = phase at hstands
      cases hstands
      rfl
    have hrep := h.rep
    rw [hqueued, hheld] at hrep
    obtain ⟨mem, buffer, user, -, -, rfl⟩ := hs₀
    rw [hrep.reset, h.buffer]
    rfl

/-- A check that a step posts at most a short message, and that threads make no calls. -/
def Scheduler.plainlyMails (s : Scheduler Unit) : Option (Unit × ApiCall) → Bool
  | none => s.issues none = none
  | some (_, .send c) => (c.letter .one).bytes.length ≤ 4096 ∧
      (c.letter .one).receiver < 256 ^ sizeofPtr
  | some _ => true

/-- The broadcast message has been taken, and the pool is as it was. -/
theorem scheduler_refines_mailbox_broadcast :
    let s := broadcastQueued.steps .one (couple (.ret 0 ())) 14
    ∃ s₀, (mailSystem .one (couple (.ret 0 ())) 64).init s₀ ∧
      sentLetters s.log = takenLetters s.log ∧ s.heap.cba = s₀.heap.cba := by
  intro s
  have hqueued : ((schedSystem .one (couple (.ret 0 ())) 64).restrict
      fun s i => s.plainlyMails i = true).Reachable broadcastQueued :=
    broadcastQueued_reachable (fun s h => decide_eq_true h) (fun _ _ => rfl) (fun _ => rfl)
      fun _ => rfl
  have hreach := (reachable_steps (k := 14) hqueued (by decide +kernel)).mono
    (Q := Scheduler.Mails .one) (by
      intro s i h
      cases i with
      | none =>
          have hnone : s.issues none = none := of_decide_eq_true h
          exact ⟨fun _ => by rw [hnone]; exact nofun, fun c hc => by rw [hnone] at hc; cases hc⟩
      | some call =>
          obtain ⟨user, c⟩ := call
          refine ⟨nofun, fun c' hc => ?_⟩
          injection hc with hc
          subst hc
          have hok : decide ((c'.letter .one).bytes.length ≤ 4096 ∧
              (c'.letter .one).receiver < 256 ^ sizeofPtr) = true := h
          have hok := of_decide_eq_true hok
          exact hok)
  obtain ⟨s₀, hs₀, hs⟩ := hreach.starting
  obtain ⟨m, -, hfifo, hqueues, -, hreset⟩ :=
    scheduler_refines_mailbox .one (couple (.ret 0 ())) (by decide) hs₀ hs
  have hempty : msgListLength s.messages = 0 := by decide +kernel
  refine ⟨s₀, hs₀, ?_, hreset (List.isEmpty_iff.mp (by decide +kernel)) hempty⟩
  obtain ⟨ptrs, hrep, hptrs⟩ := hqueues
  have hnil : ptrs = [] := List.length_eq_zero_iff.mp (hrep.length.symm.trans hempty)
  rw [hfifo, ← hptrs, hnil]
  exact List.append_nil _

end EmbeddedMx
