import EmbeddedMx.Lib.TSys
import EmbeddedMx.Scheduler.Model

/-!
# Runs of the scheduler

The machine executes the top frame of its stack. With an empty stack no thread is
executing and the main program may make a call; it may change the memory of the
application before. Every call comes with what the module relies on: processes are
objects in memory, and only a process that has been started before is used
otherwise.
-/

namespace EmbeddedMx

open EmbeddedMx.Lib

/-- A call of the module, from a thread or from outside. -/
inductive ApiCall
  | send (c : SendCall)
  | proc (c : ProcCall)
deriving DecidableEq, Repr

variable {σ : Type}

/-- The call that is made next by a thread. -/
def Frame.issues : Frame σ → Option ApiCall
  | .thread _ _ (.send c _ _) => some (.send c)
  | .thread _ _ (.call c _ _) => some (.proc c)
  | _ => none

/-- The call of a step: the top frame makes it, or the main program. -/
def Scheduler.issues (s : Scheduler σ) : Option (σ × ApiCall) → Option ApiCall
  | none => s.stack.head?.bind Frame.issues
  | some (_, c) => some c

/-- With frames on the stack, the top one makes the call. -/
theorem Scheduler.issues_of_top {s : Scheduler σ} {f : Frame σ} {fs : List (Frame σ)}
    (hstack : s.stack = f :: fs) : s.issues none = f.issues := by
  unfold Scheduler.issues
  rw [hstack]
  rfl

/-- `proc` is an object of the application that has been started before. -/
def Scheduler.Started (s : Scheduler σ) (proc : Nat) : Prop := (s.procs proc).sched = true

/-- What the module relies on when it is called. -/
def ApiCall.Valid (w : Width) (s : Scheduler σ) : ApiCall → Prop
  | .send c => (c.letter w).receiver = processBroadcast ∨ s.Started (c.letter w).receiver
  | .proc (.poll _) => True
  | .proc (.start self) => self ≠ 0 ∧ self < 256 ^ sizeofPtr
  | .proc (.exit self) => s.Started self
  | .proc (.handleMsg self msg) =>
      (self = processBroadcast ∨ s.Started self) ∧ w.bytes ≤ msg.length
  | .proc .run => True

/-- A call from outside. -/
def apiCall (w : Width) (fw : Firmware σ) (s : Scheduler σ) : ApiCall → Scheduler σ
  | .send c => (postSend w s c).1
  | .proc c => execCall w fw s c

/-- The machine executes its top frame. -/
def Scheduler.exec (w : Width) (fw : Firmware σ) (s : Scheduler σ) : Scheduler σ :=
  match s.stack with
  | [] => s
  | f :: fs => execFrame w fw { s with stack := fs } f

/-- A step: the top frame is executed, or the main program makes a call. -/
inductive SchedStep (w : Width) (fw : Firmware σ) :
    Scheduler σ → Option (σ × ApiCall) → Scheduler σ → Prop
  | exec {s : Scheduler σ} {f : Frame σ} {fs : List (Frame σ)} : s.stack = f :: fs →
      SchedStep w fw s none (execFrame w fw { s with stack := fs } f)
  | call {s : Scheduler σ} {user : σ} {c : ApiCall} : s.stack = [] →
      SchedStep w fw s (some (user, c)) (apiCall w fw { s with user := user } c)

/-- The runs of a scheduler with a pool of `n` bytes. -/
def schedSystem (w : Width) (fw : Firmware σ) (n : Nat) :
    TSys (Scheduler σ) (Option (σ × ApiCall)) where
  init s := ∃ mem buffer user, n < 2 ^ 16 ∧ buffer + n ≤ 256 ^ sizeofPtr ∧
    s = schedulerInit mem buffer n user
  step s i s' := (∀ c, s.issues i = some c → c.Valid w s) ∧ SchedStep w fw s i s'

/-- The runs of a scheduler with a pool of `n` bytes, whatever calls are made. -/
def schedCalls (w : Width) (fw : Firmware σ) (n : Nat) :
    TSys (Scheduler σ) (Option (σ × ApiCall)) where
  init := (schedSystem w fw n).init
  step := SchedStep w fw

instance ApiCall.decidableValid (w : Width) (s : Scheduler σ) (c : ApiCall) :
    Decidable (c.Valid w s) :=
  match c with
  | .send c => inferInstanceAs (Decidable ((c.letter w).receiver = processBroadcast ∨
      (s.procs (c.letter w).receiver).sched = true))
  | .proc (.poll _) => .isTrue trivial
  | .proc (.start self) => inferInstanceAs (Decidable (self ≠ 0 ∧ self < 256 ^ sizeofPtr))
  | .proc (.exit self) => inferInstanceAs (Decidable ((s.procs self).sched = true))
  | .proc (.handleMsg self msg) => inferInstanceAs (Decidable
      ((self = processBroadcast ∨ (s.procs self).sched = true) ∧ w.bytes ≤ msg.length))
  | .proc .run => .isTrue trivial

/-- The machine executes `k` frames. -/
def Scheduler.steps (w : Width) (fw : Firmware σ) : Nat → Scheduler σ → Scheduler σ
  | 0, s => s
  | k + 1, s => Scheduler.steps w fw k (s.exec w fw)

theorem iterate_exec (w : Width) (fw : Firmware σ) (k : Nat) (s : Scheduler σ) :
    (Scheduler.exec w fw)^[k] s = s.steps w fw k := by
  induction k generalizing s with
  | zero => rfl
  | succ k ih => exact ih (s.exec w fw)

theorem steps_add (w : Width) (fw : Firmware σ) (j k : Nat) (s : Scheduler σ) :
    s.steps w fw (j + k) = (s.steps w fw j).steps w fw k := by
  induction j generalizing s with
  | zero => rw [Nat.zero_add]; rfl
  | succ j ih =>
      rw [Nat.succ_add]
      exact ih (s.exec w fw)

/-- Without a frame nothing is executed. -/
theorem steps_of_nil {w : Width} {fw : Firmware σ} {s : Scheduler σ} (h : s.stack = []) (k : Nat) :
    s.steps w fw k = s := by
  induction k with
  | zero => rfl
  | succ k ih =>
      have hexec : s.exec w fw = s := by
        unfold Scheduler.exec
        rw [h]
      show (s.exec w fw).steps w fw k = s
      rw [hexec]
      exact ih

theorem SchedStep.of_nonempty (w : Width) (fw : Firmware σ) {s : Scheduler σ}
    (h : s.stack.isEmpty = false) : SchedStep w fw s none (s.exec w fw) := by
  unfold Scheduler.exec
  cases hfs : s.stack with
  | nil =>
      rw [hfs] at h
      cases h
  | cons f fs => exact .exec hfs

/-- A number of steps of a system whose steps are some of the machine's. -/
theorem reachable_execs {w : Width} {fw : Firmware σ}
    {T : TSys (Scheduler σ) (Option (σ × ApiCall))} {k : Nat} {s : Scheduler σ}
    (hs : T.Reachable s)
    (hsteps : ∀ j < k, T.step (s.steps w fw j) none ((s.steps w fw j).exec w fw)) :
    T.Reachable (s.steps w fw k) := by
  induction k generalizing s with
  | zero => exact hs
  | succ k ih =>
      have hnext := hs.step (hsteps 0 (Nat.succ_pos k))
      exact ih hnext fun j hj => hsteps (j + 1) (Nat.succ_lt_succ hj)

/-- A number of steps, if all of them are valid. -/
theorem reachable_steps {w : Width} {fw : Firmware σ} {n : Nat}
    {P : Scheduler σ → Option (σ × ApiCall) → Prop} {k : Nat} {s : Scheduler σ}
    (hs : ((schedSystem w fw n).restrict P).Reachable s)
    (hsteps : ∀ j < k, (s.steps w fw j).stack.isEmpty = false ∧
      (∀ c ∈ (s.steps w fw j).issues none, c.Valid w (s.steps w fw j)) ∧ P (s.steps w fw j) none) :
    ((schedSystem w fw n).restrict P).Reachable (s.steps w fw k) := by
  apply reachable_execs hs
  intro j hj
  obtain ⟨hstack, hvalid, hP⟩ := hsteps j hj
  exact ⟨hP, hvalid, .of_nonempty w fw hstack⟩

/-- The main program makes a call. -/
theorem reachable_call {w : Width} {fw : Firmware σ} {n : Nat}
    {P : Scheduler σ → Option (σ × ApiCall) → Prop} {s : Scheduler σ} {c : ApiCall}
    (hs : ((schedSystem w fw n).restrict P).Reachable s) (hstack : s.stack = [])
    (hvalid : c.Valid w s) (hP : P s (some (s.user, c))) :
    ((schedSystem w fw n).restrict P).Reachable (apiCall w fw s c) := by
  refine hs.step (i := some (s.user, c)) ⟨hP, ?_, .call hstack⟩
  rintro c' hc
  injection hc with hc
  exact hc ▸ hvalid

/-! ## What the pieces of a step do -/

/-- `call_process` calls the thread of a running process, and does nothing otherwise. -/
theorem callProcess_cases (fw : Firmware σ) (s : Scheduler σ) (p ev : Nat) (msg : MsgArg) :
    (callProcess fw s p ev msg = s ∧ ¬ ((fw.thread p).isSome ∧ (s.procs p).state = .running)) ∨
    ∃ thread, fw.thread p = some thread ∧ (s.procs p).state = .running ∧
      callProcess fw s p ev msg = enterThread
        ({ s.setState p .called with processCurrent := p }.push (.called p ev s.processCurrent))
        p ev msg thread := by
  unfold callProcess
  cases hthread : fw.thread p with
  | none => exact .inl ⟨rfl, by simp⟩
  | some thread =>
      by_cases hrun : (s.procs p).state = .running
      · exact .inr ⟨thread, rfl, hrun, by simp only [if_pos hrun]⟩
      · exact .inl ⟨by simp only [if_neg hrun], by simp [hrun]⟩

/-- What a send changes besides the pool and the message list. -/
theorem sendMessage_frame (w : Width) (s : Scheduler σ) (self size : Nat)
    (fill : Mem → Nat → Mem) : ∃ heap messages,
      (sendMessage w s self size fill).1 = { s with heap := heap, messages := messages } := by
  unfold sendMessage schedulerPostMsg schedulerMalloc
  dsimp only
  generalize msgPtrMalloc w s.heap (size % 2 ^ 32) = r
  generalize (if r.2 = 0 then 0 else r.2 + offsetofMsg) = p
  split
  · exact ⟨r.1, s.messages, rfl⟩
  · generalize msgListPush _ _ _ = pushed
    exact ⟨{ r.1 with mem := pushed.2 }, pushed.1, rfl⟩

/-- Every send allocates the bytes of its message, writes them and posts the message. -/
theorem execSend_eq (w : Width) (s : Scheduler σ) (c : SendCall) :
    execSend w s c = sendMessage w s (c.letter w).receiver (c.letter w).bytes.length
      fun m p => m.write p (c.letter w).bytes := by
  have hwrite : ∀ (m : Mem) (p : Nat) (xs ys : List UInt8) {q : Nat}, q = p + xs.length →
      (m.write p xs).write q ys = m.write p (xs ++ ys) := by
    rintro m p xs ys q rfl
    exact Mem.write_append m p xs ys
  cases c with
  | msg self msg => rfl
  | p0 self type => simp only [execSend, processSendMsgP0, SendCall.letter, length_toLe]; rfl
  | p1 self type param1 =>
      simp only [execSend, processSendMsgP1, SendCall.letter, List.length_append, length_toLe,
        List.length_singleton, sizeofMsg, Mem.store]
      congr
      funext m p
      exact hwrite m p _ _ (by rw [length_toLe])
  | p2 self type param1 param2 =>
      simp only [execSend, processSendMsgP2, SendCall.letter, List.length_append, length_toLe,
        List.length_cons, List.length_nil, sizeofMsg, Mem.store]
      congr
      funext m p
      rw [hwrite m p _ _ (by rw [length_toLe]), hwrite m p _ _ (by simp; omega)]
      simp
  | p3 self type param1 param2 param3 =>
      simp only [execSend, processSendMsgP3, SendCall.letter, List.length_append, length_toLe,
        List.length_cons, List.length_nil, sizeofMsg, Mem.store]
      congr
      funext m p
      rw [hwrite m p _ _ (by rw [length_toLe]), hwrite m p _ _ (by simp; omega),
        hwrite m p _ _ (by simp; omega)]
      simp
  | p4 self type param1 param2 param3 param4 =>
      simp only [execSend, processSendMsgP4, SendCall.letter, List.length_append, length_toLe,
        List.length_cons, List.length_nil, sizeofMsg, Mem.store]
      congr
      funext m p
      rw [hwrite m p _ _ (by rw [length_toLe]), hwrite m p _ _ (by simp; omega),
        hwrite m p _ _ (by simp; omega), hwrite m p _ _ (by simp; omega)]
      simp
  | data self type bytes =>
      simp only [execSend, processSendMsgData, SendCall.letter, List.length_append, length_toLe,
        sizeofMsg, Mem.store]
      congr
      funext m p
      exact hwrite m p _ _ (by rw [length_toLe])

theorem postSend_frame (w : Width) (s : Scheduler σ) (c : SendCall) : ∃ heap messages status,
    postSend w s c =
      ({ s with heap := heap, messages := messages }.emit (.send (c.letter w) status), status) := by
  obtain ⟨heap, messages, heq⟩ := sendMessage_frame w s (c.letter w).receiver
    (c.letter w).bytes.length fun m p => m.write p (c.letter w).bytes
  refine ⟨heap, messages, (execSend w s c).2, ?_⟩
  unfold postSend
  dsimp only
  rw [execSend_eq, heq]

end EmbeddedMx
