import EmbeddedMx.Scheduler.ProcessList

/-!
# Processes on the list are the live ones

`exit_process` sets the state of a process to `NONE` and takes it out of the list.
Three places set a state to `RUNNING` without a look at what it has become
meanwhile: `call_process` when the thread has returned, the loop of
`scheduler_utilize_poll`, and `scheduler_utilize_message` for an INIT event. As long
as none of them meets a process that has been exited, and no process is unlinked
that has been started again, exactly the processes on the list are live.
-/

namespace EmbeddedMx

open EmbeddedMx.Lib

variable {σ : Type}

/-- What the frame sets to `RUNNING` has not been exited, and what it unlinks has. -/
def Frame.Sound (w : Width) (s : Scheduler σ) : Frame σ → Prop
  | .called p ev _ => s.Continues ev → s.st p ≠ .none
  | .loop .poll tmp => tmp ≠ 0 → (s.procs tmp).needspoll = true → s.st tmp ≠ .none
  | .utilizeMessage => s.popped ≠ 0 →
      (letterAt s.heap.mem s.popped).receiver ≠ processBroadcast →
      nodeType w s.heap.mem s.popped = processEvInit →
      s.st (letterAt s.heap.mem s.popped).receiver ≠ .none
  | .exitUnlink p _ => p = s.processHead → s.st p = .none
  | .exitScan p _ tmp => s.next tmp = p → s.st p = .none
  | _ => True

instance (s : Scheduler σ) (ev : Nat) : Decidable (s.Continues ev) :=
  inferInstanceAs (Decidable (¬ (s.ret = ptExited ∨ s.ret = ptEnded ∨ ev = processEvExit)))

instance (w : Width) (s : Scheduler σ) (f : Frame σ) : Decidable (f.Sound w s) :=
  match f with
  | .called p ev _ => inferInstanceAs (Decidable (s.Continues ev → s.st p ≠ .none))
  | .loop .poll tmp => inferInstanceAs (Decidable
      (tmp ≠ 0 → (s.procs tmp).needspoll = true → s.st tmp ≠ .none))
  | .utilizeMessage => inferInstanceAs (Decidable (s.popped ≠ 0 →
      (letterAt s.heap.mem s.popped).receiver ≠ processBroadcast →
      nodeType w s.heap.mem s.popped = processEvInit →
      s.st (letterAt s.heap.mem s.popped).receiver ≠ .none))
  | .exitUnlink p _ => inferInstanceAs (Decidable (p = s.processHead → s.st p = .none))
  | .exitScan p _ tmp => inferInstanceAs (Decidable (s.next tmp = p → s.st p = .none))
  | .thread _ _ _ | .resume _ _ _ | .loop (.notify _ _ _) _ | .loop (.handle _) _
  | .loop (.broadcast _) _ | .loopNext _ _ | .broadcastCall _ _ | .exitFind _ _ _ _
  | .startFind _ _ | .msgFree _ | .runEnd => .isTrue trivial

/-- The runs in which every step is sound. -/
def livingSystem (w : Width) (fw : Firmware σ) (n : Nat) :
    TSys (Scheduler σ) (Option (σ × ApiCall)) :=
  (schedSystem w fw n).restrict fun s _ => ∀ f ∈ s.stack.head?, f.Sound w s

/-- Every live process is on the list. -/
def LiveListed (s : Scheduler σ) : Prop := ∀ p, s.st p ≠ .none → p ∈ members s.log

section Functions

variable {w : Width} {fw : Firmware σ} {s s' : Scheduler σ} {t : Turn σ} {fs : List (Frame σ)}

theorem Called.liveListed {q ev : Nat} {msg : MsgArg} (h : Called fw s q ev msg s')
    (hlive : LiveListed s) : LiveListed s' := by
  rcases h with ⟨rfl, -⟩ | h
  · exact hlive
  · intro p hp
    rw [h.members]
    rw [h.st] at hp
    rcases eq_or_ne p q with rfl | hne
    · refine hlive p ?_
      rw [h.running]
      decide
    · rw [Function.update_of_ne hne] at hp
      exact hlive p hp

/-- A live process stays live, or one process becomes live that was so before. -/
theorem LiveListed.update (hlive : LiveListed s) {s₁ : Scheduler σ} {evs : List SchedEvent}
    {q : Nat} {v : ProcessState} (hlog : s₁.log = s.log ++ evs)
    (hquiet : ∀ ev ∈ evs, ev.listing = false) (hst : s₁.st = Function.update s.st q v)
    (hq : v ≠ .none → s.st q ≠ .none) : LiveListed s₁ := by
  intro p hp
  rw [hlog, members_quiet hquiet]
  rw [hst] at hp
  rcases eq_or_ne p q with rfl | hne
  · rw [Function.update_self] at hp
    exact hlive p (hq hp)
  · rw [Function.update_of_ne hne] at hp
    exact hlive p hp

theorem Local.liveListed {s₁ : Scheduler σ} (h : Local w fw s fs t s₁)
    (hsound : ∀ f, t = .frame f → f.Sound w s) (hlive : LiveListed s) : LiveListed s₁ := by
  have hkeep : ∀ {evs : List SchedEvent}, (∀ ev ∈ evs, ev.listing = false) →
      s₁.log = s.log ++ evs → s₁.st = s.st → LiveListed s₁ := by
    intro evs hquiet hlog hst p hp
    rw [hlog, members_quiet hquiet]
    exact hlive p (hst ▸ hp)
  have hleave : ∀ {q}, s.st q = .none → s₁.log = s.log ++ [.leave q] → s₁.st = s.st →
      LiveListed s₁ := by
    intro q hoff hlog hst p hp
    rw [hst] at hp
    have hne : p ≠ q := fun heq => hp (heq ▸ hoff)
    rw [hlog, members_append]
    exact (List.mem_erase_of_ne hne).mpr (hlive p hp)
  cases h with
  | quiet hpush _ _ hst _ hlog => exact hkeep hpush.quiet hlog hst
  | returned hcontinues _ _ hst _ hlog =>
      exact hlive.update (hlog.trans (List.append_nil _).symm) nofun hst
        fun _ => hsound _ rfl hcontinues
  | polled htmp hpoll _ _ hst _ hlog =>
      exact hlive.update (hlog.trans (List.append_nil _).symm) nofun hst
        fun _ => hsound _ rfl htmp hpoll
  | inited hptr hne hx hone htype _ _ hst _ hlog =>
      refine hlive.update hlog (by simp [SchedEvent.listing]) hst fun _ => ?_
      have hstate := hsound _ rfl
      unfold Frame.Sound at hstate
      rw [hptr, hx] at hstate
      exact hstate hne hone htype
  | off _ hduty _ _ hst _ hlog =>
      exact hlive.update hlog (by simp [SchedEvent.listing]) hst fun _ => hduty
  | farewell _ _ _ _ hst _ hlog => exact hkeep (by simp [SchedEvent.listing]) hlog hst
  | leaveHead _ _ hst _ hlog => exact hleave (hsound _ rfl rfl) hlog hst
  | leave _ _ _ hst _ hlog => exact hleave (hsound _ rfl rfl) hlog hst
  | @join q _ _ _ _ hst _ hlog =>
      intro p hp
      rw [hlog, members_append]
      rw [hst] at hp
      rcases eq_or_ne p q with rfl | hne
      · exact List.mem_cons_self
      · rw [Function.update_of_ne hne] at hp
        exact List.mem_cons_of_mem _ (hlive p hp)

end Functions

theorem living_liveListed (w : Width) (fw : Firmware σ) (n : Nat) :
    (livingSystem w fw n).Invariant LiveListed := by
  have hinv : (livingSystem w fw n).Invariant fun s => ProcInv s ∧ LiveListed s := by
    apply TSys.Inductive.invariant
    constructor
    · rintro s ⟨mem, buffer, user, -, -, rfl⟩
      exact ⟨schedulerInit_procInv mem buffer n user, fun p hp => absurd rfl hp⟩
    · rintro s i s' ⟨hproc, hlive⟩ ⟨hsound, -, hstep⟩
      obtain ⟨t, fs, hstack, houtside, heff⟩ := hstep.effect
      refine ⟨heff.procInv hproc hstack houtside, ?_⟩
      have hsound : ∀ f, t = .frame f → f.Sound w s := by
        rintro f rfl
        exact hsound f (by rw [hstack]; rfl)
      obtain ⟨s₁, hlocal, ⟨-, rfl⟩ | ⟨q, ev, msg, -, hcalled⟩⟩ := heff
      · exact hlocal.liveListed hsound hlive
      · exact hcalled.liveListed (hlocal.liveListed hsound hlive)
  exact fun s hs => (hinv s hs).2

/-- **Exactly the live processes are on the list**, in every run of sound steps: a
process that is not in the middle of its exit is on the list if and only if its state
is not `NONE`. In particular this holds of every process whenever a call from outside
has returned. -/
theorem process_listed_iff_live (w : Width) (fw : Firmware σ) (n : Nat) :
    (livingSystem w fw n).Invariant fun s => ∀ p, (∀ f ∈ s.stack, f.exits ≠ some p) →
      (s.Listed p ↔ (s.procs p).state ≠ .none) := by
  intro s hs p hexit
  have hinv := sched_procInv w fw n s hs.of_restrict
  rw [hinv.listed_iff]
  constructor
  · intro hp hoff
    obtain ⟨f, hf, hexits⟩ := hinv.off p hp hoff
    exact hexit f hf hexits
  · exact living_liveListed w fw n s hs p

/-- One process, started by `process_start`. -/
def startedAlone (fw : Firmware Unit) : Scheduler Unit :=
  execCall .one fw (schedulerInit (fun _ => 0) 16 64 ()) (.start 16)

theorem startedAlone_reachable (fw : Firmware Unit)
    (P : Scheduler Unit → Option (Unit × ApiCall) → Prop)
    (hP : P (schedulerInit (fun _ => 0) 16 64 ()) (some ((), .proc (.start 16)))) :
    ((schedSystem .one fw 64).restrict P).Reachable (startedAlone fw) := by
  have hinit : ((schedSystem .one fw 64).restrict P).Reachable
      (schedulerInit (fun _ => 0) 16 64 ()) :=
    .init ⟨_, _, _, by decide, by decide, rfl⟩
  refine hinit.step (i := some ((), .proc (.start 16))) ⟨hP, ?_, .call rfl⟩
  rintro c hc
  injection hc with hc
  subst hc
  exact ⟨by decide, by decide⟩

/-- The process 16, with a thread that does `prog` on its INIT event and then waits. -/
def lonely (prog : ThreadProg Unit) : Firmware Unit where
  thread p := if p = 16 then some fun ev _ _ => if ev = processEvInit then prog else .ret 0 ()
    else none
  ptInit _ user := user

/-- The processes 16 and 32, which wait for their messages; on its INIT event the latter
does `prog`. -/
def couple (prog : ThreadProg Unit) : Firmware Unit where
  thread p := if p = 16 then some fun _ _ _ => .ret 0 ()
    else if p = 32 then some fun ev _ _ => if ev = processEvInit then prog else .ret 0 ()
    else none
  ptInit _ user := user

/-- Process 16 has been started, and process 32 is being started. -/
def startedBoth (fw : Firmware Unit) : Scheduler Unit :=
  apiCall .one fw ((startedAlone fw).steps .one fw 3) (.proc (.start 32))

/-- The main program starts both processes. -/
theorem startedBoth_reachable (fw : Firmware Unit)
    {P : Scheduler Unit → Option (Unit × ApiCall) → Prop}
    (hP : ∀ s p, s.stack = [] → P s (some ((), .proc (.start p))))
    (hsteps : ∀ j < 3, ((startedAlone fw).steps .one fw j).stack.isEmpty = false ∧
      (∀ c ∈ ((startedAlone fw).steps .one fw j).issues none,
        c.Valid .one ((startedAlone fw).steps .one fw j)) ∧
      P ((startedAlone fw).steps .one fw j) none)
    (hend : ((startedAlone fw).steps .one fw 3).stack.isEmpty = true) :
    ((schedSystem .one fw 64).restrict P).Reachable (startedBoth fw) := by
  have halone := reachable_steps (startedAlone_reachable fw P (hP _ _ rfl)) hsteps
  have hend := List.isEmpty_iff.mp hend
  exact reachable_call halone hend ⟨by decide, by decide⟩ (hP _ _ hend)

/-- Of two processes that have been started one is exited, and the other one waits. -/
theorem process_listed_iff_live_couple :
    let fw := couple (.ret 0 ())
    let s := (apiCall .one fw ((startedBoth fw).steps .one fw 4) (.proc (.exit 16))).steps .one fw 12
    s.stack.isEmpty = true ∧ (s.procs 16).sched = true ∧ ¬ s.Listed 16 ∧ s.Listed 32 := by
  intro fw s
  have hboth : (livingSystem .one fw 64).Reachable (startedBoth fw) :=
    startedBoth_reachable fw (fun s _ hstack f hf => by rw [hstack] at hf; cases hf)
      (by decide +kernel) (by decide +kernel)
  have hs : (livingSystem .one fw 64).Reachable s := by
    refine reachable_steps (reachable_call (reachable_steps hboth ?_) ?_ ?_ ?_) ?_
    · decide +kernel
    · exact List.isEmpty_iff.mp (by decide +kernel)
    · decide +kernel
    · decide +kernel
    · decide +kernel
  have hempty : s.stack.isEmpty = true := by decide +kernel
  have hiff : ∀ p, s.Listed p ↔ (s.procs p).state ≠ .none := by
    intro p
    refine process_listed_iff_live _ _ _ s hs p ?_
    rw [List.isEmpty_iff.mp hempty]
    exact nofun
  exact ⟨hempty, by decide +kernel, mt (hiff 16).mp (by decide +kernel),
    (hiff 32).mpr (by decide +kernel)⟩

/-- A process that exits itself and then waits: it is `RUNNING` again, but not on the
list. -/
theorem process_listed_iff_live_fails :
    let fw := lonely (.call (.exit 16) () fun _ => .ret 0 ())
    let s := (startedAlone fw).steps .one fw 10
    (schedSystem .one fw 64).Reachable s ∧ s.stack.isEmpty = true ∧
      (s.procs 16).state ≠ .none ∧ ¬ s.Listed 16 := by
  intro fw s
  have hs : ((schedSystem .one fw 64).restrict fun _ _ => True).Reachable s := by
    refine reachable_steps (startedAlone_reachable _ _ trivial) ?_
    decide +kernel
  have hhead : s.processHead = 0 := by decide +kernel
  refine ⟨hs.of_restrict, by decide +kernel, by decide +kernel, ?_⟩
  rintro ⟨ps, hpath, hzero, hp⟩
  rw [hhead] at hpath
  cases ps with
  | nil => cases hp
  | cons p ps => exact hzero (hpath.1 ▸ List.mem_cons_self)

end EmbeddedMx
