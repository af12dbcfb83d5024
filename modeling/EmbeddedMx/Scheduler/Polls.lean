import EmbeddedMx.Scheduler.Liveness
import EmbeddedMx.Scheduler.Returns

/-!
# Polls

`process_poll` sets a flag of its process and a flag of the scheduler. A round of polls
clears the latter, goes through the list and calls every process whose flag it finds set.

A poll is not lost: from the call on there is a pending round, or a round under way that
has the process in front of it, until the process is polled or leaves. A poll without a
request is possible in one way only: `scheduler_start_process` leaves the flag of the
process as it is, so a process that was polled, exited and is started again gets a poll
that nobody has asked for since.
-/

namespace EmbeddedMx

open EmbeddedMx.Lib

variable {σ : Type}

/-- `proc->needspoll` -/
def Scheduler.needspoll (s : Scheduler σ) (p : Nat) : Bool := (s.procs p).needspoll

/-! ## The flags in a step -/

/-- What a step, in which the call `c` is made, does to the flags. -/
inductive Polling (fw : Firmware σ) (s : Scheduler σ) (c : Option ApiCall) (s' : Scheduler σ) : Prop
  /-- nothing -/
  | same : s'.needspoll = s.needspoll → s'.pollRequested = s.pollRequested →
      (∀ tmp fs, s.stack = .loop .poll tmp :: fs → tmp = 0 ∨ s.needspoll tmp = false) →
      (∀ p, c = some (.proc (.poll p)) → p = 0 ∨ s.st p = .none) → Polling fw s c s'
  /-- a poll is requested -/
  | asked {p} : c = some (.proc (.poll p)) → s'.needspoll = Function.update s.needspoll p true →
      s'.pollRequested = true → Polling fw s c s'
  /-- a round of polls begins -/
  | opened {rest} : s'.needspoll = s.needspoll → s'.stack = .loop .poll s'.processHead :: rest →
      (∀ tmp fs, s.stack ≠ .loop .poll tmp :: fs) → (∀ p, c ≠ some (.proc (.poll p))) →
      Polling fw s c s'
  /-- a process is polled -/
  | polled {tmp fs} : s.stack = .loop .poll tmp :: fs → tmp ≠ 0 → s.needspoll tmp = true →
      s'.needspoll = Function.update s.needspoll tmp false → s'.pollRequested = s.pollRequested →
      ((fw.thread tmp).isSome → s'.log = s.log ++ [.enter tmp processEvPoll .null]) →
      Polling fw s c s'

section Flags

variable {w : Width} {fw : Firmware σ} {s : Scheduler σ}

/-- A change of a process that keeps its flag. -/
theorem needspoll_update (s : Scheduler σ) {p : Nat} {proc : Process}
    (h : proc.needspoll = s.needspoll p) :
    ({ s with procs := Function.update s.procs p proc } : Scheduler σ).needspoll = s.needspoll := by
  funext q
  rcases eq_or_ne q p with rfl | hne
  · simpa [Scheduler.needspoll] using h
  · simp [Scheduler.needspoll, hne]

theorem callProcess_flags (fw : Firmware σ) (s : Scheduler σ) (p ev : Nat) (msg : MsgArg) :
    (callProcess fw s p ev msg).needspoll = s.needspoll ∧
      (callProcess fw s p ev msg).pollRequested = s.pollRequested := by
  rcases callProcess_cases fw s p ev msg with ⟨heq, -⟩ | ⟨thread, -, -, heq⟩
  · rw [heq]
    exact ⟨rfl, rfl⟩
  · rw [heq]
    exact ⟨needspoll_update s rfl, rfl⟩

/-- A call of `process_poll`. -/
theorem processPoll_polling (s s₀ : Scheduler σ) (hprocs : s₀.procs = s.procs)
    (hrequested : s₀.pollRequested = s.pollRequested)
    (htop : ∀ tmp fs, s.stack ≠ .loop .poll tmp :: fs) (p : Nat) :
    Polling fw s (some (.proc (.poll p))) (processPoll s₀ p) := by
  have hneeds : s₀.needspoll = s.needspoll := by
    unfold Scheduler.needspoll
    rw [hprocs]
  have hsame : (p = 0 ∨ s.st p = .none) → Polling fw s (some (.proc (.poll p))) s₀ := by
    intro hp
    refine .same hneeds hrequested (fun tmp fs h => absurd h (htop tmp fs)) fun q hq => ?_
    injection hq with hq
    injection hq with hq
    injection hq with hq
    exact hq ▸ hp
  unfold processPoll
  split
  · split
    · refine .asked rfl ?_ rfl
      funext q
      rw [← hneeds]
      rcases eq_or_ne q p with rfl | hne
      · simp [Scheduler.needspoll]
      · simp [Scheduler.needspoll, hne]
    · rename_i hlive
      refine hsame (.inr ?_)
      rw [hprocs] at hlive
      unfold Scheduler.st
      cases hst : (s.procs p).state with
      | none => rfl
      | running => exact absurd (.inl hst) hlive
      | called => exact absurd (.inr hst) hlive
  · rename_i hp
    exact hsame (.inl (not_not.mp hp))

/-- A call of the module. -/
theorem execCall_polling (s s₀ : Scheduler σ) (hprocs : s₀.procs = s.procs)
    (hrequested : s₀.pollRequested = s.pollRequested)
    (htop : ∀ tmp fs, s.stack ≠ .loop .poll tmp :: fs) (c : ProcCall) :
    Polling fw s (some (.proc c)) (execCall w fw s₀ c) := by
  have hneeds : s₀.needspoll = s.needspoll := by
    unfold Scheduler.needspoll
    rw [hprocs]
  have hsame : ∀ {s'}, s'.needspoll = s₀.needspoll → s'.pollRequested = s₀.pollRequested →
      (∀ p, c ≠ .poll p) → Polling fw s (some (.proc c)) s' := by
    intro s' hneeds' hrequested' hpoll
    refine .same (hneeds'.trans hneeds) (hrequested'.trans hrequested)
      (fun tmp fs h => absurd h (htop tmp fs)) fun p hc => absurd ?_ (hpoll p)
    injection hc with hc
    injection hc
  cases c with
  | poll p => exact processPoll_polling s s₀ hprocs hrequested htop p
  | start p => exact hsame rfl rfl nofun
  | exit p => exact hsame rfl rfl nofun
  | handleMsg p msg =>
      show Polling fw s _ (schedulerHandleMsg w fw s₀ p msg)
      unfold schedulerHandleMsg
      split
      · exact hsame rfl rfl nofun
      · obtain ⟨hneeds', hrequested'⟩ := callProcess_flags fw s₀ p (bytesType w msg) (.onStack msg)
        exact hsame hneeds' hrequested' nofun
  | run =>
      show Polling fw s _ (schedulerRun s₀)
      unfold schedulerRun
      dsimp only
      split
      · refine .opened hneeds rfl htop nofun
      · exact hsame rfl rfl nofun

/-- The frame on top is not the loop of a round of polls. -/
theorem not_polling_of_top {f : Frame σ} {fs : List (Frame σ)} (hstack : s.stack = f :: fs)
    (hf : ∀ tmp, f ≠ .loop .poll tmp) (tmp : Nat) (fs' : List (Frame σ)) :
    s.stack ≠ .loop .poll tmp :: fs' := by
  intro h
  rw [hstack] at h
  injection h with h
  exact hf tmp h

/-- A frame that is not the loop of a round of polls and makes no call keeps the flags. -/
theorem Polling.quiet {f : Frame σ} {fs : List (Frame σ)} (hstack : s.stack = f :: fs)
    {s' : Scheduler σ} (hneeds : s'.needspoll = s.needspoll)
    (hrequested : s'.pollRequested = s.pollRequested) (hf : ∀ tmp, f ≠ .loop .poll tmp)
    (hissues : ∀ c, f.issues ≠ some (.proc c)) : Polling fw s f.issues s' :=
  .same hneeds hrequested (fun tmp fs' h => absurd h (not_polling_of_top hstack hf tmp fs'))
    fun _ h => absurd h (hissues _)

/-- So does one that calls a process. -/
theorem Polling.calls {f : Frame σ} {fs : List (Frame σ)} (hstack : s.stack = f :: fs)
    {s' : Scheduler σ} (p ev : Nat) (msg : MsgArg) (hneeds : s'.needspoll = s.needspoll)
    (hrequested : s'.pollRequested = s.pollRequested) (hf : ∀ tmp, f ≠ .loop .poll tmp)
    (hissues : ∀ c, f.issues ≠ some (.proc c)) :
    Polling fw s f.issues (callProcess fw s' p ev msg) := by
  obtain ⟨hneeds', hrequested'⟩ := callProcess_flags fw s' p ev msg
  exact .quiet hstack (hneeds'.trans hneeds) (hrequested'.trans hrequested) hf hissues

/-- The loop of a round of polls. -/
theorem pollLoop_polling {tmp : Nat} {fs : List (Frame σ)}
    (hstack : s.stack = .loop .poll tmp :: fs) :
    Polling fw s none (execFrame w fw { s with stack := fs } (.loop .poll tmp)) := by
  have hkept : ∀ {s' : Scheduler σ}, s'.needspoll = s.needspoll →
      s'.pollRequested = s.pollRequested → (tmp = 0 ∨ s.needspoll tmp = false) →
      Polling fw s none s' := by
    intro s' hneeds hrequested htmp
    refine .same hneeds hrequested (fun tmp' fs' h => ?_) nofun
    rw [hstack] at h
    injection h with h
    injection h with _ h
    exact h ▸ htmp
  unfold execFrame
  dsimp only
  split
  · rename_i htmp
    exact hkept rfl rfl (.inl htmp)
  · rename_i htmp
    unfold loopBody
    dsimp only
    split
    · -- the flag is cleared and the process is called
      rename_i hneeds
      obtain ⟨hneeds', hrequested'⟩ := callProcess_flags fw
        { ({ s with stack := fs }.push (.loopNext .poll tmp)) with
          procs := Function.update s.procs tmp
            { s.procs tmp with state := .running, needspoll := false } } tmp processEvPoll .null
      refine .polled hstack htmp hneeds (hneeds'.trans ?_) hrequested' fun hthread => ?_
      · funext q
        rcases eq_or_ne q tmp with rfl | hne
        · simp [Scheduler.needspoll]
        · simp [Scheduler.needspoll, hne]
      · obtain ⟨thread, hthread⟩ := Option.isSome_iff_exists.mp hthread
        unfold callProcess
        rw [hthread]
        dsimp only
        rw [if_pos (by simp)]
        rfl
    · rename_i hneeds
      exact hkept rfl rfl (.inr (Bool.eq_false_iff.mpr hneeds))

/-- The other loops. -/
theorem loop_polling {l : Loop} {tmp : Nat} {fs : List (Frame σ)}
    (hstack : s.stack = .loop l tmp :: fs) (hl : l ≠ .poll) :
    Polling fw s none (execFrame w fw { s with stack := fs } (.loop l tmp)) := by
  have hloop : ∀ tmp', Frame.loop l tmp ≠ (.loop .poll tmp' : Frame σ) := by
    intro tmp' h
    injection h with h
    exact hl h
  unfold execFrame
  dsimp only
  split
  · cases l with
    | notify proc fromprocess oldCurrent =>
        unfold loopEnd
        dsimp only
        split
        · exact .quiet hstack rfl rfl hloop nofun
        · split
          · exact .quiet hstack rfl rfl hloop nofun
          · exact .quiet hstack rfl rfl hloop nofun
    | handle msg => exact .quiet hstack rfl rfl hloop nofun
    | poll => exact absurd rfl hl
    | broadcast msgPtr => exact .quiet hstack rfl rfl hloop nofun
  · cases l with
    | notify proc fromprocess oldCurrent =>
        unfold loopBody
        dsimp only
        split
        · exact .calls hstack _ _ _ rfl rfl hloop nofun
        · exact .quiet hstack rfl rfl hloop nofun
    | handle msg => exact .calls hstack _ _ _ rfl rfl hloop nofun
    | poll => exact absurd rfl hl
    | broadcast msgPtr =>
        unfold loopBody
        dsimp only
        split
        · -- pending polls are served before the next receiver is called
          exact .opened rfl rfl (not_polling_of_top hstack hloop) nofun
        · exact .quiet hstack rfl rfl hloop nofun

/-- The machine executes a frame. -/
theorem execFrame_polling {f : Frame σ} {fs : List (Frame σ)} (hstack : s.stack = f :: fs) :
    Polling fw s f.issues (execFrame w fw { s with stack := fs } f) := by
  cases f with
  | thread self msg prog =>
      cases prog with
      | ret code user => exact .quiet hstack rfl rfl nofun nofun
      | read k => cases msg <;> exact .quiet hstack rfl rfl nofun nofun
      | send c user k =>
          obtain ⟨heap, messages, status, heq⟩ :=
            postSend_frame w { s with stack := fs, user := user } c
          unfold execFrame execThread
          dsimp only
          rw [heq]
          exact .quiet hstack rfl rfl nofun nofun
      | call c user k =>
          exact execCall_polling s ({ s with stack := fs, user := user }.push (.resume self msg k))
            rfl rfl (not_polling_of_top hstack nofun) c
  | resume self msg k => exact .quiet hstack rfl rfl nofun nofun
  | called proc ev caller =>
      show Polling fw s _ (callReturned _ proc ev caller)
      unfold callReturned
      dsimp only
      split
      · exact .quiet hstack rfl rfl nofun nofun
      · exact .quiet hstack (needspoll_update s rfl) rfl nofun nofun
  | loop l tmp =>
      rcases eq_or_ne l .poll with rfl | hl
      · exact pollLoop_polling hstack
      · exact loop_polling hstack hl
  | loopNext l tmp => exact .quiet hstack rfl rfl nofun nofun
  | broadcastCall msgPtr p => exact .calls hstack _ _ _ rfl rfl nofun nofun
  | exitFind proc fromprocess oldCurrent tmp =>
      unfold execFrame
      dsimp only
      split
      · exact .quiet hstack rfl rfl nofun nofun
      · split
        · unfold exitFound
          split
          · exact .quiet hstack rfl rfl nofun nofun
          · exact .quiet hstack (needspoll_update s rfl) rfl nofun nofun
        · exact .quiet hstack rfl rfl nofun nofun
  | exitUnlink proc oldCurrent =>
      unfold execFrame
      dsimp only
      split
      · exact .quiet hstack rfl rfl nofun nofun
      · exact .quiet hstack rfl rfl nofun nofun
  | exitScan proc oldCurrent tmp =>
      unfold execFrame
      dsimp only
      split
      · exact .quiet hstack rfl rfl nofun nofun
      · split
        · exact .quiet hstack (needspoll_update s rfl) rfl nofun nofun
        · exact .quiet hstack rfl rfl nofun nofun
  | startFind proc tmp =>
      unfold execFrame
      dsimp only
      split
      · exact .quiet hstack rfl rfl nofun nofun
      · split
        · unfold schedulerStartProcess
          dsimp only
          refine Polling.calls hstack _ _ _ ?_ rfl nofun nofun
          exact needspoll_update s rfl
        · exact .quiet hstack rfl rfl nofun nofun
  | utilizeMessage =>
      show Polling fw s _ (schedulerUtilizeMessage w fw _)
      unfold schedulerUtilizeMessage
      dsimp only
      generalize msgListPop s.messages s.heap.mem = r
      split
      · exact .quiet hstack rfl rfl nofun nofun
      · generalize letterAt s.heap.mem r.2 = x
        split
        · exact .quiet hstack rfl rfl nofun nofun
        · split
          · exact .calls hstack _ _ _ (needspoll_update s rfl) rfl nofun nofun
          · exact .calls hstack _ _ _ rfl rfl nofun nofun
  | msgFree msgPtr => exact .quiet hstack rfl rfl nofun nofun
  | runEnd => exact .quiet hstack rfl rfl nofun nofun

/-- **What a step does to the flags.** -/
theorem SchedStep.polling {i : Option (σ × ApiCall)} {s' : Scheduler σ}
    (h : SchedStep w fw s i s') : Polling fw s (s.issues i) s' := by
  cases h with
  | @exec f fs hstack =>
      rw [Scheduler.issues_of_top hstack]
      exact execFrame_polling hstack
  | @call user c hstack =>
      have htop : ∀ tmp fs, s.stack ≠ .loop .poll tmp :: fs := by
        rw [hstack]
        exact nofun
      cases c with
      | send c =>
          obtain ⟨heap, messages, status, heq⟩ := postSend_frame w { s with user := user } c
          show Polling fw s _ (postSend w { s with user := user } c).1
          rw [heq]
          exact .same rfl rfl (fun tmp fs h => absurd h (htop tmp fs)) nofun
      | proc c => exact execCall_polling s { s with user := user } rfl rfl htop c

end Flags

/-- The call of `process_poll`. -/
theorem SchedStep.asks {w : Width} {fw : Firmware σ} {s s' : Scheduler σ} {i : Option (σ × ApiCall)}
    {p : Nat} (h : SchedStep w fw s i s') (hcall : s.issues i = some (.proc (.poll p))) :
    ∃ s₀, s₀.procs = s.procs ∧ s₀.log = s.log ∧ s' = processPoll s₀ p := by
  cases h with
  | @exec f fs hstack =>
      rw [Scheduler.issues_of_top hstack] at hcall
      cases f with
      | thread self msg prog =>
          cases prog with
          | call c user k =>
              injection hcall with hcall
              injection hcall with hcall
              subst hcall
              exact ⟨{ s with stack := fs, user := user }.push (.resume self msg k), rfl, rfl, rfl⟩
          | _ => cases hcall
      | _ => cases hcall
  | @call user c hstack =>
      injection hcall with hcall
      subst hcall
      exact ⟨{ s with user := user }, rfl, rfl, rfl⟩

/-- It sets the flags of a live process. -/
theorem processPoll_live {s : Scheduler σ} {p : Nat} (hzero : p ≠ 0) (hlive : s.st p ≠ .none) :
    (processPoll s p).needspoll p = true ∧ (processPoll s p).pollRequested = true := by
  have hstate : (s.procs p).state = .running ∨ (s.procs p).state = .called := by
    unfold Scheduler.st at hlive
    cases hst : (s.procs p).state with
    | none => exact absurd hst hlive
    | running => exact .inl rfl
    | called => exact .inr rfl
  unfold processPoll
  rw [if_pos hzero, if_pos hstate]
  exact ⟨by simp [Scheduler.needspoll], rfl⟩

/-! ## No poll is lost -/

/-- The links lead from `a` to the process `p`. -/
def Scheduler.Coming (s : Scheduler σ) (a p : Nat) : Prop :=
  ∃ xs, LinkPath s.next a xs 0 ∧ 0 ∉ xs ∧ p ∈ xs

/-- The round of polls that stands on the frames `rest` will come to `p`. -/
inductive Scheduler.Awaits (s : Scheduler σ) (p : Nat) (rest : List (Frame σ)) :
    List (Frame σ) → Prop
  | here {tmp} : s.stack = .loop .poll tmp :: rest → s.Coming tmp p → Awaits s p rest []
  | above {above tmp} : s.stack = above ++ .loopNext .poll tmp :: rest → tmp ≠ p →
      s.Coming tmp p → Awaits s p rest above

/-- `p` has been polled, or it has left the list. -/
def Served (p : Nat) (evs : List SchedEvent) : Prop :=
  .enter p processEvPoll .null ∈ evs ∨ .leave p ∈ evs

theorem Served.append {p : Nat} {evs : List SchedEvent} (h : Served p evs)
    (evs' : List SchedEvent) :
    Served p (evs ++ evs') :=
  h.imp (List.mem_append_left _) (List.mem_append_left _)

section Waiting

variable {w : Width} {fw : Firmware σ} {s s' : Scheduler σ} {i : Option (σ × ApiCall)}
  {rest : List (Frame σ)} {p : Nat}

/-- The links keep leading to a process as long as it stays on the list. A process that
is started again, and with it the way, begins with the whole list behind it. -/
theorem Relinks.coming {evs : List SchedEvent} (h : Relinks s s' evs) (hinv : ProcInv s) {a : Nat}
    (hp : p ∈ members s.log) (hstay : .leave p ∉ evs) (hcoming : s.Coming a p) : s'.Coming a p := by
  obtain ⟨xs, hpath, hzero, hmem⟩ := hcoming
  cases h with
  | same hnext _ _ =>
      refine ⟨xs, ?_, hzero, hmem⟩
      rw [hnext]
      exact hpath
  | @join q evs hq hnot hnext _ _ =>
      have hold : LinkPath s'.next s.processHead (members s.log) 0 := by
        rw [hnext]
        exact hinv.path.congr fun x hx =>
            Function.update_of_ne (fun heq : x = q => hnot (heq ▸ hx)) _ _
      by_cases hqx : q ∈ xs
      · obtain ⟨pre, post, rfl⟩ := List.append_of_mem hqx
        have hnodup := List.nodup_append.mp (hpath.nodup hzero)
        have hpre : q ∉ pre := fun hmem => hnodup.2.2 q hmem q List.mem_cons_self rfl
        obtain ⟨b, hpre', rfl, -⟩ := linkPath_append.mp hpath
        refine ⟨pre ++ b :: members s.log, linkPath_append.mpr ⟨b, ?_, rfl, ?_⟩, ?_, ?_⟩
        · rw [hnext]
          exact hpre'.congr fun x hx =>
              Function.update_of_ne (fun heq : x = b => hpre (heq ▸ hx)) _ _
        · rw [hnext, Function.update_self, ← hnext]
          exact hold
        · intro hmem
          rcases List.mem_append.mp hmem with hmem | hmem
          · exact hzero (List.mem_append_left _ hmem)
          · rcases List.mem_cons.mp hmem with heq | hmem
            · exact hq heq.symm
            · exact hinv.zero hmem
        · exact List.mem_append_right _ (List.mem_cons_of_mem _ hp)
      · refine ⟨xs, ?_, hzero, hmem⟩
        rw [hnext]
        exact hpath.congr fun x hx => Function.update_of_ne (fun heq : x = q => hqx (heq ▸ hx)) _ _
  | leaveHead _ hnext _ =>
      refine ⟨xs, ?_, hzero, hmem⟩
      rw [hnext]
      exact hpath
  | @leave t _ hr hnext _ =>
      have hne : s.next t ≠ 0 := fun heq => hinv.zero (heq ▸ hr)
      have hother : p ≠ s.next t := fun heq => hstay (heq ▸ List.mem_cons_self)
      have hbent := hpath.unlink hzero rfl hne
      rw [← hnext] at hbent
      refine ⟨_, hbent, ?_, ?_⟩
      · split
        · exact fun hmem => hzero (List.erase_subset hmem)
        · exact hzero
      · split
        · exact (List.mem_erase_of_ne hother).mpr hmem
        · exact hmem

theorem Scheduler.Coming.ne_zero {a : Nat} (h : s.Coming a p) : a ≠ 0 := by
  obtain ⟨xs, hpath, hzero, hp⟩ := h
  cases xs with
  | nil => cases hp
  | cons x xs =>
      rw [hpath.1]
      exact fun heq => hzero (heq ▸ List.mem_cons_self)

theorem Scheduler.Coming.behind {a : Nat} (h : s.Coming a p) (hne : a ≠ p) :
    s.Coming (s.next a) p := by
  obtain ⟨xs, hpath, hzero, hp⟩ := h
  cases xs with
  | nil => cases hp
  | cons x xs =>
      obtain ⟨rfl, hpath⟩ := hpath
      exact ⟨xs, hpath, fun hmem => hzero (List.mem_cons_of_mem _ hmem),
        (List.mem_cons.mp hp).resolve_left hne.symm⟩

/-- A process of the list with its flag set is served in a step, or stays so. -/
theorem SchedStep.waits (hinv : ProcInv s) (hstep : SchedStep w fw s i s')
    (hthread : (fw.thread p).isSome) (hp : p ∈ members s.log) (hneeds : s.needspoll p = true) :
    ∃ evs, s'.log = s.log ++ evs ∧ Relinks s s' evs ∧ (Served p evs ∨
      .leave p ∉ evs ∧ p ∈ members s'.log ∧ s'.needspoll p = true ∧
        ∀ fs, s.stack ≠ .loop .poll p :: fs) := by
  obtain ⟨t, fs, hstack, -, heff⟩ := hstep.effect
  obtain ⟨evs, hlog, hrelinks⟩ := heff.relinks hinv hstack
  have hzero : p ≠ 0 := fun heq => hinv.zero (heq ▸ hp)
  refine ⟨evs, hlog, hrelinks, ?_⟩
  by_cases hleave : .leave p ∈ evs
  · exact .inl (.inr hleave)
  have hmem : p ∈ members s'.log := by
    rw [hlog]
    exact mem_members_append hp hleave
  cases hstep.polling with
  | same hneeds' _ htop _ =>
      refine .inr ⟨hleave, hmem, by rw [hneeds', hneeds], fun fs hfs => ?_⟩
      rcases htop p fs hfs with h | h
      · exact hzero h
      · rw [hneeds] at h
        cases h
  | @asked q hissues hneeds' _ =>
      refine .inr ⟨hleave, hmem, ?_, fun fs hfs => ?_⟩
      · rw [hneeds']
        rcases eq_or_ne p q with rfl | hne
        · exact Function.update_self ..
        · rw [Function.update_of_ne hne, hneeds]
      · cases hstep with
        | exec _ =>
            rw [Scheduler.issues_of_top hfs] at hissues
            cases hissues
        | call hnil =>
            rw [hfs] at hnil
            cases hnil
  | opened hneeds' _ htop _ => exact .inr ⟨hleave, hmem, by rw [hneeds', hneeds], htop p⟩
  | @polled tmp fs' htop _ _ hneeds' _ henter =>
      rcases eq_or_ne p tmp with rfl | hne
      · have heq : evs = _ := List.append_cancel_left (hlog.symm.trans (henter hthread))
        exact .inl (.inl (heq ▸ List.mem_cons_self))
      · refine .inr ⟨hleave, hmem, ?_, fun fs hfs => ?_⟩
        · rw [hneeds', Function.update_of_ne hne, hneeds]
        · rw [htop] at hfs
          injection hfs with hfs
          injection hfs with _ hfs
          exact hne hfs.symm

theorem Scheduler.Awaits.stack_ne_nil {above : List (Frame σ)} (h : s.Awaits p rest above) :
    s.stack ≠ [] := by
  intro hnil
  cases h with
  | here hstack _ =>
      rw [hnil] at hstack
      cases hstack
  | above hstack _ _ =>
      rw [hnil] at hstack
      cases above <;> cases hstack

/-- A round that will come to `p` goes on, unless `p` is served. -/
theorem Scheduler.Awaits.step {above : List (Frame σ)} (h : s.Awaits p rest above)
    (hinv : ProcInv s)
    (hstep : SchedStep w fw s i s') (hthread : (fw.thread p).isSome) (hp : p ∈ members s.log)
    (hneeds : s.needspoll p = true) : ∃ evs, s'.log = s.log ++ evs ∧ (Served p evs ∨
      p ∈ members s'.log ∧ s'.needspoll p = true ∧ ∃ above', s'.Awaits p rest above') := by
  obtain ⟨evs, hlog, hrelinks, hcase⟩ := hstep.waits hinv hthread hp hneeds
  refine ⟨evs, hlog, hcase.imp_right ?_⟩
  rintro ⟨hleave, hmem, hneeds', htop⟩
  refine ⟨hmem, hneeds', ?_⟩
  cases hstep with
  | call hnil => exact absurd hnil h.stack_ne_nil
  | @exec f fs hf =>
      have heff := execFrame_effect w fw s fs f
      cases h with
      | @here tmp hstack hcoming =>
          have htmp : tmp ≠ p := fun heq => htop rest (heq ▸ hstack)
          obtain ⟨rfl, rfl⟩ := List.cons.inj (hf.symm.trans hstack)
          have hcoming' := hrelinks.coming hinv hp hleave hcoming
          obtain ⟨s₁, hlocal, hcall⟩ := heff
          have hnew := hlocal.loop_stack nofun hcoming.ne_zero
          rcases hcall with ⟨-, heq⟩ | ⟨q, ev, msg, -, ⟨heq, -⟩ | henters⟩
          · exact ⟨[], .above (by rw [heq]; exact hnew) htmp hcoming'⟩
          · exact ⟨[], .above (by rw [heq]; exact hnew) htmp hcoming'⟩
          · obtain ⟨thread, -, hstack'⟩ := henters.stack
            exact ⟨[_, _], .above (by rw [hstack', hnew]; rfl) htmp hcoming'⟩
      | @above _ tmp hstack htmp hcoming =>
          have hcoming' := hrelinks.coming hinv hp hleave hcoming
          cases above with
          | nil =>
              obtain ⟨rfl, rfl⟩ := List.cons.inj (hf.symm.trans hstack)
              obtain ⟨hnext, hnew, -⟩ := heff.loopNext
              refine ⟨[], .here hnew ?_⟩
              have hbehind := hcoming'.behind htmp
              rw [hnext] at hbehind
              exact hbehind
          | cons g above =>
              obtain ⟨rfl, rfl⟩ := List.cons.inj (hf.symm.trans hstack)
              obtain ⟨new, hnew, -⟩ := heff.stack
              exact ⟨new ++ above, .above (by rw [hnew, List.append_assoc]; rfl) htmp hcoming'⟩

/-- A round is pending, or one will come to `p`. -/
def Scheduler.Due (s : Scheduler σ) (p : Nat) : Prop :=
  s.pollRequested = true ∨ ∃ rest above, s.Awaits p rest above

/-- A poll that is due stays so, unless `p` is served. -/
theorem Scheduler.Due.step (h : s.Due p) (hinv : ProcInv s) (hinv' : ProcInv s')
    (hstep : SchedStep w fw s i s') (hthread : (fw.thread p).isSome) (hp : p ∈ members s.log)
    (hneeds : s.needspoll p = true) : ∃ evs, s'.log = s.log ++ evs ∧ (Served p evs ∨
      p ∈ members s'.log ∧ s'.needspoll p = true ∧ s'.Due p) := by
  rcases h with hrequested | ⟨rest, above, hawaits⟩
  · obtain ⟨evs, hlog, -, hcase⟩ := hstep.waits hinv hthread hp hneeds
    refine ⟨evs, hlog, hcase.imp_right ?_⟩
    rintro ⟨-, hmem, hneeds', -⟩
    refine ⟨hmem, hneeds', ?_⟩
    cases hstep.polling with
    | same _ hrequested' _ _ => exact .inl (hrequested'.trans hrequested)
    | asked _ _ hrequested' => exact .inl hrequested'
    | opened _ hstack _ _ => exact .inr ⟨_, [], .here hstack ⟨_, hinv'.path, hinv'.zero, hmem⟩⟩
    | polled _ _ _ _ hrequested' _ => exact .inl (hrequested'.trans hrequested)
  · obtain ⟨evs, hlog, hcase⟩ := hawaits.step hinv hstep hthread hp hneeds
    refine ⟨evs, hlog, hcase.imp_right ?_⟩
    rintro ⟨hmem, hneeds', above', hawaits'⟩
    exact ⟨hmem, hneeds', .inr ⟨rest, above', hawaits'⟩⟩

end Waiting

section Runs

variable {w : Width} {fw : Firmware σ} {n : Nat} {p : Nat}

theorem schedulerRun_requested {s : Scheduler σ} (h : s.pollRequested = true) :
    schedulerRun s = schedulerUtilizePoll (((s.emit .run).push .runEnd).push .utilizeMessage) :=
  if_pos h

/-- The main program runs the scheduler while a poll is requested. -/
theorem SchedStep.run_requested {s s' : Scheduler σ} {user : σ}
    (h : SchedStep w fw s (some (user, .proc .run)) s') (hrequested : s.pollRequested = true) :
    s'.stack = [.loop .poll s.processHead, .utilizeMessage, .runEnd] ∧ s'.next = s.next ∧
      s'.needspoll = s.needspoll ∧ s'.log = s.log ++ [.run] := by
  cases h with
  | call hnil =>
      have heq : apiCall w fw { s with user := user } (.proc .run) = _ :=
        schedulerRun_requested hrequested
      rw [heq]
      refine ⟨?_, rfl, rfl, rfl⟩
      show _ :: _ :: _ :: s.stack = _
      rw [hnil]
      rfl

theorem sched_log_grows {s₁ s : Scheduler σ}
    (hs : ((schedSystem w fw n).starting s₁).Reachable s) : ∃ evs, s.log = s₁.log ++ evs := by
  induction hs with
  | init hinit => exact ⟨[], by rw [hinit, List.append_nil]⟩
  | step _ hstep ih =>
      obtain ⟨evs, hlog⟩ := ih
      obtain ⟨t, fs, -, -, heff⟩ := hstep.2.effect
      obtain ⟨evs', hlog', -⟩ := heff.origin
      exact ⟨evs ++ evs', by rw [hlog', hlog, List.append_assoc]⟩

/-- What a process waits with, from `s₁` on, holds until it is served. -/
theorem waits_until_served {J : Scheduler σ → Prop}
    (hJ : ∀ s i s', ProcInv s → ProcInv s' → SchedStep w fw s i s' → p ∈ members s.log →
      s.needspoll p = true → J s → ∃ evs, s'.log = s.log ++ evs ∧ (Served p evs ∨
        p ∈ members s'.log ∧ s'.needspoll p = true ∧ J s'))
    {s₁ s : Scheduler σ} (hs₁ : (schedSystem w fw n).Reachable s₁) (hp : p ∈ members s₁.log)
    (hneeds : s₁.needspoll p = true) (hfirst : J s₁)
    (hs : ((schedSystem w fw n).starting s₁).Reachable s) :
    ∃ evs, s.log = s₁.log ++ evs ∧ (Served p evs ∨
      p ∈ members s.log ∧ s.needspoll p = true ∧ J s) := by
  induction hs with
  | init hinit =>
      subst hinit
      exact ⟨[], (List.append_nil _).symm, .inr ⟨hp, hneeds, hfirst⟩⟩
  | @step s i s' hreach hstep ih =>
      have hinv := sched_procInv w fw n s (hs₁.trans hreach)
      have hinv' := sched_procInv w fw n s' (hs₁.trans (hreach.step hstep))
      obtain ⟨evs, hlog, hserved | ⟨hmem, hneeds', hwaits⟩⟩ := ih
      · obtain ⟨t, fs, -, -, heff⟩ := hstep.2.effect
        obtain ⟨evs', hlog', -⟩ := heff.origin
        exact ⟨evs ++ evs', by rw [hlog', hlog, List.append_assoc], .inl (hserved.append evs')⟩
      · obtain ⟨evs', hlog', hcase⟩ := hJ s i s' hinv hinv' hstep.2 hmem hneeds' hwaits
        refine ⟨evs ++ evs', by rw [hlog', hlog, List.append_assoc], hcase.imp_left ?_⟩
        exact fun hserved => hserved.imp (List.mem_append_right _) (List.mem_append_right _)

/-- **No poll is lost.** If `process_poll` is called for a live process of the list, which
has a thread, then by the end of a `scheduler_run` that starts afterwards it has been
polled, or it has left the list. -/
theorem poll_served {s s₁ s₂ s₃ s₄ : Scheduler σ} {i : Option (σ × ApiCall)} {user : σ}
    (hs : (schedSystem w fw n).Reachable s) (hcall : s.issues i = some (.proc (.poll p)))
    (hstep : (schedSystem w fw n).step s i s₁) (hlisted : s.Listed p) (hlive : s.st p ≠ .none)
    (hthread : (fw.thread p).isSome) (hmid : ((schedSystem w fw n).starting s₁).Reachable s₂)
    (hrun : (schedSystem w fw n).step s₂ (some (user, .proc .run)) s₃)
    (hover : ((schedSystem w fw n).starting s₃).Reachable s₄) (hdone : s₄.stack = []) :
    ∃ evs, s₄.log = s₁.log ++ evs ∧ Served p evs := by
  have hinv := sched_procInv w fw n s hs
  have hp := (hinv.listed_iff p).mp hlisted
  have hs₁ := hs.step hstep
  have hs₂ := hs₁.trans hmid
  have hs₃ := hs₂.step hrun
  have hzero : p ≠ 0 := fun heq => hinv.zero (heq ▸ hp)
  -- the flags are set
  obtain ⟨s₀, hprocs, hlog₀, heq⟩ := hstep.2.asks hcall
  have hlive₀ : s₀.st p ≠ .none := by
    unfold Scheduler.st at hlive ⊢
    rw [hprocs]
    exact hlive
  obtain ⟨hneeds, hrequested⟩ := processPoll_live hzero hlive₀
  rw [← heq] at hneeds hrequested
  have hp₁ : p ∈ members s₁.log := by
    rw [heq, (processPoll_same s₀ p).2.2.2.2, hlog₀]
    exact hp
  -- a round is due when the run begins
  obtain ⟨evs, hlog, hcase⟩ := waits_until_served (J := (·.Due p))
    (fun s i s' hinv hinv' hstep hp hneeds hdue => hdue.step hinv hinv' hstep hthread hp hneeds)
    hs₁ hp₁ hneeds (.inl hrequested) hmid
  have hinv₂ := sched_procInv w fw n s₂ hs₂
  have hnil : s₂.stack = [] := by
    cases hrun.2 with
    | call hnil => exact hnil
  rcases hcase with hserved | ⟨hp₂, hneeds₂, hdue⟩
  · obtain ⟨evs₃, hlog₃⟩ := sched_log_grows (n := n) (.step (.init rfl) hrun)
    obtain ⟨evs₄, hlog₄⟩ := sched_log_grows hover
    exact ⟨evs ++ evs₃ ++ evs₄, by rw [hlog₄, hlog₃, hlog]; simp, (hserved.append _).append _⟩
  · have hrequested₂ : s₂.pollRequested = true := by
      rcases hdue with h | ⟨rest, above, h⟩
      · exact h
      · exact absurd hnil h.stack_ne_nil
    -- it begins with the run
    obtain ⟨hstack₃, hnext₃, hneeds₃, hlog₃⟩ := hrun.2.run_requested hrequested₂
    have hp₃ : p ∈ members s₃.log := by
      rw [hlog₃]
      exact mem_members_append hp₂ (by simp)
    have hcoming : s₃.Coming s₂.processHead p :=
      ⟨members s₂.log, by rw [hnext₃]; exact hinv₂.path, hinv₂.zero, hp₂⟩
    obtain ⟨evs₄, hlog₄, hserved | ⟨-, -, above, hawaits⟩⟩ := waits_until_served
      (J := fun s => ∃ above, s.Awaits p [.utilizeMessage, .runEnd] above)
      (fun s i s' hinv _ hstep hp hneeds hawaits =>
        hawaits.choose_spec.step hinv hstep hthread hp hneeds)
      hs₃ hp₃ (by rw [hneeds₃]; exact hneeds₂) ⟨[], .here hstack₃ hcoming⟩ hover
    · refine ⟨evs ++ [.run] ++ evs₄, by rw [hlog₄, hlog₃, hlog]; simp, ?_⟩
      exact hserved.imp (List.mem_append_right _) (List.mem_append_right _)
    · -- at the end there is no round any more
      exact absurd hdone hawaits.stack_ne_nil

end Runs

/-! ## Polls and their requests -/

/-- What is remembered of a run: `process_poll` was called for `p`, `p` was started, `p`
was polled. -/
inductive PollEvent
  | poll (p : Nat)
  | start (p : Nat)
  | polled (p : Nat)
deriving DecidableEq, Repr

/-- The event of a poll round comes without a message. -/
def SchedEvent.pollEvent : SchedEvent → Option PollEvent
  | .join p => some (.start p)
  | .enter p ev .null => if ev = processEvPoll then some (.polled p) else none
  | _ => none

def ApiCall.pollEvents : Option ApiCall → List PollEvent
  | some (.proc (.poll p)) => [.poll p]
  | _ => []

/-- The runs of the scheduler with what is remembered of them. -/
def pollHistory (w : Width) (fw : Firmware σ) (n : Nat) :
    TSys (Scheduler σ × List PollEvent) (Option (σ × ApiCall)) where
  init x := (schedSystem w fw n).init x.1 ∧ x.2 = []
  step x i x' := (schedSystem w fw n).step x.1 i x'.1 ∧
    x'.2 = x.2 ++ ApiCall.pollEvents (x.1.issues i) ++
      (x'.1.log.drop x.1.log.length).filterMap SchedEvent.pollEvent

/-- Behind a call of `process_poll` for `p` it was neither started nor polled. -/
def Asked (p : Nat) (h : List PollEvent) : Prop :=
  ∃ pre post, h = pre ++ .poll p :: post ∧ .start p ∉ post ∧ .polled p ∉ post

/-- If the frame starts a process, then one whose flag is not set. -/
def Frame.StartsUnasked (s : Scheduler σ) : Frame σ → Prop
  | .startFind p 0 => s.needspoll p = false
  | _ => True

/-- No process is started while its flag from before is set. -/
def StartsUnasked (s : Scheduler σ) : Prop := ∀ f ∈ s.stack.head?, f.StartsUnasked s

theorem Asked.append {p : Nat} {h new : List PollEvent} (hasked : Asked p h)
    (hstart : .start p ∉ new) (hpolled : .polled p ∉ new) : Asked p (h ++ new) := by
  obtain ⟨pre, post, rfl, hstart', hpolled'⟩ := hasked
  refine ⟨pre, post ++ new, by simp, ?_, ?_⟩
  · exact fun hmem => (List.mem_append.mp hmem).elim hstart' hstart
  · exact fun hmem => (List.mem_append.mp hmem).elim hpolled' hpolled

/-- Every poll was asked for. -/
def PollsAsked (h : List PollEvent) : Prop :=
  ∀ k p, h[k]? = some (.polled p) → Asked p (h.take k)

theorem PollsAsked.append {h new : List PollEvent} (hh : PollsAsked h)
    (hnew : ∀ p, .polled p ∈ new → new = [.polled p] ∧ Asked p h) : PollsAsked (h ++ new) := by
  intro k p hk
  rcases Nat.lt_or_ge k h.length with hlt | hge
  · rw [List.getElem?_append_left hlt] at hk
    rw [List.take_append_of_le_length (Nat.le_of_lt hlt)]
    exact hh k p hk
  · rw [List.getElem?_append_right hge] at hk
    obtain ⟨rfl, hasked⟩ := hnew p (List.mem_of_getElem? hk)
    have hlen := (List.getElem?_eq_some_iff.mp hk).1
    have hk : k = h.length := by
      simp only [List.length_singleton] at hlen
      omega
    rw [hk, List.take_left]
    exact hasked

section Requests

variable {w : Width} {fw : Firmware σ} {s s' : Scheduler σ} {i : Option (σ × ApiCall)} {p : Nat}

/-- Only the round of polls polls. -/
theorem Effect.poll_entered {t : Turn σ} {fs : List (Frame σ)} {evs : List SchedEvent}
    (heff : Effect w fw s t fs s') (hlog : s'.log = s.log ++ evs)
    (hp : .enter p processEvPoll .null ∈ evs) : t = .frame (.loop .poll p) ∧ p ≠ 0 ∧
      s.needspoll p = true ∧ evs = [.enter p processEvPoll .null] := by
  obtain ⟨s₁, hlocal, hcall⟩ := heff
  have hlocal_evs : ∃ evs₁, s₁.log = s.log ++ evs₁ ∧ .enter p processEvPoll .null ∉ evs₁ := by
    cases hlocal with
    | quiet hpush _ _ _ _ hlog =>
        refine ⟨_, hlog, ?_⟩
        cases hpush with
        | outside h => cases h <;> simp
        | call h => cases h <;> simp
        | _ => simp
    | returned _ _ _ _ _ hlog => exact ⟨[], hlog.trans (List.append_nil _).symm, nofun⟩
    | polled _ _ _ _ _ _ hlog => exact ⟨[], hlog.trans (List.append_nil _).symm, nofun⟩
    | inited _ _ _ _ _ _ _ _ _ hlog => exact ⟨_, hlog, by simp⟩
    | off _ _ _ _ _ _ hlog => exact ⟨_, hlog, by simp⟩
    | farewell _ _ _ _ _ _ hlog => exact ⟨_, hlog, by simp [processEvPoll, processEvExit]⟩
    | leaveHead _ _ _ _ hlog => exact ⟨_, hlog, by simp⟩
    | leave _ _ _ _ _ hlog => exact ⟨_, hlog, by simp⟩
    | join _ _ _ _ _ hlog => exact ⟨_, hlog, by simp⟩
  obtain ⟨evs₁, hlog₁, hnot⟩ := hlocal_evs
  rcases hcall with ⟨-, rfl⟩ | ⟨q, ev, msg, hcalls, ⟨rfl, -⟩ | henters⟩
  · rw [List.append_cancel_left (hlog.symm.trans hlog₁)] at hp
    exact absurd hp hnot
  · rw [List.append_cancel_left (hlog.symm.trans hlog₁)] at hp
    exact absurd hp hnot
  · have heq : evs = evs₁ ++ [.enter q ev msg] := by
      have hall : s.log ++ evs = s.log ++ (evs₁ ++ [.enter q ev msg]) := by
        rw [← hlog, henters.log, hlog₁, List.append_assoc]
      exact List.append_cancel_left hall
    rw [heq] at hp
    obtain heq' := List.mem_singleton.mp ((List.mem_append.mp hp).resolve_left hnot)
    injection heq' with hq hev hmsg
    subst hq hev hmsg
    generalize hpoll : processEvPoll = ev at hcalls
    cases hcalls with
    | poll hzero hneeds =>
        refine ⟨rfl, hzero, hneeds, ?_⟩
        cases hlocal with
        | quiet hpush _ _ _ _ _ =>
            cases hpush with
            | poll _ hno =>
                rw [hneeds] at hno
                cases hno
            | pollEnd => exact absurd rfl hzero
        | polled _ _ _ _ _ _ hlog =>
            have hnone : evs₁ = [] :=
              List.append_cancel_left (hlog₁.symm.trans (hlog.trans (List.append_nil _).symm))
            rw [heq, hnone, List.nil_append]
    | start _ => cases hpoll

theorem mem_filterMap_start {evs : List SchedEvent}
    (h : .start p ∈ evs.filterMap SchedEvent.pollEvent) : .join p ∈ evs := by
  obtain ⟨ev, hev, heq⟩ := List.mem_filterMap.mp h
  cases ev with
  | join q =>
      injection heq with heq
      injection heq with heq
      exact heq ▸ hev
  | enter q e msg =>
      cases msg with
      | null =>
          simp only [SchedEvent.pollEvent] at heq
          split at heq <;> cases heq
      | _ => cases heq
  | _ => cases heq

theorem mem_filterMap_polled {evs : List SchedEvent}
    (h : .polled p ∈ evs.filterMap SchedEvent.pollEvent) : .enter p processEvPoll .null ∈ evs := by
  obtain ⟨ev, hev, heq⟩ := List.mem_filterMap.mp h
  cases ev with
  | enter q e msg =>
      cases msg with
      | null =>
          simp only [SchedEvent.pollEvent] at heq
          split at heq
          · rename_i he
            injection heq with heq
            injection heq with heq
            exact heq ▸ he ▸ hev
          · cases heq
      | _ => cases heq
  | _ => cases heq

/-- The round of polls clears the flag of the process it stands on. -/
theorem SchedStep.cleared {fs : List (Frame σ)} (hstep : SchedStep w fw s i s')
    (htop : s.stack = .loop .poll p :: fs) (hzero : p ≠ 0) : s'.needspoll p = false := by
  cases hstep.polling with
  | same hneeds _ hno _ => rw [hneeds, (hno p fs htop).resolve_left hzero]
  | asked hissues _ _ =>
      cases hstep with
      | exec _ =>
          rw [Scheduler.issues_of_top htop] at hissues
          cases hissues
      | call hnil =>
          rw [htop] at hnil
          cases hnil
  | opened _ _ hno _ => exact absurd htop (hno p fs)
  | polled htop' _ _ hneeds _ _ =>
      rw [htop] at htop'
      injection htop' with heq
      injection heq with _ heq
      rw [hneeds, heq, Function.update_self]

/-- A flag that is set was set before, or `process_poll` is called. -/
theorem SchedStep.set_before (hstep : SchedStep w fw s i s') (hp : s'.needspoll p = true) :
    s.needspoll p = true ∨ s.issues i = some (.proc (.poll p)) := by
  cases hstep.polling with
  | same hneeds _ _ _ => exact .inl (hneeds ▸ hp)
  | @asked q hissues hneeds _ =>
      rcases eq_or_ne p q with rfl | hne
      · exact .inr hissues
      · rw [hneeds, Function.update_of_ne hne] at hp
        exact .inl hp
  | opened hneeds _ _ _ => exact .inl (hneeds ▸ hp)
  | @polled tmp fs _ _ _ hneeds _ _ =>
      rcases eq_or_ne p tmp with rfl | hne
      · rw [hneeds, Function.update_self] at hp
        cases hp
      · rw [hneeds, Function.update_of_ne hne] at hp
        exact .inl hp

/-- Of every flag that is set there is a request, and of every poll; this is kept by
steps that start no process whose flag is set. -/
theorem SchedStep.asked {h : List PollEvent} (hstep : SchedStep w fw s i s')
    (hfresh : StartsUnasked s)
    (hasked : ∀ p, s.needspoll p = true → Asked p h) (hpolls : PollsAsked h)
    {h' : List PollEvent} (hh' : h' = h ++ ApiCall.pollEvents (s.issues i) ++
      (s'.log.drop s.log.length).filterMap SchedEvent.pollEvent) :
    (∀ p, s'.needspoll p = true → Asked p h') ∧ PollsAsked h' := by
  obtain ⟨t, fs, hstack, -, heff⟩ := hstep.effect
  obtain ⟨evs, hlog, horigin⟩ := heff.origin
  rw [hlog, List.drop_left, List.append_assoc] at hh'
  subst hh'
  have hcalls : ∀ {ev : PollEvent}, ev ∈ ApiCall.pollEvents (s.issues i) → ∃ p, ev = .poll p := by
    intro ev hev
    unfold ApiCall.pollEvents at hev
    split at hev
    · exact ⟨_, List.mem_singleton.mp hev⟩
    · cases hev
  constructor
  · intro p hp
    rcases hstep.set_before hp with hbefore | hcall
    · refine (hasked p hbefore).append (fun hmem => ?_) fun hmem => ?_
      · -- a process that is started has no request
        rcases List.mem_append.mp hmem with hmem | hmem
        · obtain ⟨q, hq⟩ := hcalls hmem
          cases hq
        · have htop : t = .frame (.startFind p 0) := horigin _ (mem_filterMap_start hmem)
          subst htop
          have hfresh : s.needspoll p = false := hfresh (.startFind p 0) (by rw [hstack]; rfl)
          rw [hfresh] at hbefore
          cases hbefore
      · -- a process that is polled has none any more
        rcases List.mem_append.mp hmem with hmem | hmem
        · obtain ⟨q, hq⟩ := hcalls hmem
          cases hq
        · obtain ⟨htop, hzero, -, -⟩ := heff.poll_entered hlog (mem_filterMap_polled hmem)
          subst htop
          rw [hstep.cleared hstack hzero] at hp
          cases hp
    · obtain ⟨s₀, -, hlog₀, heq⟩ := hstep.asks hcall
      have hnone : evs = [] := by
        have hall : s.log ++ evs = s.log ++ [] := by
          rw [← hlog, heq, (processPoll_same s₀ p).2.2.2.2, hlog₀, List.append_nil]
        exact List.append_cancel_left hall
      subst hnone
      rw [hcall]
      exact ⟨h, [], rfl, List.not_mem_nil, List.not_mem_nil⟩
  · refine hpolls.append fun p hmem => ?_
    rcases List.mem_append.mp hmem with hmem | hmem
    · obtain ⟨q, hq⟩ := hcalls hmem
      cases hq
    · obtain ⟨htop, -, hneeds, hevs⟩ := heff.poll_entered hlog (mem_filterMap_polled hmem)
      subst htop hevs
      have hissues : s.issues i = none := by
        cases hstep with
        | exec _ =>
            exact Scheduler.issues_of_top hstack
        | call hnil =>
            rw [hstack] at hnil
            cases hnil
      refine ⟨?_, hasked p hneeds⟩
      rw [hissues]
      rfl

end Requests

/-- **Polls are neither lost nor spurious.** In runs that start no process whose flag is
still set, a process is polled only if `process_poll` was called for it since it was
started and since it was polled last. And in every run, if `process_poll` is called for a
live process of the list, which has a thread, then by the end of any `scheduler_run` from
outside that starts afterwards it has been polled, or has left the list. -/
theorem polls_neither_lost_nor_spurious (w : Width) (fw : Firmware σ) (n : Nat) :
    (∀ s h, ((pollHistory w fw n).restrict fun x _ => StartsUnasked x.1).Reachable (s, h) →
      ∀ k p, h[k]? = some (.polled p) → Asked p (h.take k)) ∧
    ∀ s i s₁ p, (schedSystem w fw n).Reachable s → s.issues i = some (.proc (.poll p)) →
      (schedSystem w fw n).step s i s₁ → s.Listed p → (s.procs p).state ≠ .none →
      (fw.thread p).isSome →
      ∀ s₂ user s₃ s₄, ((schedSystem w fw n).starting s₁).Reachable s₂ →
        (schedSystem w fw n).step s₂ (some (user, .proc .run)) s₃ →
        ((schedSystem w fw n).starting s₃).Reachable s₄ → s₄.stack = [] →
        ∃ evs, s₄.log = s₁.log ++ evs ∧
          (.enter p processEvPoll .null ∈ evs ∨ .leave p ∈ evs) := by
  constructor
  · have hinv : ((pollHistory w fw n).restrict fun x _ => StartsUnasked x.1).Invariant fun x =>
        (∀ p, x.1.needspoll p = true → Asked p x.2) ∧ PollsAsked x.2 := by
      apply TSys.Inductive.invariant
      constructor
      · rintro ⟨s, h⟩ ⟨⟨mem, buffer, user, -, -, hs⟩, hh⟩
        have hs : s = _ := hs
        have hh : h = [] := hh
        subst hs hh
        exact ⟨nofun, nofun⟩
      · rintro ⟨s, h⟩ i ⟨s', h'⟩ ⟨hasked, hpolls⟩ ⟨hfresh, ⟨-, hstep⟩, hh'⟩
        exact hstep.asked hfresh hasked hpolls hh'
    intro s h hreach
    exact (hinv (s, h) hreach).2
  · intro s i s₁ p hs hcall hstep hlisted hlive hthread s₂ user s₃ s₄ hmid hrun hover hdone
    exact poll_served hs hcall hstep hlisted hlive hthread hmid hrun hover hdone

/-! ## A process that is started again -/

/-- A step of a run that is given by its calls, with what is remembered of it. -/
def pollTurn (w : Width) (fw : Firmware σ) (x : Scheduler σ × List PollEvent)
    (i : Option (σ × ApiCall)) : Scheduler σ × List PollEvent :=
  let s' := match i with
    | none => x.1.exec w fw
    | some (user, c) => apiCall w fw { x.1 with user := user } c
  (s', x.2 ++ ApiCall.pollEvents (x.1.issues i) ++
    (s'.log.drop x.1.log.length).filterMap SchedEvent.pollEvent)

theorem pollTurn_step {w : Width} {fw : Firmware σ} {n : Nat} {x : Scheduler σ × List PollEvent}
    {i : Option (σ × ApiCall)} (hready : x.1.stack.isEmpty = i.isSome)
    (hvalid : ∀ c ∈ x.1.issues i, c.Valid w x.1) :
    (pollHistory w fw n).step x i (pollTurn w fw x i) := by
  refine ⟨⟨hvalid, ?_⟩, rfl⟩
  cases i with
  | none => exact .of_nonempty w fw hready
  | some call => exact .call (List.isEmpty_iff.mp hready)

/-- Process 16 is started and polled. -/
def askedOnce : List (Option (Unit × ApiCall)) :=
  [some ((), .proc (.start 16)), none, none, none, some ((), .proc (.poll 16))]

/-- The main program runs the scheduler, which polls the process. -/
def askedAndPolled : List (Option (Unit × ApiCall)) :=
  askedOnce ++ [some ((), .proc .run), none]

/-- Before it does, the process exits and is started again. -/
def restartedAndPolled : List (Option (Unit × ApiCall)) :=
  askedOnce ++ some ((), .proc (.exit 16)) :: List.replicate 6 none ++
    some ((), .proc (.start 16)) :: List.replicate 3 none ++ [some ((), .proc .run), none]

/-- The main program makes these calls with a process that does nothing. -/
def lonelyRun (is : List (Option (Unit × ApiCall))) : Scheduler Unit × List PollEvent :=
  is.foldl (pollTurn .one (lonely (.ret 0 ()))) (schedulerInit (fun _ => 0) 16 64 (), [])

theorem lonelyRun_reachable {P : Scheduler Unit × List PollEvent → Option (Unit × ApiCall) → Prop}
    (is : List (Option (Unit × ApiCall)))
    (his : ∀ k (hk : k < is.length), P (lonelyRun (is.take k)) is[k] ∧
      (lonelyRun (is.take k)).1.stack.isEmpty = is[k].isSome ∧
      ∀ c ∈ (lonelyRun (is.take k)).1.issues is[k], c.Valid .one (lonelyRun (is.take k)).1) :
    ((pollHistory .one (lonely (.ret 0 ())) 64).restrict P).Reachable (lonelyRun is) := by
  have hinit : ((pollHistory .one (lonely (.ret 0 ())) 64).restrict P).Reachable
      (schedulerInit (fun _ => 0) 16 64 (), []) :=
    .init ⟨⟨_, _, _, by decide, by decide, rfl⟩, rfl⟩
  refine hinit.foldl (pollTurn .one (lonely (.ret 0 ()))) is fun k hk => ?_
  obtain ⟨hP, hready, hvalid⟩ := his k hk
  exact ⟨hP, pollTurn_step hready hvalid⟩

instance (s : Scheduler σ) (f : Frame σ) : Decidable (f.StartsUnasked s) :=
  match f with
  | .startFind p 0 => inferInstanceAs (Decidable (s.needspoll p = false))
  | .startFind _ (_ + 1) | .thread _ _ _ | .resume _ _ _ | .called _ _ _ | .loop _ _
  | .loopNext _ _ | .broadcastCall _ _ | .exitFind _ _ _ _ | .exitUnlink _ _ | .exitScan _ _ _
  | .utilizeMessage | .msgFree _ | .runEnd => .isTrue trivial

instance (s : Scheduler σ) : Decidable (StartsUnasked s) :=
  inferInstanceAs (Decidable (∀ f ∈ s.stack.head?, f.StartsUnasked s))

/-- A process that is started once is polled as it was asked to be. -/
theorem polls_neither_lost_nor_spurious_once :
    let fw := lonely (.ret 0 ())
    let s₁ := apiCall .one fw ((startedAlone fw).steps .one fw 3) (.proc (.poll 16))
    let s₄ := (apiCall .one fw s₁ (.proc .run)).steps .one fw 7
    Asked 16 [.start 16, .poll 16] ∧
      ∃ evs, s₄.log = s₁.log ++ evs ∧ (.enter 16 processEvPoll .null ∈ evs ∨ .leave 16 ∈ evs) := by
  intro fw s₁ s₄
  have hspec := polls_neither_lost_nor_spurious .one fw 64
  constructor
  · have hreach : ((pollHistory .one fw 64).restrict fun x _ => StartsUnasked x.1).Reachable
        (lonelyRun askedAndPolled) := by
      apply lonelyRun_reachable
      decide +kernel
    have hhistory : (lonelyRun askedAndPolled).2 = [.start 16, .poll 16, .polled 16] := by
      decide +kernel
    rw [show lonelyRun askedAndPolled = ((lonelyRun askedAndPolled).1, _) from
      Prod.ext rfl hhistory] at hreach
    exact hspec.1 _ _ hreach 2 16 rfl
  · have hs : (schedSystem .one fw 64).Reachable ((startedAlone fw).steps .one fw 3) := by
      apply TSys.Reachable.of_restrict (P := fun _ _ => True)
      apply reachable_steps (startedAlone_reachable fw _ trivial)
      decide +kernel
    have hlisted := ((sched_procInv .one fw 64 _ hs).listed_iff 16).mpr (by decide +kernel)
    have hrun : (schedSystem .one fw 64).step s₁ (some ((), .proc .run))
        (apiCall .one fw s₁ (.proc .run)) := by
      refine ⟨?_, .call (List.isEmpty_iff.mp (by decide +kernel))⟩
      rintro c hc
      injection hc with hc
      subst hc
      trivial
    have hover : ∀ j < 7,
        ((apiCall .one fw s₁ (.proc .run)).steps .one fw j).stack.isEmpty = false ∧
        ∀ c ∈ ((apiCall .one fw s₁ (.proc .run)).steps .one fw j).issues none,
          c.Valid .one ((apiCall .one fw s₁ (.proc .run)).steps .one fw j) := by decide +kernel
    refine hspec.2 _ (some ((), .proc (.poll 16))) s₁ 16 hs rfl ⟨?_, ?_⟩ hlisted
        (by decide +kernel) rfl
      s₁ () _ s₄ (.init rfl) hrun (reachable_execs (.init rfl) fun j hj => ?_)
      (List.isEmpty_iff.mp (by decide +kernel))
    · rintro c hc
      injection hc with hc
      subst hc
      trivial
    · exact .call (List.isEmpty_iff.mp (by decide +kernel))
    · exact ⟨(hover j hj).2, .of_nonempty .one fw (hover j hj).1⟩

/-- The process is polled, and nobody has asked since it was started. -/
theorem poll_after_restart : ∃ s h, (pollHistory .one (lonely (.ret 0 ())) 64).Reachable (s, h) ∧
    ∃ k p, h[k]? = some (.polled p) ∧ ¬ Asked p (h.take k) := by
  have hreach : (pollHistory .one (lonely (.ret 0 ())) 64).Reachable
      (lonelyRun restartedAndPolled) := by
    apply TSys.Reachable.of_restrict (P := fun _ _ => True)
    apply lonelyRun_reachable
    decide +kernel
  have hhistory : (lonelyRun restartedAndPolled).2 =
      [.start 16, .poll 16, .start 16, .polled 16] := by
    decide +kernel
  rw [show lonelyRun restartedAndPolled = ((lonelyRun restartedAndPolled).1, _) from
    Prod.ext rfl hhistory] at hreach
  refine ⟨_, _, hreach, 3, 16, rfl, ?_⟩
  rintro ⟨pre, post, heq, hstart, -⟩
  have heq : [PollEvent.start 16, .poll 16, .start 16] = pre ++ .poll 16 :: post := heq
  rcases pre with _ | ⟨a, _ | ⟨b, pre⟩⟩
  · cases heq
  · injection heq with _ heq
    injection heq with _ heq
    exact hstart (heq ▸ List.mem_cons_self)
  · injection heq with _ heq
    injection heq with _ heq
    rcases pre with _ | ⟨c, pre⟩
    · cases heq
    · injection heq with _ heq
      cases pre <;> cases heq

end EmbeddedMx
