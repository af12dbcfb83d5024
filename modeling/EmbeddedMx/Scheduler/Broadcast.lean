import EmbeddedMx.Scheduler.Announcement
import EmbeddedMx.Scheduler.Returns

/-!
# A broadcast reaches everyone

`scheduler_utilize_message` calls every process of the list with a broadcast message,
and polls in between. The threads it calls may change the list. The loop ends all the
same, and a process that stays on the list is called once: before the loop comes to
it not at all, and not again afterwards.
-/

namespace EmbeddedMx

open EmbeddedMx.Lib

variable {σ : Type}

/-- A call of `call_process` for `q` with a taken message. -/
def SchedEvent.deliversTo (q : Nat) : SchedEvent → Bool
  | .deliver p _ => p = q
  | _ => false

/-- The thread of `q` is called with the message in the node `ptr`. -/
def SchedEvent.entersWith (q ptr : Nat) : SchedEvent → Bool
  | .enter p _ msg => p = q ∧ msg = .node ptr
  | _ => false

/-- From `s` the run comes to the stack `fs`, and delivers nothing on the way. -/
def Comes (w : Width) (fw : Firmware σ) (s₀ : Scheduler σ) (fs : List (Frame σ))
    (s : Scheduler σ) : Prop :=
  Ends (Scheduler.exec w fw) (Allows s₀) (fun s' => s'.stack = fs ∧ Passes s₀ s s') s

section Runs

variable {w : Width} {fw : Firmware σ} {s₀ s s₁ s' : Scheduler σ} {fs : List (Frame σ)}

/-- A call of `call_process` returns. -/
theorem Called.comes {q ev : Nat} {msg : MsgArg} (hcalled : Called fw s₁ q ev msg s')
    (h : Delivering s₀ s') : Comes w fw s₀ s₁.stack s' := by
  rcases hcalled with ⟨rfl, -⟩ | henters
  · exact .now ⟨rfl, .refl h⟩
  · obtain ⟨thread, -, hstack⟩ := henters.stack
    refine Ends.bind ((finishing w fw s₀ _).thread h hstack le_rfl) fun s''
        ⟨hstack', hpasses, _⟩ => ?_
    refine Ends.mono ((finishing w fw s₀ _).called hpasses.delivering hstack' le_rfl) ?_
    rintro s''' ⟨hstack'', hpasses', -⟩
    exact ⟨hstack'', hpasses.trans h hpasses'⟩

/-- A round of polls comes to its end. -/
theorem poll_comes {tmp : Nat} {xs : List Nat} (h : Delivering s₀ s)
    (hstack : s.stack = .loop .poll tmp :: fs) (hfs : ∀ g ∈ fs, g.exits = none)
    (hpath : LinkPath s.next tmp xs 0) (hzero : 0 ∉ xs) (hknown : ∀ x ∈ xs, s.Known s₀ x) :
    Comes w fw s₀ fs s := by
  refine Ends.bind (loop_ends (fun _ s' => Passes s₀ s s')
    (fun s' tmp xs hs' hstack' hahead _ hI => ?_) (fun s' s'' _ hI _ hpasses _ _ => ?_)
    le_rfl h hstack hpath hzero hknown (.refl h)) fun s' ⟨hstack', hs', hI⟩ => ?_
  · refine Ends.next fun _ => ?_
    have heff := exec_effect w fw hstack'
    have hpasses := hs'.passes hstack' hfs rfl heff
    have htmp : tmp ≠ 0 := fun heq => hahead.2 (heq ▸ List.mem_cons_self)
    obtain ⟨s₁, hlocal, hcall⟩ := heff
    have hnew := hlocal.loop_stack nofun htmp
    rcases hcall with ⟨-, hsame⟩ | ⟨q, ev, msg, -, hcalled⟩
    · refine .now ⟨hsame ▸ hnew, hpasses.choose, hpasses.choose_spec.1, fun _ _ _ => ?_⟩
      exact hI.trans h hpasses
    · refine Ends.mono (hcalled.comes hpasses.delivering) fun s'' ⟨hstack'', hpasses'⟩ => ?_
      have hthrough := hpasses.trans hs' hpasses'
      exact ⟨hstack''.trans hnew, hthrough.choose, hthrough.choose_spec.1,
        fun _ _ _ => hI.trans h hthrough⟩
  · exact hI.trans h hpasses
  · refine Ends.next fun _ => .now ?_
    have heff := exec_effect w fw hstack'
    have hpasses := hs'.passes hstack' hfs rfl heff
    refine ⟨?_, hI.trans h hpasses⟩
    obtain ⟨s₁, hlocal, ⟨-, hsame⟩ | ⟨q, ev, msg, hcalls, -⟩⟩ := heff
    · rw [hsame]
      cases hlocal with
      | quiet hpush _ _ _ hnew _ =>
          cases hpush with
          | poll hne _ => exact absurd rfl hne
          | pollEnd => exact hnew
      | polled hne _ _ _ _ _ _ => exact absurd rfl hne
    · cases hcalls
      contradiction

/-! ## One process of the list -/

theorem count_of_passing {evs : List SchedEvent} (h : ∀ ev ∈ evs, ev.delivers = false)
    (q ptr : Nat) :
    evs.countP (·.deliversTo q) = 0 ∧ evs.countP (·.entersWith q ptr) = 0 := by
  constructor
  · refine List.countP_eq_zero.mpr fun ev hev hto => ?_
    have hev := h ev hev
    cases ev with
    | deliver _ _ => cases hev
    | _ => cases hto
  · refine List.countP_eq_zero.mpr fun ev hev hto => ?_
    have hev := h ev hev
    cases ev with
    | enter p e msg =>
        obtain ⟨-, rfl⟩ := of_decide_eq_true hto
        cases hev
    | _ => cases hto

/-- With no call and no exit on the stack, the processes of the list can be called. -/
theorem Delivering.running (h : Delivering s₀ s)
    (hexits : ∀ g ∈ s.stack, ∀ p, g.exits ≠ some p ∧ g.calls ≠ some p) {q : Nat}
    (hq : q ∈ members s.log) : s.st q = .running := by
  cases hst : s.st q with
  | running => rfl
  | none =>
      obtain ⟨g, hg, hgq⟩ := h.procs.off q hq hst
      exact absurd hgq (hexits g hg q).1
  | called =>
      obtain ⟨g, hg, hgq⟩ := h.procs.called q hq hst
      exact absurd hgq (hexits g hg q).2

/-- The message is given to `tmp`. -/
theorem Effect.serves {ptr tmp : Nat}
    (heff : Effect w fw s (.frame (.broadcastCall ptr tmp)) fs s')
    (hrun : tmp ∈ members s.log → s.st tmp = .running) :
    ∃ s₁ ev evs, s₁.stack = fs ∧ Called fw s₁ tmp ev (.node ptr) s' ∧ s'.log = s.log ++ evs ∧
      ∀ q, evs.countP (·.deliversTo q) = (if q = tmp then 1 else 0) ∧
        ((fw.thread q).isSome → q ∈ members s.log →
          evs.countP (·.entersWith q ptr) = if q = tmp then 1 else 0) := by
  obtain ⟨s₁, hlocal, ⟨hno, -⟩ | ⟨q, ev, msg, hcalls, hcalled⟩⟩ := heff
  · exact absurd .broadcast (hno _ _ _)
  · cases hcalls
    cases hlocal with
    | quiet hpush _ _ hst hnew hlog =>
        cases hpush
        rcases hcalled with ⟨rfl, hnot⟩ | henters
        · refine ⟨_, nodeType w s.heap.mem ptr, _, hnew, .inl ⟨rfl, hnot⟩, hlog, fun q =>
              ⟨?_, fun hthread hq => ?_⟩⟩
          · simp [SchedEvent.deliversTo, eq_comm]
          · rw [if_neg]
            · rfl
            · rintro rfl
              exact hnot ⟨hthread, (congrFun hst q).trans (hrun hq)⟩
        · refine ⟨_, nodeType w s.heap.mem ptr, _, hnew, .inr henters,
              by rw [henters.log, hlog, List.append_assoc],
            fun q => ⟨?_, fun _ _ => ?_⟩⟩
          · simp [SchedEvent.deliversTo, List.countP_cons, eq_comm]
          · simp [SchedEvent.entersWith, List.countP_cons, eq_comm]

/-- One turn of the loop. -/
theorem broadcast_turn {ptr tmp : Nat} (h : Delivering s₀ s)
    (hstack : s.stack = [.loop (.broadcast ptr) tmp, .runEnd]) (htmp : tmp ≠ 0) :
    Ends (Scheduler.exec w fw) (Allows s₀) (fun s' =>
      s'.stack = [.loopNext (.broadcast ptr) tmp, .runEnd] ∧ ∃ evs, Goes s₀ s evs s' ∧
        ∀ q, evs.countP (·.deliversTo q) = (if q = tmp then 1 else 0) ∧
          ((fw.thread q).isSome → q ∈ members s.log → .leave q ∉ evs →
            evs.countP (·.entersWith q ptr) = if q = tmp then 1 else 0)) s := by
  -- up to the call there may be a round of polls
  have hpolled : Ends (Scheduler.exec w fw) (Allows s₀) (fun s' =>
      s'.stack = [.broadcastCall ptr tmp, .loopNext (.broadcast ptr) tmp, .runEnd] ∧
        Passes s₀ s s') s := by
    refine Ends.next fun _ => ?_
    have heff := exec_effect w fw hstack
    have hpasses := h.passes hstack trivial rfl heff
    obtain ⟨s₁, hlocal, hcall⟩ := heff
    have hsame : s.exec w fw = s₁ := by
      rcases hcall with ⟨-, heq⟩ | ⟨_, _, _, hcalls, -⟩
      · exact heq
      · cases hcalls
    rw [hsame] at hpasses ⊢
    cases hlocal with
    | quiet hpush _ hhead _ hnew _ =>
        cases hpush with
        | broadcast _ => exact .now ⟨hnew, hpasses⟩
        | broadcastPoll _ =>
            have hinv := hpasses.delivering.procs
            have hpath := hinv.path
            rw [hhead] at hpath
            refine Ends.mono (poll_comes hpasses.delivering hnew (by simp [Frame.exits]) hpath
              hinv.zero fun x hx => .inl hx) ?_
            rintro s'' ⟨hstack'', hpasses'⟩
            exact ⟨hstack'', hpasses.trans h hpasses'⟩
        | broadcastEnd => exact absurd rfl htmp
  refine Ends.bind hpolled fun s' hpasses => Ends.next fun _ => ?_
  obtain ⟨hstack', evs, hgoes, hquiet⟩ := hpasses
  have hs' := hgoes.delivering
  have heff := exec_effect w fw hstack'
  obtain ⟨evs', hgoes', -⟩ := hs'.goes hstack' trivial heff
  have hrun := hs'.running (q := tmp) (by simp [hstack', Frame.exits, Frame.calls])
  obtain ⟨s₁, ev, evs₁, hnew, hcalled, hlog, hcount⟩ := heff.serves hrun
  obtain rfl : evs₁ = evs' := List.append_cancel_left (hlog.symm.trans hgoes'.log)
  refine Ends.mono (hcalled.comes hgoes'.delivering) fun s'' hpasses'' => ?_
  obtain ⟨hstack'', evs'', hgoes'', hquiet''⟩ := hpasses''
  refine ⟨hstack''.trans hnew, evs ++ evs₁ ++ evs'', (hgoes.trans h hgoes').trans h hgoes'',
      fun q => ?_⟩
  obtain ⟨hdelivers, henters⟩ := count_of_passing hquiet q ptr
  obtain ⟨hdelivers'', henters''⟩ := count_of_passing hquiet'' q ptr
  simp only [List.countP_append, hdelivers, henters, hdelivers'', henters'', Nat.zero_add,
      Nat.add_zero]
  refine ⟨(hcount q).1, fun hthread hq hstay => (hcount q).2 hthread ?_⟩
  rw [hgoes.log]
  exact mem_members_append hq fun hmem =>
    hstay (List.mem_append_left _ (List.mem_append_left _ hmem))

/-! ## The whole list -/

/-- The processes `xs` are in front of the loop: of those that were on the list when it
began and are so still, these have not been called yet, and the others once. -/
structure Serving (fw : Firmware σ) (s₀ : Scheduler σ) (ptr : Nat) (xs : List Nat)
    (s : Scheduler σ) : Prop where
  delivers : ∀ q ∈ members s₀.log, .leave q ∉ s.since s₀ →
    (s.since s₀).countP (·.deliversTo q) = if q ∈ xs then 0 else 1
  enters : ∀ q ∈ members s₀.log, .leave q ∉ s.since s₀ → (fw.thread q).isSome →
    (s.since s₀).countP (·.entersWith q ptr) = if q ∈ xs then 0 else 1

/-- The loop starts with all processes in front of it. -/
theorem Serving.start {ptr : Nat} {x : Letter} (hlog : s.log = s₀.log ++ [.take x]) :
    Serving fw s₀ ptr (members s.log) s := by
  have hsince : s.since s₀ = [.take x] := by
    unfold Scheduler.since
    rw [hlog, List.drop_left]
  have hmembers : members s.log = members s₀.log := by
    rw [hlog, members_event (by rfl)]
  rw [hmembers]
  constructor
  · intro q hq _
    rw [hsince, if_pos hq]
    rfl
  · intro q hq _ _
    rw [hsince, if_pos hq]
    rfl

/-- One turn: the first process is called, and some may leave. -/
theorem Serving.turn {ptr tmp : Nat} {xs xs' : List Nat} {evs : List SchedEvent}
    (h : Serving fw s₀ ptr (tmp :: xs) s) (hs : Delivering s₀ s) (hnodup : (tmp :: xs).Nodup)
    (hlog : s'.log = s.log ++ evs) (hsub : xs'.Sublist xs)
    (hleft : ∀ x ∈ xs, x ∉ xs' → .leave x ∈ evs)
    (hcount : ∀ q, evs.countP (·.deliversTo q) = (if q = tmp then 1 else 0) ∧
      ((fw.thread q).isSome → q ∈ members s.log → .leave q ∉ evs →
        evs.countP (·.entersWith q ptr) = if q = tmp then 1 else 0)) :
    Serving fw s₀ ptr xs' s' := by
  have hsince := since_append hs.log hlog
  have hsum : ∀ q, .leave q ∉ evs →
      ((if q ∈ tmp :: xs then 0 else 1) + if q = tmp then 1 else 0) = if q ∈ xs' then 0 else 1 := by
    intro q hstay
    have hiff : q ∈ xs' ↔ q ∈ xs :=
      ⟨fun hmem => hsub.subset hmem, fun hmem => Classical.byContradiction fun hnot =>
        hstay (hleft q hmem hnot)⟩
    simp only [hiff]
    rcases eq_or_ne q tmp with rfl | hne
    · rw [if_pos List.mem_cons_self, if_pos rfl, if_neg (List.nodup_cons.mp hnodup).1]
    · simp [hne]
  constructor
  · intro q hq hstay
    rw [hsince] at hstay
    obtain ⟨hstay, hstay'⟩ := not_or.mp (List.mem_append.not.mp hstay)
    rw [hsince, List.countP_append, h.delivers q hq hstay, (hcount q).1, hsum q hstay']
  · intro q hq hstay hthread
    rw [hsince] at hstay
    obtain ⟨hstay, hstay'⟩ := not_or.mp (List.mem_append.not.mp hstay)
    have hlisted : q ∈ members s.log := by
      obtain ⟨evs₀, hevs₀⟩ := hs.log
      have hsince₀ : s.since s₀ = evs₀ := by
        unfold Scheduler.since
        rw [← hevs₀, List.drop_left]
      rw [hsince₀] at hstay
      rw [← hevs₀]
      exact mem_members_append hq hstay
    rw [hsince, List.countP_append, h.enters q hq hstay hthread,
      (hcount q).2 hthread hlisted hstay', hsum q hstay']

theorem Serving.of_log {ptr : Nat} {xs : List Nat} (h : Serving fw s₀ ptr xs s)
    (hlog : s'.log = s.log) : Serving fw s₀ ptr xs s' := by
  have hsince : s'.since s₀ = s.since s₀ := by
    unfold Scheduler.since
    rw [hlog]
  constructor
  · rw [hsince]
    exact h.delivers
  · rw [hsince]
    exact h.enters

/-- The delivery is through, and everyone has been served. -/
theorem broadcast_ends {ptr : Nat} (h : Delivering s₀ s₀)
    (hstack : s₀.stack = [.utilizeMessage, .runEnd]) (hptr : s₀.popped = ptr) (hne : ptr ≠ 0)
    (hall : (letterAt s₀.heap.mem ptr).receiver = processBroadcast) :
    Ends (Scheduler.exec w fw) (Allows s₀) (fun s =>
      s.stack = [.msgFree ptr, .runEnd] ∧ Delivering s₀ s ∧ Serving fw s₀ ptr [] s) s₀ := by
  refine Ends.next fun _ => ?_
  have heff := exec_effect w fw hstack
  obtain ⟨evs, hgoes, -⟩ := h.goes hstack (show _ = _ by rw [hptr]; exact hall) heff
  have hs := hgoes.delivering
  obtain ⟨s₁, hlocal, hcall⟩ := heff
  have hsame : s₀.exec w fw = s₁ := by
    rcases hcall with ⟨-, heq⟩ | ⟨_, _, _, hcalls, -⟩
    · exact heq
    · cases hcalls with
      | message hptr' _ hx hone =>
          rw [← hptr', hptr] at hx
          exact absurd (hx ▸ hall) hone
  rw [hsame] at hs ⊢
  have htaken : s₁.stack = [.loop (.broadcast ptr) s₀.processHead, .runEnd] ∧
      s₁.processHead = s₀.processHead ∧ ∃ x, s₁.log = s₀.log ++ [.take x] := by
    cases hlocal with
    | quiet hpush _ hhead _ hnew hlog =>
        cases hpush with
        | idle hnone => exact absurd (hptr.symm.trans hnone) hne
        | takeAll hptr' _ _ _ =>
            obtain rfl := hptr.symm.trans hptr'
            exact ⟨hnew, hhead, _, hlog⟩
        | take hptr' _ hx hone _ =>
            rw [← hptr', hptr] at hx
            exact absurd (hx ▸ hall) hone
    | inited hptr' _ hx hone _ _ _ _ _ _ =>
        rw [← hptr', hptr] at hx
        exact absurd (hx ▸ hall) hone
  obtain ⟨hnew, hhead, x, hlog⟩ := htaken
  have hpath := hs.procs.path
  rw [hhead] at hpath
  refine Ends.bind (loop_ends (Serving fw s₀ ptr)
    (fun s tmp xs hs hstack' hahead _ hI => ?_) (fun _ _ _ hI _ _ _ hlog => hI.of_log hlog)
    le_rfl hs hnew hpath hs.procs.zero (fun x hx => .inl hx) (.start hlog))
    fun s ⟨hstack', hs, hI⟩ => ?_
  · have htmp : tmp ≠ 0 := fun heq => hahead.2 (heq ▸ List.mem_cons_self)
    refine Ends.mono (broadcast_turn hs hstack' htmp) ?_
    rintro s' ⟨hstack'', evs, hgoes, hcount⟩
    exact ⟨hstack'', evs, hgoes, fun xs' hsub hleft =>
      hI.turn hs (hahead.1.nodup hahead.2) hgoes.log hsub hleft hcount⟩
  · -- behind the last process
    refine Ends.next fun _ => .now ?_
    have heff := exec_effect w fw hstack'
    have hs' := hs.step hstack' trivial heff
    obtain ⟨s₂, hlocal', hcall'⟩ := heff
    have hsame' : s.exec w fw = s₂ := by
      rcases hcall' with ⟨-, heq⟩ | ⟨_, _, _, hcalls, -⟩
      · exact heq
      · cases hcalls
    rw [hsame'] at hs' ⊢
    cases hlocal' with
    | quiet hpush _ _ _ hnew' hlog' =>
        cases hpush with
        | broadcast hzero => exact absurd rfl hzero
        | broadcastPoll hzero => exact absurd rfl hzero
        | broadcastEnd => exact ⟨hnew', hs', hI.of_log (hlog'.trans (List.append_nil _))⟩

end Runs

/-- Only finitely many processes can be called. -/
theorem sched_callable_finite (w : Width) (fw : Firmware σ) (n : Nat) :
    (schedSystem w fw n).Invariant fun s => s.callable.Finite := by
  apply TSys.Inductive.invariant
  constructor
  · rintro s ⟨mem, buffer, user, -, -, rfl⟩
    refine Set.finite_empty.subset ?_
    rintro p ⟨⟩
  · rintro s i s' hfinite ⟨-, hstep⟩
    obtain ⟨t, fs, -, -, heff⟩ := hstep.effect
    exact heff.finite hfinite

/-- **A broadcast reaches everyone once.** A top-level `scheduler_run` is about to take a
broadcast message. Whatever threads do that do not run the scheduler and start no process
that has left the list meanwhile, the delivery ends; and every process that was on the
list and has not left it was called by the loop with this message exactly once, so its
thread, if it has one, was entered with it exactly once. -/
theorem broadcast_reaches_everyone (w : Width) (fw : Firmware σ) (n : Nat) {s : Scheduler σ}
    (hs : (schedSystem w fw n).Reachable s) (hstack : s.stack = [.utilizeMessage, .runEnd])
    {ptr : Nat} (hptr : s.popped = ptr) (hne : ptr ≠ 0)
    (hall : (letterAt s.heap.mem ptr).receiver = processBroadcast)
    (hcalls : ∀ k, Allows s (s.steps w fw k)) :
    ∃ k evs, (s.steps w fw k).stack = [.msgFree ptr, .runEnd] ∧
      (s.steps w fw k).log = s.log ++ evs ∧
      ∀ q, s.Listed q → .leave q ∉ evs → evs.countP (·.deliversTo q) = 1 ∧
        ((fw.thread q).isSome → evs.countP (·.entersWith q ptr) = 1) := by
  have hinv := sched_procInv w fw n s hs
  have hstart : Delivering s s :=
    { log := List.prefix_refl _
      procs := hinv
      finite := sched_callable_finite w fw n s hs
      exits := by simp [hstack, Frame.exits]
      calls := by simp [hstack, Frame.exits] }
  obtain ⟨k, hover, hdelivering, hserving⟩ :=
    (broadcast_ends hstart hstack hptr hne hall).reached fun k _ =>
    by rw [iterate_exec]; exact hcalls k
  rw [iterate_exec] at hover hdelivering hserving
  obtain ⟨evs, hlog⟩ := hdelivering.log
  have hsince : (s.steps w fw k).since s = evs := by
    unfold Scheduler.since
    rw [← hlog, List.drop_left]
  refine ⟨k, evs, hover, hlog.symm, fun q hq hstay => ?_⟩
  have hq := (hinv.listed_iff q).mp hq
  rw [← hsince] at hstay ⊢
  exact ⟨hserving.delivers q hq hstay, hserving.enters q hq hstay⟩

/-- Two processes wait, and `scheduler_run` is about to take a broadcast message. -/
def broadcastQueued : Scheduler Unit :=
  let fw := couple (.ret 0 ())
  let s := (startedBoth fw).steps .one fw 4
  apiCall .one fw (apiCall .one fw s (.send (.p0 processBroadcast 5))) (.proc .run)

theorem broadcastQueued_reachable {P : Scheduler Unit → Option (Unit × ApiCall) → Prop}
    (hnone : ∀ s, s.issues none = none → P s none)
    (hstart : ∀ s p, P s (some ((), .proc (.start p))))
    (hsend : ∀ s, P s (some ((), .send (.p0 processBroadcast 5))))
    (hrun : ∀ s, P s (some ((), .proc .run))) :
    ((schedSystem .one (couple (.ret 0 ())) 64).restrict P).Reachable broadcastQueued := by
  have halone : ∀ j < 3,
      ((startedAlone (couple (.ret 0 ()))).steps .one (couple (.ret 0 ())) j).stack.isEmpty =
        false ∧
      (∀ c ∈ ((startedAlone (couple (.ret 0 ()))).steps .one (couple (.ret 0 ())) j).issues none,
        c.Valid .one ((startedAlone (couple (.ret 0 ()))).steps .one (couple (.ret 0 ())) j)) ∧
      ((startedAlone (couple (.ret 0 ()))).steps .one (couple (.ret 0 ())) j).issues none =
        none := by
    decide +kernel
  have hboth : ∀ j < 4,
      ((startedBoth (couple (.ret 0 ()))).steps .one (couple (.ret 0 ())) j).stack.isEmpty = false ∧
      (∀ c ∈ ((startedBoth (couple (.ret 0 ()))).steps .one (couple (.ret 0 ())) j).issues none,
        c.Valid .one ((startedBoth (couple (.ret 0 ()))).steps .one (couple (.ret 0 ())) j)) ∧
      ((startedBoth (couple (.ret 0 ()))).steps .one (couple (.ret 0 ())) j).issues none =
        none := by
    decide +kernel
  have hstarted := startedBoth_reachable (couple (.ret 0 ())) (P := P) (fun s p _ => hstart s p)
    (fun j hj => ⟨(halone j hj).1, (halone j hj).2.1, hnone _ (halone j hj).2.2⟩)
    (by decide +kernel)
  have hwaiting := reachable_steps (k := 4) hstarted
    fun j hj => ⟨(hboth j hj).1, (hboth j hj).2.1, hnone _ (hboth j hj).2.2⟩
  have hsent := reachable_call (c := .send (.p0 processBroadcast 5)) hwaiting
    (List.isEmpty_iff.mp (by decide +kernel)) (.inl rfl) (hsend _)
  exact reachable_call (c := .proc .run) hsent (List.isEmpty_iff.mp (by decide +kernel)) trivial
    (hrun _)

/-- Both processes are called with the message. -/
theorem broadcast_reaches_everyone_waiting :
    ∃ k evs, (broadcastQueued.steps .one (couple (.ret 0 ())) k).stack = [.msgFree 20, .runEnd] ∧
      (broadcastQueued.steps .one (couple (.ret 0 ())) k).log = broadcastQueued.log ++ evs ∧
      evs.countP (·.deliversTo 16) = 1 ∧ evs.countP (·.entersWith 32 20) = 1 := by
  have hstack : broadcastQueued.stack = [.utilizeMessage, .runEnd] := rfl
  have hptr : broadcastQueued.popped = 20 := by decide +kernel
  have hever : ∀ k, (broadcastQueued.steps .one (couple (.ret 0 ())) k).issues none = none ∧
      .leave 16 ∉ (broadcastQueued.steps .one (couple (.ret 0 ())) k).log ∧
      .leave 32 ∉ (broadcastQueued.steps .one (couple (.ret 0 ())) k).log := by
    have hfirst : ∀ k < 15, (broadcastQueued.steps .one (couple (.ret 0 ())) k).issues none = none ∧
        .leave 16 ∉ (broadcastQueued.steps .one (couple (.ret 0 ())) k).log ∧
        .leave 32 ∉ (broadcastQueued.steps .one (couple (.ret 0 ())) k).log := by decide +kernel
    have hend : (broadcastQueued.steps .one (couple (.ret 0 ())) 14).stack = [] :=
      List.isEmpty_iff.mp (by decide +kernel)
    intro k
    rcases Nat.lt_or_ge k 15 with hk | hk
    · exact hfirst k hk
    · obtain ⟨j, rfl⟩ := Nat.exists_eq_add_of_le (Nat.le_of_succ_le hk)
      rw [steps_add, steps_of_nil hend]
      exact hfirst 14 (by decide)
  have hreach : (schedSystem .one (couple (.ret 0 ())) 64).Reachable broadcastQueued :=
    (broadcastQueued_reachable (P := fun _ _ => True) (fun _ _ => trivial) (fun _ _ => trivial)
      (fun _ => trivial) fun _ => trivial).of_restrict
  have hinv := sched_procInv .one (couple (.ret 0 ())) 64 _ hreach
  obtain ⟨k, evs, hover, hlog, hserved⟩ := broadcast_reaches_everyone .one (couple (.ret 0 ())) 64
    hreach hstack hptr (by decide) (by decide +kernel)
    fun k c hc => by
      rw [(hever k).1] at hc
      cases hc
  obtain ⟨-, hfirst, hsecond⟩ := hever k
  rw [hlog] at hfirst hsecond
  have hfirst := hserved 16 ((hinv.listed_iff 16).mpr (by decide +kernel))
    fun hmem => hfirst (List.mem_append_right _ hmem)
  have hsecond := hserved 32 ((hinv.listed_iff 32).mpr (by decide +kernel))
    fun hmem => hsecond (List.mem_append_right _ hmem)
  exact ⟨k, evs, hover, hlog, hfirst.1, hsecond.2 rfl⟩

end EmbeddedMx
