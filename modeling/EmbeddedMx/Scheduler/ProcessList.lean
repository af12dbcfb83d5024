import EmbeddedMx.Lib.Linked
import EmbeddedMx.Scheduler.Steps

/-!
# The process list

The log says which processes have joined and left the list; the links of the
processes spell out that list, in every reachable state. A step leaves the links as
they are, puts one process in front, or bends one link past a process that leaves.
So a chain of processes that some loop still has in front of it loses at most the
process that leaves, as long as no process of the chain is started again.
-/

namespace EmbeddedMx

open EmbeddedMx.Lib

variable {σ : Type}

/-! ## The list in the log -/

/-- The process list after an event. -/
def SchedEvent.relist (ps : List Nat) : SchedEvent → List Nat
  | .join p => p :: ps
  | .leave p => ps.erase p
  | _ => ps

/-- Events that change the process list. -/
def SchedEvent.listing : SchedEvent → Bool
  | .join _ => true
  | .leave _ => true
  | _ => false

/-- The processes on the list, first one first. -/
def members (log : List SchedEvent) : List Nat := log.foldl SchedEvent.relist []

theorem members_append (log evs : List SchedEvent) :
    members (log ++ evs) = evs.foldl SchedEvent.relist (members log) := List.foldl_append

theorem foldl_relist_quiet {evs : List SchedEvent} (h : ∀ ev ∈ evs, ev.listing = false)
    (ps : List Nat) : evs.foldl SchedEvent.relist ps = ps := by
  induction evs generalizing ps with
  | nil => rfl
  | cons ev evs ih =>
      have hev : ev.relist ps = ps := by
        have hquiet := h ev List.mem_cons_self
        cases ev <;> first | rfl | cases hquiet
      rw [List.foldl_cons, hev]
      exact ih (fun ev' hev' => h ev' (List.mem_cons_of_mem _ hev')) ps

theorem members_quiet {log evs : List SchedEvent} (h : ∀ ev ∈ evs, ev.listing = false) :
    members (log ++ evs) = members log := by
  rw [members_append, foldl_relist_quiet h]

theorem members_event {log : List SchedEvent} {ev : SchedEvent} (h : ev.listing = false) :
    members (log ++ [ev]) = members log :=
  members_quiet (List.forall_mem_singleton.mpr h)

theorem EntersThread.members {fw : Firmware σ} {s₁ s' : Scheduler σ} {q ev : Nat} {msg : MsgArg}
    (h : EntersThread fw s₁ q ev msg s') : members s'.log = members s₁.log := by
  rw [h.log]
  exact members_event rfl

/-- A process that has not left is still on the list. -/
theorem mem_members_append {log evs : List SchedEvent} {p : Nat} (hp : p ∈ members log)
    (hstay : .leave p ∉ evs) : p ∈ members (log ++ evs) := by
  rw [members_append]
  generalize members log = ps at hp
  induction evs generalizing ps with
  | nil => exact hp
  | cons ev evs ih =>
      obtain ⟨hev, hevs⟩ := not_or.mp (List.mem_cons.not.mp hstay)
      refine ih hevs _ ?_
      cases ev with
      | join q => exact List.mem_cons_of_mem _ hp
      | leave q =>
          have hne : p ≠ q := fun heq => hev (heq ▸ rfl)
          exact (List.mem_erase_of_ne hne).mpr hp
      | _ => exact hp

/-! ## Frames -/

/-- The process that this part of `exit_process` takes out of the list. -/
def Frame.exits : Frame σ → Option Nat
  | .loop (.notify p _ _) _ => some p
  | .loopNext (.notify p _ _) _ => some p
  | .exitUnlink p _ => some p
  | .exitScan p _ _ => some p
  | _ => none

/-- The process whose call this part of `call_process` finishes. -/
def Frame.calls : Frame σ → Option Nat
  | .called p _ _ => some p
  | .exitFind p _ _ _ => some p
  | _ => none

/-- The loops over the process list that call nobody. -/
def Frame.search : Frame σ → Bool
  | .exitFind _ _ _ _ => true
  | .exitScan _ _ _ => true
  | .startFind _ _ => true
  | _ => false

/-- The search for `p` has come to `tmp` and not found it so far. -/
def Scheduler.Behind (s : Scheduler σ) (p tmp : Nat) : Prop :=
  ∃ pre suf, members s.log = pre ++ suf ∧ LinkPath s.next tmp suf 0 ∧ p ∉ pre

/-- Where a search is. -/
def Scheduler.Search (s : Scheduler σ) : Frame σ → Prop
  | .exitFind p _ _ tmp => s.Behind p tmp
  | .startFind p tmp => s.Behind p tmp
  | .exitScan p _ tmp => s.Behind p tmp ∧ tmp ≠ p
  | _ => True

/-- A search that is not through is at a process of the list. -/
theorem Scheduler.Behind.mem {s : Scheduler σ} {p tmp : Nat} (h : s.Behind p tmp)
    (htmp : tmp ≠ 0) : tmp ∈ members s.log := by
  obtain ⟨pre, suf, hsplit, hpath, -⟩ := h
  rw [hsplit]
  cases suf with
  | nil => exact absurd hpath htmp
  | cons x suf => exact List.mem_append_right _ (hpath.1 ▸ List.mem_cons_self)

/-- A search goes on to the next process. -/
theorem Scheduler.Behind.next {s : Scheduler σ} {p tmp : Nat} (h : s.Behind p tmp)
    (htmp : tmp ≠ 0) (hne : tmp ≠ p) : s.Behind p (s.next tmp) := by
  obtain ⟨pre, suf, hsplit, hpath, hp⟩ := h
  cases suf with
  | nil => exact absurd hpath htmp
  | cons x suf =>
      obtain ⟨rfl, hpath⟩ := hpath
      refine ⟨pre ++ [tmp], suf, by rw [hsplit, List.append_assoc]; rfl, hpath, fun hmem => ?_⟩
      rcases List.mem_append.mp hmem with hmem | hmem
      · exact hp hmem
      · exact hne (List.mem_singleton.mp hmem).symm

theorem search_of_not (s : Scheduler σ) {f : Frame σ} (hf : f.search = false) : s.Search f := by
  cases f with
  | exitFind _ _ _ _ => cases hf
  | exitScan _ _ _ => cases hf
  | startFind _ _ => cases hf
  | _ => trivial

/-- Nothing is called during a search, so only the top frame is one. -/
def Scheduler.Searches (s : Scheduler σ) : List (Frame σ) → Prop
  | [] => True
  | f :: fs => s.Search f ∧ ∀ g ∈ fs, g.search = false

/-- The state of the process list. -/
structure ProcInv (s : Scheduler σ) : Prop where
  path : LinkPath s.next s.processHead (members s.log) 0
  zero : 0 ∉ members s.log
  searches : s.Searches s.stack
  exits : ∀ f ∈ s.stack, ∀ p, f.exits = some p → p ≠ 0
  off : ∀ p ∈ members s.log, s.st p = .none → ∃ f ∈ s.stack, f.exits = some p
  called : ∀ p ∈ members s.log, s.st p = .called → ∃ f ∈ s.stack, f.calls = some p

/-! ## What a step pushes -/

section Pushed

variable {w : Width} {fw : Firmware σ} {s s₁ s' : Scheduler σ} {t : Turn σ}
  {fs new : List (Frame σ)} {evs : List SchedEvent}

theorem CallPushes.plain {c : ProcCall} (h : CallPushes s c new evs) :
    (∀ ev ∈ evs, ev.listing = false) ∧ (∀ g ∈ new, g.exits = none) ∧
      ∀ g ∈ new.tail, g.search = false := by
  cases h <;> simp [SchedEvent.listing, Frame.exits, Frame.search]

theorem Pushes.quiet (h : Pushes w s t new evs) : ∀ ev ∈ evs, ev.listing = false := by
  cases h with
  | outside h => exact h.plain.1
  | call h => exact h.plain.1
  | _ => simp [SchedEvent.listing]

/-- A part of `exit_process` follows on a part of it, or on its search. -/
theorem Pushes.exits (h : Pushes w s t new evs) {g : Frame σ} (hg : g ∈ new) {p : Nat}
    (hp : g.exits = some p) :
    (∃ f, t = .frame f ∧ f.exits = some p) ∨
      ∃ fromprocess old, t = .frame (.exitFind p fromprocess old p) ∧ p ≠ 0 ∧ s.st p = .none := by
  cases h with
  | outside h =>
      rw [h.plain.2.1 g hg] at hp
      cases hp
  | call h =>
      rcases List.mem_append.mp hg with hg | hg
      · rw [h.plain.2.1 g hg] at hp
        cases hp
      · rw [List.mem_singleton.mp hg] at hp
        cases hp
  | @findOff proc fromprocess old hproc hoff =>
      rw [List.mem_singleton.mp hg] at hp
      injection hp with hp
      subst hp
      exact .inr ⟨fromprocess, old, rfl, hproc, hoff⟩
  | @loopNext l tmp =>
      rw [List.mem_singleton.mp hg] at hp
      cases l with
      | notify proc fromprocess old => exact .inl ⟨_, rfl, hp⟩
      | _ => cases hp
  | broadcast _ =>
      simp only [List.mem_cons, List.not_mem_nil, or_false] at hg
      rcases hg with rfl | rfl <;> cases hp
  | broadcastPoll _ =>
      simp only [List.mem_cons, List.not_mem_nil, or_false] at hg
      rcases hg with rfl | rfl | rfl <;> cases hp
  | _ => simp_all [Frame.exits]

/-- A part of `exit_process` is followed by another until the process has been found,
or is not on the list. -/
theorem Pushes.keeps_exits {f : Frame σ} (h : Pushes w s (.frame f) new evs) {p : Nat}
    (hp : f.exits = some p) : (∃ g ∈ new, g.exits = some p) ∨ ∃ old, f = .exitScan p old 0 := by
  cases h with
  | scanNone =>
      injection hp with hp
      subst hp
      exact .inr ⟨_, rfl⟩
  | @loopNext l tmp =>
      cases l with
      | notify proc fromprocess old => exact .inl ⟨_, List.mem_cons_self, hp⟩
      | _ => cases hp
  | notify _ => exact .inl ⟨_, List.mem_cons_self, hp⟩
  | notifyEnd => exact .inl ⟨_, List.mem_cons_self, hp⟩
  | unlink _ => exact .inl ⟨_, List.mem_cons_self, hp⟩
  | scanNext _ _ => exact .inl ⟨_, List.mem_cons_self, hp⟩
  | _ => cases hp

/-- The end of `call_process` is followed by an exit, or by nothing if there is no more
to do. -/
theorem Pushes.keeps_calls {f : Frame σ} (h : Pushes w s (.frame f) new evs) {p : Nat}
    (hp : f.calls = some p) : (∃ g ∈ new, g.calls = some p) ∨ s.st p = .none ∨
      ∃ fromprocess old, f = .exitFind p fromprocess old 0 := by
  cases h with
  | returned _ => exact .inl ⟨_, List.mem_cons_self, hp⟩
  | findNext _ _ => exact .inl ⟨_, List.mem_cons_self, hp⟩
  | findNone =>
      injection hp with hp
      subst hp
      exact .inr (.inr ⟨_, _, rfl⟩)
  | findOff _ hoff =>
      injection hp with hp
      subst hp
      exact .inr (.inl hoff)
  | _ => cases hp

/-- Only the top frame may be a search. -/
theorem Pushes.search (h : Pushes w s t new evs) : ∀ g ∈ new.tail, g.search = false := by
  cases h with
  | outside h => exact h.plain.2.2
  | @call self msg c user k new evs h =>
      cases h <;> simp [Frame.search]
  | _ => simp [Frame.search]

theorem Called.same {q ev : Nat} {msg : MsgArg} (h : Called fw s₁ q ev msg s') :
    s'.next = s₁.next ∧ s'.processHead = s₁.processHead ∧
      ∃ evs, s'.log = s₁.log ++ evs ∧ ∀ ev ∈ evs, ev.listing = false := by
  rcases h with ⟨rfl, -⟩ | h
  · exact ⟨rfl, rfl, [], (List.append_nil _).symm, nofun⟩
  · exact ⟨h.next, h.processHead, _, h.log, by simp [SchedEvent.listing]⟩

end Pushed

/-! ## What a step does to the list -/

/-- The links after a step that logs `evs`. -/
inductive Relinks (s s' : Scheduler σ) : List SchedEvent → Prop
  | same {evs} : s'.next = s.next → s'.processHead = s.processHead →
      (∀ ev ∈ evs, ev.listing = false) → Relinks s s' evs
  | join {p evs} : p ≠ 0 → p ∉ members s.log →
      s'.next = Function.update s.next p s.processHead → s'.processHead = p →
      (∀ ev ∈ evs, ev.listing = false) → Relinks s s' (.join p :: evs)
  | leaveHead : s.processHead ≠ 0 → s'.next = s.next →
      s'.processHead = s.next s.processHead → Relinks s s' [.leave s.processHead]
  | leave {t} : t ∈ members s.log → s.next t ∈ members s.log →
      s'.next = Function.update s.next t (s.next (s.next t)) →
      s'.processHead = s.processHead → Relinks s s' [.leave (s.next t)]

section Relinks

variable {w : Width} {fw : Firmware σ} {s s' : Scheduler σ} {t : Turn σ}
  {fs : List (Frame σ)} {evs : List SchedEvent}

/-- A search at the end of the list has not found its process. -/
theorem ProcInv.notMem_of_behind (h : ProcInv s) {p : Nat} (hb : s.Behind p 0) :
    p ∉ members s.log := by
  obtain ⟨pre, suf, hsplit, hpath, hp⟩ := hb
  cases suf with
  | nil =>
      rw [hsplit, List.append_nil]
      exact hp
  | cons x suf =>
      refine absurd ?_ h.zero
      rw [hsplit, hpath.1]
      exact List.mem_append_right _ List.mem_cons_self

theorem ProcInv.head_mem (h : ProcInv s) : s.processHead ∈ members s.log ∨ s.processHead = 0 := by
  have hstart := h.path.start_eq
  cases hmembers : members s.log with
  | nil =>
      rw [hmembers] at hstart
      exact .inr hstart
  | cons x xs =>
      rw [hmembers] at hstart
      rw [hstart]
      exact .inl List.mem_cons_self

theorem ProcInv.search_top (h : ProcInv s) {g : Frame σ} (hstack : s.stack = g :: fs) :
    s.Search g := by
  have hsearches := h.searches
  rw [hstack] at hsearches
  exact hsearches.1

/-- What a step does to the process list. -/
theorem Effect.relinks (h : ProcInv s) (hstack : s.stack = t.frames ++ fs)
    (heff : Effect w fw s t fs s') : ∃ evs, s'.log = s.log ++ evs ∧ Relinks s s' evs := by
  obtain ⟨s₁, hlocal, hcall⟩ := heff
  have hsame : s'.next = s₁.next ∧ s'.processHead = s₁.processHead ∧
      ∃ evs, s'.log = s₁.log ++ evs ∧ ∀ ev ∈ evs, ev.listing = false := by
    rcases hcall with ⟨-, rfl⟩ | ⟨q, ev, msg, -, hcalled⟩
    · exact ⟨rfl, rfl, [], (List.append_nil _).symm, nofun⟩
    · exact hcalled.same
  obtain ⟨hnext, hhead, evs', hlog', hquiet'⟩ := hsame
  have hkeep : ∀ {evs}, s₁.next = s.next → s₁.processHead = s.processHead →
      s₁.log = s.log ++ evs → (∀ ev ∈ evs, ev.listing = false) →
      ∃ evs, s'.log = s.log ++ evs ∧ Relinks s s' evs := by
    intro evs hnext₁ hhead₁ hlog₁ hquiet
    refine ⟨evs ++ evs', by rw [hlog', hlog₁, List.append_assoc],
      .same (hnext.trans hnext₁) (hhead.trans hhead₁) fun ev hev => ?_⟩
    exact (List.mem_append.mp hev).elim (hquiet ev) (hquiet' ev)
  cases hlocal with
  | quiet hpush hn hh _ _ hlog => exact hkeep hn hh hlog hpush.quiet
  | returned _ hn hh _ _ hlog => exact hkeep hn hh (hlog.trans (List.append_nil _).symm) nofun
  | polled _ _ hn hh _ _ hlog => exact hkeep hn hh (hlog.trans (List.append_nil _).symm) nofun
  | inited _ _ _ _ _ hn hh _ _ hlog => exact hkeep hn hh hlog (by simp [SchedEvent.listing])
  | off _ _ hn hh _ _ hlog => exact hkeep hn hh hlog (by simp [SchedEvent.listing])
  | farewell _ _ hn hh _ _ hlog => exact hkeep hn hh hlog (by simp [SchedEvent.listing])
  | @leaveHead old s₁ hn hh _ _ hlog =>
      rcases hcall with ⟨-, rfl⟩ | ⟨q, ev, msg, hcalls, -⟩
      · have hzero := h.exits (.exitUnlink s.processHead old) (hstack ▸ List.mem_cons_self) _ rfl
        exact ⟨_, hlog, .leaveHead hzero hn hh⟩
      · cases hcalls
  | @leave old tmp s₁ htmp hn hh _ _ hlog =>
      rcases hcall with ⟨-, rfl⟩ | ⟨q, ev, msg, hcalls, -⟩
      · have hzero := h.exits (.exitScan (s.next tmp) old tmp) (hstack ▸ List.mem_cons_self) _ rfl
        have hmem : tmp ∈ members s.log := (h.search_top hstack).1.mem htmp
        exact ⟨_, hlog, .leave hmem ((h.path.next_mem hmem).resolve_right hzero) hn hh⟩
      · cases hcalls
  | @join p s₁ hp hn hh _ _ hlog =>
      have hnot : p ∉ members s.log := h.notMem_of_behind (h.search_top hstack)
      refine ⟨.join p :: evs', ?_, .join hp hnot (hnext.trans hn) (hhead.trans hh) hquiet'⟩
      rw [hlog', hlog, List.append_assoc]
      rfl

/-- The links spell out the list after the step. -/
theorem Relinks.path (h : Relinks s s' evs)
    (hpath : LinkPath s.next s.processHead (members s.log) 0)
    (hzero : 0 ∉ members s.log) (hlog : s'.log = s.log ++ evs) :
    LinkPath s'.next s'.processHead (members s'.log) 0 ∧ 0 ∉ members s'.log := by
  rw [hlog]
  cases h with
  | same hnext hhead hquiet =>
      rw [members_quiet hquiet, hnext, hhead]
      exact ⟨hpath, hzero⟩
  | @join p evs hp hnot hnext hhead hquiet =>
      rw [members_append, List.foldl_cons, foldl_relist_quiet hquiet, hnext, hhead]
      refine ⟨⟨rfl, ?_⟩, fun hmem => (List.mem_cons.mp hmem).elim (fun heq => hp heq.symm) hzero⟩
      rw [Function.update_self]
      exact hpath.congr fun x hx => Function.update_of_ne (fun heq : x = p => hnot (heq ▸ hx)) _ _
  | leaveHead hhead₀ hnext hhead =>
      rw [members_append, hnext, hhead]
      cases hmembers : members s.log with
      | nil =>
          rw [hmembers] at hpath
          exact absurd hpath hhead₀
      | cons x xs =>
          rw [hmembers] at hpath hzero
          obtain ⟨rfl, hrest⟩ := hpath
          have herase : [SchedEvent.leave s.processHead].foldl SchedEvent.relist
              (s.processHead :: xs) = xs := List.erase_cons_head _ _
          rw [herase]
          exact ⟨hrest, fun hmem => hzero (List.mem_cons_of_mem _ hmem)⟩
  | @leave t ht hr hnext hhead =>
      have hne : s.next t ≠ 0 := fun heq => hzero (heq ▸ hr)
      have hbent := hpath.unlink hzero rfl hne
      rw [if_pos ht] at hbent
      rw [members_append, hnext, hhead]
      exact ⟨hbent, fun hmem => hzero (List.erase_subset hmem)⟩

/-- A chain of processes none of which joins the list loses at most those that leave. -/
theorem Relinks.chain (h : Relinks s s' evs) (hzero : 0 ∉ members s.log) {a : Nat} {xs : List Nat}
    (hpath : LinkPath s.next a xs 0) (hxs : 0 ∉ xs) (hjoin : ∀ p, .join p ∈ evs → p ∉ xs) :
    ∃ xs', LinkPath s'.next a xs' 0 ∧ xs'.Sublist xs ∧ ∀ x ∈ xs, x ∉ xs' → .leave x ∈ evs := by
  cases h with
  | same hnext _ _ =>
      rw [hnext]
      exact ⟨xs, hpath, .refl _, fun x hx hnot => absurd hx hnot⟩
  | @join p evs _ _ hnext _ _ =>
      have hp := hjoin p List.mem_cons_self
      rw [hnext]
      exact ⟨xs, hpath.congr fun x hx =>
          Function.update_of_ne (fun heq : x = p => hp (heq ▸ hx)) _ _,
        .refl _, fun x hx hnot => absurd hx hnot⟩
  | leaveHead _ hnext _ =>
      rw [hnext]
      exact ⟨xs, hpath, .refl _, fun x hx hnot => absurd hx hnot⟩
  | @leave t ht hr hnext _ =>
      have hne : s.next t ≠ 0 := fun heq => hzero (heq ▸ hr)
      rw [hnext]
      refine ⟨_, hpath.unlink hxs rfl hne, ?_, fun x hx hnot => ?_⟩
      · split
        · exact List.erase_sublist
        · exact .refl _
      · by_cases hx' : x = s.next t
        · rw [hx']
          exact List.mem_cons_self
        · refine absurd ?_ hnot
          split
          · exact (List.mem_erase_of_ne hx').mpr hx
          · exact hx

end Relinks

/-! ## The list in every reachable state -/

section Inv

variable {w : Width} {fw : Firmware σ} {s s₁ s' : Scheduler σ} {t : Turn σ}
  {fs : List (Frame σ)}

/-- The frames of a step stand on those below, and parts of `exit_process` follow on
others. -/
theorem Local.stack (h : Local w fw s fs t s₁) : ∃ new, s₁.stack = new ++ fs ∧
    ∀ g ∈ new, ∀ p, g.exits = some p → (∃ f, t = .frame f ∧ f.exits = some p) ∨
      ∃ fromprocess old, t = .frame (.exitFind p fromprocess old p) ∧ p ≠ 0 := by
  cases h with
  | quiet hpush _ _ _ hstack _ =>
      refine ⟨_, hstack, fun g hg p hp => (hpush.exits hg hp).imp_right ?_⟩
      rintro ⟨fromprocess, old, hf, hne, -⟩
      exact ⟨fromprocess, old, hf, hne⟩
  | returned _ _ _ _ hstack _ => exact ⟨[], hstack, nofun⟩
  | polled _ _ _ _ _ hstack _ => exact ⟨[_], hstack, by simp [Frame.exits]⟩
  | inited _ _ _ _ _ _ _ _ hstack _ => exact ⟨[_], hstack, by simp [Frame.exits]⟩
  | @off p fromprocess old s₁ hp _ _ _ _ hstack _ =>
      refine ⟨[_], hstack, fun g hg q hq => .inr ?_⟩
      rw [List.mem_singleton.mp hg] at hq
      injection hq with hq
      subst hq
      exact ⟨fromprocess, old, rfl, hp⟩
  | farewell _ _ _ _ _ hstack _ =>
      refine ⟨[_, _], hstack, fun g hg q hq => .inl ?_⟩
      simp only [List.mem_cons, List.not_mem_nil, or_false] at hg
      rcases hg with rfl | rfl
      · cases hq
      · exact ⟨_, rfl, hq⟩
  | leaveHead _ _ _ hstack _ => exact ⟨[], hstack, nofun⟩
  | leave _ _ _ _ hstack _ => exact ⟨[], hstack, nofun⟩
  | join _ _ _ _ hstack _ => exact ⟨[], hstack, nofun⟩

/-- A turn that calls a process starts no search. -/
theorem Pushes.search_of_calls {new : List (Frame σ)} {evs : List SchedEvent}
    (h : Pushes w s t new evs) {q ev : Nat} {msg : MsgArg} (hcalls : Calls w s t q ev msg) :
    ∀ g ∈ new, g.search = false := by
  cases hcalls with
  | outside _ =>
      cases h with
      | outside h => cases h <;> simp [Frame.search]
  | thread _ =>
      cases h with
      | call h => cases h <;> simp [Frame.search]
  | start hp =>
      cases h with
      | startFound => exact absurd rfl hp
      | startNext _ hne => exact absurd rfl hne
  | _ => cases h <;> simp [Frame.search]

/-- A call is made with no search on the stack. -/
theorem Local.search_of_calls (h : Local w fw s fs t s₁) (hfs : ∀ g ∈ fs, g.search = false)
    {q ev : Nat} {msg : MsgArg} (hcalls : Calls w s t q ev msg) :
    ∀ g ∈ s₁.stack, g.search = false := by
  cases h with
  | quiet hpush _ _ _ hstack _ =>
      rw [hstack]
      exact List.forall_mem_append.mpr ⟨hpush.search_of_calls hcalls, hfs⟩
  | polled _ _ _ _ _ hstack _ =>
      rw [hstack]
      exact List.forall_mem_cons.mpr ⟨rfl, hfs⟩
  | inited _ _ _ _ _ _ _ _ hstack _ =>
      rw [hstack]
      exact List.forall_mem_cons.mpr ⟨rfl, hfs⟩
  | join _ _ _ _ hstack _ =>
      rw [hstack]
      exact hfs
  | farewell _ _ _ _ _ _ _ =>
      cases hcalls
      contradiction
  | _ => cases hcalls

/-- The searches go on where they are, or start at the head of the list. -/
theorem Pushes.searches {new : List (Frame σ)} {evs : List SchedEvent} (h : Pushes w s t new evs)
    (hpath : LinkPath s.next s.processHead (members s.log) 0)
    (hold : ∀ f, t = .frame f → s.Search f)
    (hnext : s₁.next = s.next) (hlog : s₁.log = s.log ++ evs) :
    ∀ g, new.head? = some g → s₁.Search g := by
  have hmembers : members s₁.log = members s.log := by
    rw [hlog, members_quiet h.quiet]
  have hbehind : ∀ {p tmp}, s.Behind p tmp → s₁.Behind p tmp := by
    rintro p tmp ⟨pre, suf, hsplit, hlink, hp⟩
    exact ⟨pre, suf, hmembers.trans hsplit, by rw [hnext]; exact hlink, hp⟩
  have hstart : ∀ p, s₁.Behind p s.processHead :=
    fun p => hbehind ⟨[], _, rfl, hpath, List.not_mem_nil⟩
  have hcall : ∀ {c new' evs'}, CallPushes s c new' evs' → ∀ g, new'.head? = some g →
      s₁.Search g := by
    intro c new' evs' hc g hg
    cases hc with
    | start =>
        injection hg with hg
        subst hg
        exact hstart _
    | exit =>
        injection hg with hg
        subst hg
        exact hstart _
    | poll => cases hg
    | handle _ => cases hg
    | _ =>
        injection hg with hg
        subst hg
        trivial
  intro g hg
  cases h with
  | outside h => exact hcall h g hg
  | call h =>
      cases h with
      | poll =>
          injection hg with hg
          subst hg
          trivial
      | handle _ =>
          injection hg with hg
          subst hg
          trivial
      | start => exact hcall .start g hg
      | exit => exact hcall .exit g hg
      | handleAll => exact hcall .handleAll g hg
      | run => exact hcall .run g hg
      | runPoll => exact hcall .runPoll g hg
  | returned _ =>
      injection hg with hg
      subst hg
      exact hstart _
  | findNext htmp hne =>
      injection hg with hg
      subst hg
      exact hbehind ((hold _ rfl).next htmp hne)
  | unlink hhead =>
      injection hg with hg
      subst hg
      exact ⟨hstart _, Ne.symm hhead⟩
  | scanNext htmp hne =>
      injection hg with hg
      subst hg
      obtain ⟨hb, hself⟩ := hold _ rfl
      exact ⟨hbehind (hb.next htmp hself), hne⟩
  | startNext hne htmp =>
      injection hg with hg
      subst hg
      exact hbehind ((hold _ rfl).next htmp hne)
  | ret => cases hg
  | outsideSend => cases hg
  | handleEnd => cases hg
  | pollEnd => cases hg
  | broadcastCall => cases hg
  | findNone => cases hg
  | scanNone => cases hg
  | startFound => cases hg
  | idle _ => cases hg
  | msgFree => cases hg
  | runEnd => cases hg
  | _ =>
      injection hg with hg
      subst hg
      trivial

theorem ProcInv.below (h : ProcInv s) (hstack : s.stack = t.frames ++ fs)
    (houtside : ∀ c, t = .outside c → fs = []) : ∀ g ∈ fs, g.search = false := by
  cases t with
  | frame f =>
      have hsearches := h.searches
      rw [hstack] at hsearches
      exact hsearches.2
  | outside c =>
      rw [houtside c rfl]
      exact nofun

/-- A step leaves at most one search, on top. -/
theorem Effect.searches (h : ProcInv s) (hstack : s.stack = t.frames ++ fs)
    (houtside : ∀ c, t = .outside c → fs = []) (heff : Effect w fw s t fs s') :
    s'.Searches s'.stack := by
  have hfs := h.below hstack houtside
  have hplain : ∀ {fs' : List (Frame σ)}, (∀ g ∈ fs', g.search = false) → s'.Searches fs' := by
    intro fs' hplain
    cases fs' with
    | nil => trivial
    | cons g gs =>
        exact ⟨search_of_not _ (hplain g List.mem_cons_self),
          fun g' hg' => hplain g' (List.mem_cons_of_mem _ hg')⟩
  obtain ⟨s₁, hlocal, ⟨-, rfl⟩ | ⟨q, ev, msg, hcalls, ⟨rfl, -⟩ | henters⟩⟩ := heff
  · cases hlocal with
    | @quiet _ new evs _ hpush hnext _ _ hnew hlog =>
        have htop : ∀ f, t = .frame f → s.Search f := by
          rintro f rfl
          exact h.search_top hstack
        have hhead := hpush.searches h.path htop hnext hlog
        rw [hnew]
        cases new with
        | nil => exact hplain hfs
        | cons g gs =>
            exact ⟨hhead g rfl, List.forall_mem_append.mpr ⟨hpush.search, hfs⟩⟩
    | returned _ _ _ _ hnew _ => exact hplain (hnew ▸ hfs)
    | polled _ _ _ _ _ hnew _ => exact hplain (hnew ▸ List.forall_mem_cons.mpr ⟨rfl, hfs⟩)
    | inited _ _ _ _ _ _ _ _ hnew _ => exact hplain (hnew ▸ List.forall_mem_cons.mpr ⟨rfl, hfs⟩)
    | off _ _ _ _ _ hnew _ => exact hplain (hnew ▸ List.forall_mem_cons.mpr ⟨rfl, hfs⟩)
    | farewell _ _ _ _ _ hnew _ =>
        exact hplain (hnew ▸ List.forall_mem_cons.mpr ⟨rfl, List.forall_mem_cons.mpr ⟨rfl, hfs⟩⟩)
    | leaveHead _ _ _ hnew _ => exact hplain (hnew ▸ hfs)
    | leave _ _ _ _ hnew _ => exact hplain (hnew ▸ hfs)
    | join _ _ _ _ hnew _ => exact hplain (hnew ▸ hfs)
  · exact hplain (hlocal.search_of_calls hfs hcalls)
  · obtain ⟨thread, -, hnew⟩ := henters.stack
    rw [hnew]
    exact ⟨trivial, List.forall_mem_cons.mpr ⟨rfl, hlocal.search_of_calls hfs hcalls⟩⟩

/-- The frames and the log after a step. -/
theorem Effect.stack (heff : Effect w fw s t fs s') : ∃ new, s'.stack = new ++ fs ∧
    ∀ g ∈ new, ∀ p, g.exits = some p → (∃ f, t = .frame f ∧ f.exits = some p) ∨
      ∃ fromprocess old, t = .frame (.exitFind p fromprocess old p) ∧ p ≠ 0 := by
  obtain ⟨s₁, hlocal, ⟨-, rfl⟩ | ⟨q, ev, msg, -, ⟨rfl, -⟩ | henters⟩⟩ := heff
  · exact hlocal.stack
  · exact hlocal.stack
  · obtain ⟨new, hstack₁, hexits⟩ := hlocal.stack
    obtain ⟨thread, -, hstack⟩ := henters.stack
    refine ⟨_ :: _ :: new, by rw [hstack, hstack₁]; rfl, fun g hg p hp => ?_⟩
    rcases List.mem_cons.mp hg with rfl | hg
    · cases hp
    · rcases List.mem_cons.mp hg with rfl | hg
      · cases hp
      · exact hexits g hg p hp

/-- A process that has just left is not on the list. -/
theorem ProcInv.mem_leave (h : ProcInv s) {p q : Nat}
    (hp : p ∈ members (s.log ++ [.leave q])) : p ≠ q ∧ p ∈ members s.log := by
  have hnodup := h.path.nodup h.zero
  rw [members_append] at hp
  exact (hnodup.mem_erase_iff).mp hp

theorem mem_members_join {log : List SchedEvent} {p q : Nat}
    (hp : p ∈ members (log ++ [.join q])) : p = q ∨ p ∈ members log := by
  rw [members_append] at hp
  exact List.mem_cons.mp hp

/-- A frame of the stack is below the top, or it is its turn. -/
theorem frame_below {π : Frame σ → Option Nat} (hstack : s.stack = t.frames ++ fs) {p : Nat}
    (h : ∃ f ∈ s.stack, π f = some p) :
    (∃ f ∈ fs, π f = some p) ∨ ∃ f, t = .frame f ∧ π f = some p := by
  obtain ⟨f, hf, hp⟩ := h
  rw [hstack] at hf
  rcases List.mem_append.mp hf with hf | hf
  · cases t with
    | frame g => exact .inr ⟨g, rfl, List.mem_singleton.mp hf ▸ hp⟩
    | outside c => cases hf
  · exact .inl ⟨f, hf, hp⟩

theorem ne_of_update {st : Nat → ProcessState} {p q : Nat} {v v' : ProcessState}
    (h : Function.update st q v p = v') (hne : v ≠ v') : p ≠ q ∧ st p = v' := by
  rcases eq_or_ne p q with rfl | hpq
  · rw [Function.update_self] at h
    exact absurd h hne
  · rw [Function.update_of_ne hpq] at h
    exact ⟨hpq, h⟩

/-- Behind the local part, a process of the list that is off duty is in the middle of
its exit. -/
theorem Local.off_duty (h : ProcInv s) (hstack : s.stack = t.frames ++ fs)
    (hlocal : Local w fw s fs t s₁) :
    ∀ p ∈ members s₁.log, s₁.st p = .none → ∃ f ∈ s₁.stack, f.exits = some p := by
  obtain ⟨new, hnew, -⟩ := hlocal.stack
  have hbefore : ∀ {p}, p ∈ members s.log → s.st p = .none →
      (∃ f ∈ s₁.stack, f.exits = some p) ∨ ∃ f, t = .frame f ∧ f.exits = some p := by
    intro p hp hoff
    refine (frame_below hstack (h.off p hp hoff)).imp_left ?_
    rintro ⟨f, hf, hexits⟩
    exact ⟨f, hnew ▸ List.mem_append_right _ hf, hexits⟩
  intro p hp hoff
  cases hlocal with
  | quiet hpush _ _ hst hnew hlog =>
      rw [hlog, members_quiet hpush.quiet] at hp
      rw [hst] at hoff
      rcases hbefore hp hoff with hf | ⟨f, rfl, hexits⟩
      · exact hf
      · rcases hpush.keeps_exits hexits with ⟨g, hg, hexits'⟩ | ⟨old, rfl⟩
        · exact ⟨g, hnew ▸ List.mem_append_left _ hg, hexits'⟩
        · exact absurd hp (h.notMem_of_behind (h.search_top hstack).1)
  | returned _ _ _ hst _ hlog =>
      rw [hlog] at hp
      rw [hst] at hoff
      rcases hbefore hp (ne_of_update hoff nofun).2 with hf | ⟨f, hf, hexits⟩
      · exact hf
      · cases hf
        cases hexits
  | polled _ _ _ _ hst _ hlog =>
      rw [hlog] at hp
      rw [hst] at hoff
      rcases hbefore hp (ne_of_update hoff nofun).2 with hf | ⟨f, hf, hexits⟩
      · exact hf
      · cases hf
        cases hexits
  | inited _ _ _ _ _ _ _ hst _ hlog =>
      rw [hlog, members_quiet (by simp [SchedEvent.listing])] at hp
      rw [hst] at hoff
      rcases hbefore hp (ne_of_update hoff nofun).2 with hf | ⟨f, hf, hexits⟩
      · exact hf
      · cases hf
        cases hexits
  | @off q fromprocess old _ _ _ _ _ hst hnew hlog =>
      rw [hlog, members_event (by rfl)] at hp
      rcases eq_or_ne p q with rfl | hne
      · exact ⟨_, hnew ▸ List.mem_cons_self, rfl⟩
      · rw [hst, Function.update_of_ne hne] at hoff
        rcases hbefore hp hoff with hf | ⟨f, hf, hexits⟩
        · exact hf
        · cases hf
          cases hexits
  | @farewell q fromprocess old _ _ _ _ _ _ hst hnew hlog =>
      rw [hlog, members_event (by rfl)] at hp
      rw [hst] at hoff
      rcases hbefore hp hoff with hf | ⟨f, hf, hexits⟩
      · exact hf
      · cases hf
        exact ⟨.exitUnlink q old, hnew ▸ List.mem_cons_of_mem _ List.mem_cons_self, hexits⟩
  | leaveHead _ _ hst _ hlog =>
      rw [hlog] at hp
      rw [hst] at hoff
      obtain ⟨hne, hp⟩ := h.mem_leave hp
      rcases hbefore hp hoff with hf | ⟨f, hf, hexits⟩
      · exact hf
      · cases hf
        injection hexits with hexits
        exact absurd hexits.symm hne
  | leave _ _ _ hst _ hlog =>
      rw [hlog] at hp
      rw [hst] at hoff
      obtain ⟨hne, hp⟩ := h.mem_leave hp
      rcases hbefore hp hoff with hf | ⟨f, hf, hexits⟩
      · exact hf
      · cases hf
        injection hexits with hexits
        exact absurd hexits.symm hne
  | join _ _ _ hst _ hlog =>
      rw [hlog] at hp
      rw [hst] at hoff
      obtain ⟨hne, hoff⟩ := ne_of_update hoff nofun
      rcases hbefore ((mem_members_join hp).resolve_left hne) hoff with hf | ⟨f, hf, hexits⟩
      · exact hf
      · cases hf
        cases hexits

/-- Behind the local part, a process of the list that is marked as called is about to
return, or to exit. -/
theorem Local.on_call (h : ProcInv s) (hstack : s.stack = t.frames ++ fs)
    (hlocal : Local w fw s fs t s₁) :
    ∀ p ∈ members s₁.log, s₁.st p = .called → ∃ f ∈ s₁.stack, f.calls = some p := by
  obtain ⟨new, hnew, -⟩ := hlocal.stack
  have hbefore : ∀ {p}, p ∈ members s.log → s.st p = .called →
      (∃ f ∈ s₁.stack, f.calls = some p) ∨ ∃ f, t = .frame f ∧ f.calls = some p := by
    intro p hp hcalled
    refine (frame_below hstack (h.called p hp hcalled)).imp_left ?_
    rintro ⟨f, hf, hcalls⟩
    exact ⟨f, hnew ▸ List.mem_append_right _ hf, hcalls⟩
  intro p hp hcalled
  cases hlocal with
  | quiet hpush _ _ hst hnew hlog =>
      rw [hlog, members_quiet hpush.quiet] at hp
      rw [hst] at hcalled
      rcases hbefore hp hcalled with hf | ⟨f, rfl, hcalls⟩
      · exact hf
      · rcases hpush.keeps_calls hcalls with ⟨g, hg, hcalls'⟩ | hoff | ⟨fromprocess, old, rfl⟩
        · exact ⟨g, hnew ▸ List.mem_append_left _ hg, hcalls'⟩
        · rw [hoff] at hcalled
          cases hcalled
        · exact absurd hp (h.notMem_of_behind (h.search_top hstack))
  | returned _ _ _ hst _ hlog =>
      rw [hlog] at hp
      rw [hst] at hcalled
      obtain ⟨hne, hcalled⟩ := ne_of_update hcalled nofun
      rcases hbefore hp hcalled with hf | ⟨f, hf, hcalls⟩
      · exact hf
      · cases hf
        injection hcalls with hcalls
        exact absurd hcalls.symm hne
  | polled _ _ _ _ hst _ hlog =>
      rw [hlog] at hp
      rw [hst] at hcalled
      rcases hbefore hp (ne_of_update hcalled nofun).2 with hf | ⟨f, hf, hcalls⟩
      · exact hf
      · cases hf
        cases hcalls
  | inited _ _ _ _ _ _ _ hst _ hlog =>
      rw [hlog, members_quiet (by simp [SchedEvent.listing])] at hp
      rw [hst] at hcalled
      rcases hbefore hp (ne_of_update hcalled nofun).2 with hf | ⟨f, hf, hcalls⟩
      · exact hf
      · cases hf
        cases hcalls
  | off _ _ _ _ hst _ hlog =>
      rw [hlog, members_event (by rfl)] at hp
      rw [hst] at hcalled
      obtain ⟨hne, hcalled⟩ := ne_of_update hcalled nofun
      rcases hbefore hp hcalled with hf | ⟨f, hf, hcalls⟩
      · exact hf
      · cases hf
        injection hcalls with hcalls
        exact absurd hcalls.symm hne
  | farewell _ _ _ _ hst _ hlog =>
      rw [hlog, members_event (by rfl)] at hp
      rw [hst] at hcalled
      rcases hbefore hp hcalled with hf | ⟨f, hf, hcalls⟩
      · exact hf
      · cases hf
        cases hcalls
  | leaveHead _ _ hst _ hlog =>
      rw [hlog] at hp
      rw [hst] at hcalled
      rcases hbefore (h.mem_leave hp).2 hcalled with hf | ⟨f, hf, hcalls⟩
      · exact hf
      · cases hf
        cases hcalls
  | leave _ _ _ hst _ hlog =>
      rw [hlog] at hp
      rw [hst] at hcalled
      rcases hbefore (h.mem_leave hp).2 hcalled with hf | ⟨f, hf, hcalls⟩
      · exact hf
      · cases hf
        cases hcalls
  | join _ _ _ hst _ hlog =>
      rw [hlog] at hp
      rw [hst] at hcalled
      obtain ⟨hne, hcalled⟩ := ne_of_update hcalled nofun
      rcases hbefore ((mem_members_join hp).resolve_left hne) hcalled with hf | ⟨f, hf, hcalls⟩
      · exact hf
      · cases hf
        cases hcalls

/-- Every step keeps the state of the process list. -/
theorem Effect.procInv (h : ProcInv s) (hstack : s.stack = t.frames ++ fs)
    (houtside : ∀ c, t = .outside c → fs = []) (heff : Effect w fw s t fs s') : ProcInv s' := by
  obtain ⟨evs, hlog, hrelinks⟩ := heff.relinks h hstack
  obtain ⟨hpath, hzero⟩ := hrelinks.path h.path h.zero hlog
  refine ⟨hpath, hzero, heff.searches h hstack houtside, ?_, ?_, ?_⟩
  · obtain ⟨new, hnew, hexits⟩ := heff.stack
    intro g hg p hp
    rw [hnew] at hg
    rcases List.mem_append.mp hg with hg | hg
    · rcases hexits g hg p hp with ⟨f, rfl, hf⟩ | ⟨_, _, -, hne⟩
      · exact h.exits f (hstack ▸ List.mem_cons_self) p hf
      · exact hne
    · exact h.exits g (hstack ▸ List.mem_append_right _ hg) p hp
  · obtain ⟨s₁, hlocal, ⟨-, rfl⟩ | ⟨q, ev, msg, -, ⟨rfl, -⟩ | henters⟩⟩ := heff
    · exact hlocal.off_duty h hstack
    · exact hlocal.off_duty h hstack
    · intro p hp hoff
      rw [henters.members] at hp
      rw [henters.st] at hoff
      obtain ⟨f, hf, hexits⟩ := hlocal.off_duty h hstack p hp (ne_of_update hoff nofun).2
      obtain ⟨thread, -, hnew⟩ := henters.stack
      exact ⟨f, hnew ▸ List.mem_cons_of_mem _ (List.mem_cons_of_mem _ hf), hexits⟩
  · obtain ⟨s₁, hlocal, ⟨-, rfl⟩ | ⟨q, ev, msg, -, ⟨rfl, -⟩ | henters⟩⟩ := heff
    · exact hlocal.on_call h hstack
    · exact hlocal.on_call h hstack
    · intro p hp hcalled
      obtain ⟨thread, -, hnew⟩ := henters.stack
      rcases eq_or_ne p q with rfl | hne
      · exact ⟨_, hnew ▸ List.mem_cons_of_mem _ List.mem_cons_self, rfl⟩
      · rw [henters.members] at hp
        rw [henters.st, Function.update_of_ne hne] at hcalled
        obtain ⟨f, hf, hcalls⟩ := hlocal.on_call h hstack p hp hcalled
        exact ⟨f, hnew ▸ List.mem_cons_of_mem _ (List.mem_cons_of_mem _ hf), hcalls⟩

end Inv

/-- `p` is on the list that starts at `process_head`. -/
def Scheduler.Listed (s : Scheduler σ) (p : Nat) : Prop :=
  ∃ ps, LinkPath s.next s.processHead ps 0 ∧ 0 ∉ ps ∧ p ∈ ps

/-- The log says who is on the list. -/
theorem ProcInv.listed_iff {s : Scheduler σ} (h : ProcInv s) (p : Nat) :
    s.Listed p ↔ p ∈ members s.log := by
  constructor
  · rintro ⟨ps, hpath, hzero, hp⟩
    rw [h.path.unique hpath h.zero hzero]
    exact hp
  · intro hp
    exact ⟨_, h.path, h.zero, hp⟩

theorem schedulerInit_procInv (mem : Mem) (buffer len : Nat) (user : σ) :
    ProcInv (schedulerInit mem buffer len user) where
  path := rfl
  zero := List.not_mem_nil
  searches := trivial
  exits := nofun
  off := nofun
  called := nofun

/-- The state of the process list holds in every run. -/
theorem sched_procInv (w : Width) (fw : Firmware σ) (n : Nat) :
    (schedSystem w fw n).Invariant ProcInv := by
  apply TSys.Inductive.invariant
  constructor
  · rintro s ⟨mem, buffer, user, -, -, rfl⟩
    exact schedulerInit_procInv mem buffer n user
  · rintro s i s' hinv ⟨-, hstep⟩
    obtain ⟨t, fs, hstack, houtside, heff⟩ := hstep.effect
    exact heff.procInv hinv hstack houtside

end EmbeddedMx
