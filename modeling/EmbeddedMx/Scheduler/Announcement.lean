import EmbeddedMx.Scheduler.Liveness
import EmbeddedMx.Scheduler.Rounds

/-!
# An exit is announced

`exit_process` takes a process off duty, tells every other process of the list, and
only then takes the process out of the list. A process that is told may exit, start
and call others. The announcement reaches everyone who stays on the list, once, as
long as every listed process that the loop comes to can be called, the process is
not exited a second time meanwhile, and none is started again that has left the list
with the loop standing in front of it.
-/

namespace EmbeddedMx

open EmbeddedMx.Lib

variable {σ : Type}

/-- The process whose exit is announced by this frame. -/
def Frame.notifies : Frame σ → Option Nat
  | .loop (.notify p _ _) _ => some p
  | .loopNext (.notify p _ _) _ => some p
  | _ => none

/-- What the frame, with the frames `fs` below it, must meet so that no announcement
goes wrong: a listed process that is told can be called, no process is found for its
exit while its exit is announced, and no process is started that a loop will come to. -/
def Frame.Announces (fw : Firmware σ) (s : Scheduler σ) (fs : List (Frame σ)) : Frame σ → Prop
  | .loop (.notify proc _ _) tmp => tmp ≠ proc → s.Listed tmp →
      s.st tmp = .running ∧ (fw.thread tmp).isSome
  | .exitFind proc _ _ tmp => tmp = proc → ∀ g ∈ fs, g.notifies ≠ some proc
  | .startFind p tmp => p ≠ 0 → tmp = 0 → ∀ g ∈ fs, ∀ proc fromprocess old x,
      g = .loopNext (.notify proc fromprocess old) x → ∀ k, s.next^[k] x ≠ p
  | _ => True

/-- The runs in which threads do not run the scheduler and every step meets this. -/
def announceSystem (w : Width) (fw : Firmware σ) (n : Nat) :
    TSys (Scheduler σ) (Option (σ × ApiCall)) :=
  (schedSystem w fw n).restrict fun s i =>
    (i = none → s.issues none ≠ some (.proc .run)) ∧
    ∀ f fs, s.stack = f :: fs → f.Announces fw s fs

/-- The thread of `q` is told that `proc` exits. -/
def told (proc q : Nat) : SchedEvent := .enter q processEvFinished (.finished proc)

section Functions

variable {w : Width} {fw : Firmware σ} {s s' : Scheduler σ} {t : Turn σ}
  {fs new : List (Frame σ)} {evs : List SchedEvent}

theorem Frame.exits_of_notifies {g : Frame σ} {p : Nat} (h : g.notifies = some p) :
    g.exits = some p := by
  cases g with
  | loop l tmp =>
      cases l with
      | notify _ _ _ => exact h
      | _ => cases h
  | loopNext l tmp =>
      cases l with
      | notify _ _ _ => exact h
      | _ => cases h
  | _ => cases h

theorem Pushes.notifies (h : Pushes w s t new evs) {g : Frame σ} (hg : g ∈ new) {p : Nat}
    (hp : g.notifies = some p) : ∃ f, t = .frame f ∧ f.notifies = some p := by
  rcases h.exits hg (Frame.exits_of_notifies hp) with ⟨f, rfl, hf⟩ | ⟨fromprocess, old, rfl, -, -⟩
  · refine ⟨f, rfl, ?_⟩
    cases f with
    | exitUnlink proc old =>
        cases h
        rw [List.mem_singleton.mp hg] at hp
        cases hp
    | exitScan proc old tmp =>
        cases h with
        | scanNone => cases hg
        | scanNext _ _ =>
            rw [List.mem_singleton.mp hg] at hp
            cases hp
    | loop l tmp =>
        cases l with
        | notify _ _ _ => exact hf
        | _ => cases hf
    | loopNext l tmp =>
        cases l with
        | notify _ _ _ => exact hf
        | _ => cases hf
    | _ => cases hf
  · cases h with
    | findNone => cases hg
    | findOff _ _ =>
        rw [List.mem_singleton.mp hg] at hp
        cases hp
    | findNext _ hne => exact absurd rfl hne

/-- The announcement of an exit goes on, or starts where the process goes off duty. -/
theorem Effect.notifies (h : Effect w fw s t fs s') : ∃ new evs, s'.stack = new ++ fs ∧
    s'.log = s.log ++ evs ∧ ∀ g ∈ new, ∀ p, g.notifies = some p →
      (∃ f, t = .frame f ∧ f.notifies = some p) ∨ .off p ∈ evs := by
  obtain ⟨s₁, hlocal, hcall⟩ := h
  have hlocal : ∃ new evs, s₁.stack = new ++ fs ∧ s₁.log = s.log ++ evs ∧
      ∀ g ∈ new, ∀ p, g.notifies = some p →
        (∃ f, t = .frame f ∧ f.notifies = some p) ∨ .off p ∈ evs := by
    cases hlocal with
    | quiet hpush _ _ _ hnew hlog =>
        exact ⟨_, _, hnew, hlog, fun g hg p hp => .inl (hpush.notifies hg hp)⟩
    | off _ _ _ _ _ hnew hlog =>
        refine ⟨[_], _, hnew, hlog, fun g hg p hp => .inr ?_⟩
        rw [List.mem_singleton.mp hg] at hp
        injection hp with hp
        exact List.mem_singleton.mpr (hp ▸ rfl)
    | farewell _ _ _ _ _ hnew hlog =>
        refine ⟨[_, _], _, hnew, hlog, fun g hg p hp => ?_⟩
        simp only [List.mem_cons, List.not_mem_nil, or_false] at hg
        rcases hg with rfl | rfl <;> cases hp
    | returned _ _ _ _ hnew hlog =>
        exact ⟨[], [], hnew, hlog.trans (List.append_nil _).symm, nofun⟩
    | polled _ _ _ _ _ hnew hlog =>
        exact ⟨[_], [], hnew, hlog.trans (List.append_nil _).symm, by simp [Frame.notifies]⟩
    | inited _ _ _ _ _ _ _ _ hnew hlog => exact ⟨[_], _, hnew, hlog, by simp [Frame.notifies]⟩
    | leaveHead _ _ _ hnew hlog => exact ⟨[], _, hnew, hlog, nofun⟩
    | leave _ _ _ _ hnew hlog => exact ⟨[], _, hnew, hlog, nofun⟩
    | join _ _ _ _ hnew hlog => exact ⟨[], _, hnew, hlog, nofun⟩
  rcases hcall with ⟨-, rfl⟩ | ⟨q, ev, msg, -, ⟨rfl, -⟩ | henters⟩
  · exact hlocal
  · exact hlocal
  · obtain ⟨new, evs, hstack, hlog, hnotifies⟩ := hlocal
    obtain ⟨thread, -, hnew⟩ := henters.stack
    refine ⟨_ :: _ :: new, evs ++ [_], by rw [hnew, hstack]; rfl,
      by rw [henters.log, hlog, List.append_assoc], fun g hg p hp => ?_⟩
    rcases List.mem_cons.mp hg with rfl | hg
    · cases hp
    · rcases List.mem_cons.mp hg with rfl | hg
      · cases hp
      · exact (hnotifies g hg p hp).imp_right (List.mem_append_left _)

/-- A loop of `exit_process` tells `tmp`, if that can be called. -/
theorem Effect.tells {proc fromprocess old tmp : Nat}
    (h : Effect w fw s (.frame (.loop (.notify proc fromprocess old) tmp)) fs s') (htmp : tmp ≠ 0) :
    s'.next = s.next ∧
    ((s'.log = s.log ∧ s'.stack = .loopNext (.notify proc fromprocess old) tmp :: fs ∧
        (tmp ≠ proc → ¬ ((fw.thread tmp).isSome ∧ s.st tmp = .running))) ∨
      (tmp ≠ proc ∧ s'.log = s.log ++ [told proc tmp] ∧ ∃ prog caller,
        s'.stack = [.thread tmp (.finished proc) prog, .called tmp processEvFinished caller] ++
          .loopNext (.notify proc fromprocess old) tmp :: fs)) := by
  obtain ⟨s₁, hlocal, hcall⟩ := h
  cases hlocal with
  | quiet hpush hnext _ hst hnew hlog =>
      cases hpush with
      | notifyEnd => exact absurd rfl htmp
      | notify _ =>
          rw [List.append_nil] at hlog
          rcases hcall with ⟨hno, rfl⟩ | ⟨q, ev, msg, hcalls, hcalled⟩
          · refine ⟨hnext, .inl ⟨hlog, hnew, fun hne => ?_⟩⟩
            exact absurd (.notify htmp (Ne.symm hne)) (hno _ _ _)
          · cases hcalls with
            | notify _ hne =>
                rcases hcalled with ⟨rfl, hnot⟩ | henters
                · rw [hst] at hnot
                  exact ⟨hnext, .inl ⟨hlog, hnew, fun _ => hnot⟩⟩
                · obtain ⟨thread, -, hstack⟩ := henters.stack
                  refine ⟨henters.next.trans hnext, .inr ⟨Ne.symm hne, ?_,
                    thread processEvFinished (.finished proc) s₁.user, s₁.processCurrent, ?_⟩⟩
                  · rw [henters.log, hlog]
                    rfl
                  · rw [hstack, hnew]
                    rfl
  | farewell _ _ _ _ _ _ _ => exact absurd rfl htmp

/-- A loop of `exit_process` is through. -/
theorem Effect.tellsNobody {proc fromprocess old : Nat}
    (h : Effect w fw s (.frame (.loop (.notify proc fromprocess old) 0)) fs s') :
    ∃ above evs, s'.stack = above ++ .exitUnlink proc old :: fs ∧ s'.log = s.log ++ evs ∧
      (∀ g ∈ above, g.exits = none) ∧ ∀ ev ∈ evs, ev = .enter proc processEvExit .null := by
  obtain ⟨s₁, hlocal, hcall⟩ := h
  have hsame : s' = s₁ := by
    rcases hcall with ⟨-, rfl⟩ | ⟨q, ev, msg, hcalls, -⟩
    · rfl
    · cases hcalls
      contradiction
  subst hsame
  cases hlocal with
  | quiet hpush _ _ _ hnew hlog =>
      cases hpush with
      | notify hne => exact absurd rfl hne
      | notifyEnd => exact ⟨[], [], hnew, hlog, nofun, nofun⟩
  | farewell _ _ _ _ _ hnew hlog =>
      exact ⟨[_], _, hnew, hlog, List.forall_mem_singleton.mpr rfl,
          List.forall_mem_singleton.mpr rfl⟩

/-- The process that exits leaves the list, or is searched for. -/
theorem Effect.unlinks {old : Nat} {f : Frame σ} (h : Effect w fw s (.frame f) fs s') {p : Nat}
    (hf : f = .exitUnlink p old ∨ ∃ tmp, f = .exitScan p old tmp) :
    (∃ tmp, s'.stack = .exitScan p old tmp :: fs) ∨ s'.stack = fs := by
  obtain ⟨s₁, hlocal, ⟨-, rfl⟩ | ⟨q, ev, msg, hcalls, -⟩⟩ := h
  · rcases hf with rfl | ⟨tmp, rfl⟩
    · cases hlocal with
      | quiet hpush _ _ _ hnew _ =>
          cases hpush
          exact .inl ⟨_, hnew⟩
      | leaveHead _ _ _ hnew _ => exact .inr hnew
    · cases hlocal with
      | quiet hpush _ _ _ hnew _ =>
          cases hpush with
          | scanNone => exact .inr hnew
          | scanNext _ _ => exact .inl ⟨_, hnew⟩
      | leave _ _ _ _ hnew _ => exact .inr hnew
  · rcases hf with rfl | ⟨tmp, rfl⟩ <;> cases hcalls

/-- A process is found for its exit and goes off duty. -/
theorem Effect.takesOff {proc fromprocess old : Nat}
    (h : Effect w fw s (.frame (.exitFind proc fromprocess old proc)) fs s') (hproc : proc ≠ 0)
    (hduty : s.st proc ≠ .none) : s'.next = s.next ∧ s'.log = s.log ++ [.off proc] ∧
      s'.stack = .loop (.notify proc fromprocess old) s.processHead :: fs := by
  obtain ⟨s₁, hlocal, ⟨-, rfl⟩ | ⟨q, ev, msg, hcalls, -⟩⟩ := h
  · cases hlocal with
    | quiet hpush _ _ _ _ _ =>
        cases hpush with
        | findNone => exact absurd rfl hproc
        | findOff _ hoff => exact absurd hoff hduty
        | findNext _ hne => exact absurd rfl hne
    | off _ _ hnext _ _ hnew hlog => exact ⟨hnext, hlog, hnew⟩
  · cases hcalls

end Functions

/-! ## One announcement -/

section Announcement

variable {w : Width} {fw : Firmware σ} {n : Nat} {proc fromprocess old : Nat}
  {rest : List (Frame σ)} {log₀ : List SchedEvent} {s s' : Scheduler σ}

/-- The announcement is on: since `log₀` the events `evs` were logged, and the processes
`xs` are still in front of the loop. -/
structure Telling (proc fromprocess old : Nat) (rest : List (Frame σ)) (log₀ : List SchedEvent)
    (s : Scheduler σ) (above : List (Frame σ)) (xs : List Nat) (evs : List SchedEvent) : Prop where
  round : s.Round (.notify proc fromprocess old) rest above xs
  exits : ∀ g ∈ above, g.exits ≠ some proc
  log : s.log = log₀ ++ evs
  kept : .leave proc ∉ evs
  counts : ∀ q ∈ members log₀, q ≠ proc → .leave q ∉ evs →
    evs.count (told proc q) = if q ∈ xs then 0 else 1

/-- The announcement is through: it has logged `pre`, and `post` came after that. -/
structure Told (proc old : Nat) (rest : List (Frame σ)) (log₀ : List SchedEvent)
    (s : Scheduler σ) (pre post : List SchedEvent) : Prop where
  stack : (∃ above, s.stack = above ++ .exitUnlink proc old :: rest ∧
      (.off proc ∉ post → ∀ g ∈ above, g.notifies ≠ some proc)) ∨
    (∃ tmp, s.stack = .exitScan proc old tmp :: rest) ∨ s.stack = rest
  log : s.log = log₀ ++ (pre ++ post)
  kept : .leave proc ∉ pre
  counts : ∀ q ∈ members log₀, q ≠ proc → .leave q ∉ pre → pre.count (told proc q) = 1
  quiet : .off proc ∉ post → ∀ q, told proc q ∉ post

/-- Only the announcement itself tells of the exit. -/
theorem told_notMem {t : Turn σ} {evs : List SchedEvent} (horigin : ∀ ev ∈ evs, ev.From s t)
    (ht : ∀ f, t = .frame f → f.notifies ≠ some proc) (q : Nat) : told proc q ∉ evs := by
  intro hmem
  obtain ⟨fromprocess, old, rfl⟩ := horigin _ hmem
  exact ht _ rfl rfl

section Step

variable {above : List (Frame σ)} {xs : List Nat} {evs : List SchedEvent}

/-- A step of a frame above the loop. -/
theorem Telling.step_above {g : Frame σ} {tmp : Nat}
    (h : Telling proc fromprocess old rest log₀ s (g :: above) xs evs) (hinv : ProcInv s)
    (hstack : s.stack = g :: (above ++ .loopNext (.notify proc fromprocess old) tmp :: rest))
    (hahead : s.Ahead tmp xs)
    (hok : g.Announces fw s (above ++ .loopNext (.notify proc fromprocess old) tmp :: rest))
    (heff : Effect w fw s (.frame g) (above ++ .loopNext (.notify proc fromprocess old) tmp :: rest)
      s') :
    ∃ above' xs' evs', Telling proc fromprocess old rest log₀ s' above' xs' evs' := by
  obtain ⟨new, hnew, hnewexits⟩ := heff.stack
  obtain ⟨evs', hlog', horigin⟩ := heff.origin
  have hg := h.exits g List.mem_cons_self
  have hjoin : ∀ p, .join p ∈ evs' → p ∉ tmp :: xs := by
    intro p hp hmem
    have hturn := horigin _ hp
    injection hturn with hturn
    subst hturn
    obtain ⟨k, hk⟩ := hahead.1.reached hmem
    have hzero : p ≠ 0 := fun heq => hahead.2 (heq ▸ hmem)
    exact hok hzero rfl _ (List.mem_append_right _ List.mem_cons_self) proc fromprocess old tmp rfl
      k hk
  obtain ⟨xs', hahead', hsub, hleft⟩ := heff.ahead hinv hstack hahead hlog' hjoin
  refine ⟨new ++ above, xs', evs ++ evs', .above (by rw [hnew, List.append_assoc]) hahead', ?_,
    by rw [hlog', h.log, List.append_assoc], ?_, ?_⟩
  · intro f hf hproc
    rcases List.mem_append.mp hf with hf | hf
    · rcases hnewexits f hf proc hproc with ⟨f', hturn, hf'⟩ | ⟨fromprocess', old', hturn, -⟩
      · injection hturn with hturn
        exact hg (hturn ▸ hf')
      · injection hturn with hturn
        subst hturn
        exact hok rfl _ (List.mem_append_right _ List.mem_cons_self) rfl
    · exact h.exits f (List.mem_cons_of_mem _ hf) hproc
  · intro hmem
    rcases List.mem_append.mp hmem with hmem | hmem
    · exact h.kept hmem
    · obtain ⟨f, hturn, hf⟩ := horigin _ hmem
      injection hturn with hturn
      exact hg (hturn ▸ hf)
  · intro q hq hne hstay
    obtain ⟨hstay, hstay'⟩ := not_or.mp (List.mem_append.not.mp hstay)
    have hquiet : told proc q ∉ evs' := told_notMem horigin (fun f hf hproc => by
      injection hf with hf
      exact hg (hf ▸ Frame.exits_of_notifies hproc)) q
    have hiff : q ∈ xs' ↔ q ∈ xs :=
      ⟨fun h => hsub.subset h, fun h => Classical.byContradiction fun hnot =>
      hstay' (hleft q h hnot)⟩
    rw [List.count_append, List.count_eq_zero.mpr hquiet, h.counts q hq hne hstay]
    simp only [hiff]
    rfl

/-- The loop looks at its next process. -/
theorem Telling.step_here {tmp : Nat}
    (h : Telling proc fromprocess old rest log₀ s above xs evs) (hinv : ProcInv s)
    (hpath : LinkPath s.next tmp xs 0) (hzero : 0 ∉ xs)
    (hok : tmp ≠ proc → s.Listed tmp → s.st tmp = .running ∧ (fw.thread tmp).isSome)
    (heff : Effect w fw s (.frame (.loop (.notify proc fromprocess old) tmp)) rest s') :
    (∃ above' xs' evs', Telling proc fromprocess old rest log₀ s' above' xs' evs') ∨
      ∃ pre post, Told proc old rest log₀ s' pre post := by
  cases xs with
  | nil =>
      -- the end of the list
      obtain rfl : tmp = 0 := hpath
      obtain ⟨above', post, hstack, hlog, habove, hpost⟩ := heff.tellsNobody
      refine .inr ⟨evs, post, .inl ⟨above', hstack, fun _ g hg hproc => ?_⟩,
        by rw [hlog, h.log, List.append_assoc], h.kept, fun q hq hne hstay => ?_,
            fun _ q hmem => ?_⟩
      · have hexits := Frame.exits_of_notifies hproc
        rw [habove g hg] at hexits
        cases hexits
      · exact h.counts q hq hne hstay
      · cases hpost _ hmem
  | cons x xs =>
      obtain ⟨rfl, hrest⟩ := hpath
      have htmp : tmp ≠ 0 := fun heq => hzero (heq ▸ List.mem_cons_self)
      have hnodup := List.nodup_cons.mp ((show LinkPath s.next tmp (tmp :: xs) 0 from
        ⟨rfl, hrest⟩).nodup hzero)
      obtain ⟨hnext, ⟨hlog, hstack, hnot⟩ | ⟨hne, hlog, prog, caller, hstack⟩⟩ := heff.tells htmp
      · -- nobody is called: it is the process itself, or it is not on the list
        refine .inl ⟨[], xs, evs, .above hstack ⟨by rw [hnext]; exact ⟨rfl, hrest⟩, hzero⟩, nofun,
          hlog.trans h.log, h.kept, fun q hq hne hstay => ?_⟩
        have hqtmp : q ≠ tmp := by
          rintro rfl
          have hlisted : s.Listed q := (hinv.listed_iff q).mpr (by
            rw [h.log]
            exact mem_members_append hq hstay)
          obtain ⟨hrun, hthread⟩ := hok hne hlisted
          exact hnot hne ⟨hthread, hrun⟩
        rw [h.counts q hq hne hstay]
        simp [hqtmp]
      · refine .inl ⟨_, xs, evs ++ [told proc tmp], .above hstack
          ⟨by rw [hnext]; exact ⟨rfl, hrest⟩, hzero⟩, by simp [Frame.exits],
          by rw [hlog, h.log, List.append_assoc], ?_, fun q hq hne hstay => ?_⟩
        · intro hmem
          rcases List.mem_append.mp hmem with hmem | hmem
          · exact h.kept hmem
          · cases List.mem_singleton.mp hmem
        · have hstay : .leave q ∉ evs := fun hmem => hstay (List.mem_append_left _ hmem)
          rw [List.count_append, h.counts q hq hne hstay]
          rcases eq_or_ne q tmp with rfl | hqtmp
          · rw [if_pos List.mem_cons_self, if_neg hnodup.1, List.count_singleton_self]
          · have hother : told proc tmp ≠ told proc q := by
              intro heq
              injection heq with heq
              exact hqtmp heq.symm
            rw [List.count_eq_zero.mpr fun hmem => hother (List.mem_singleton.mp hmem).symm]
            simp [hqtmp]

/-- The loop goes on to its next process. -/
theorem Telling.step_next {tmp : Nat} (h : Telling proc fromprocess old rest log₀ s above xs evs)
    (hahead : s.Ahead tmp xs)
    (heff : Effect w fw s (.frame (.loopNext (.notify proc fromprocess old) tmp)) rest s') :
    Telling proc fromprocess old rest log₀ s' [] xs evs := by
  obtain ⟨hnext, hstack, hlog⟩ := heff.loopNext
  refine ⟨.here hstack ?_ fun hmem => hahead.2 (List.mem_cons_of_mem _ hmem), nofun,
    hlog.trans h.log, h.kept, h.counts⟩
  rw [hnext]
  exact hahead.1.2

/-- A step of the announcement. -/
theorem Telling.step (h : Telling proc fromprocess old rest log₀ s above xs evs)
    (hinv : ProcInv s) (hok : ∀ f fs, s.stack = f :: fs → f.Announces fw s fs)
    (hstep : SchedStep w fw s none s') :
    (∃ above' xs' evs', Telling proc fromprocess old rest log₀ s' above' xs' evs') ∨
      ∃ pre post, Told proc old rest log₀ s' pre post := by
  cases hstep with
  | @exec f fs hstack =>
      have heff := execFrame_effect w fw s fs f
      have hok := hok f fs hstack
      cases h.round with
      | here htop hpath hzero =>
          rw [htop] at hstack
          injection hstack with hf hfs
          subst hf
          subst hfs
          exact h.step_here hinv hpath hzero hok heff
      | @above _ tmp _ htop hahead =>
          rw [htop] at hstack
          cases above with
          | nil =>
              injection hstack with hf hfs
              subst hf
              subst hfs
              exact .inl ⟨[], _, evs, h.step_next hahead heff⟩
          | cons g above =>
              injection hstack with hf hfs
              subst hf
              subst hfs
              exact .inl (h.step_above hinv htop hahead hok heff)

/-- A step behind the announcement. -/
theorem Told.step {pre post : List SchedEvent} (h : Told proc old rest log₀ s pre post)
    (hinside : rest.length < s.stack.length) (hstep : SchedStep w fw s none s') :
    ∃ post', Told proc old rest log₀ s' pre post' := by
  cases hstep with
  | @exec f fs hstack =>
      have heff := execFrame_effect w fw s fs f
      obtain ⟨new, evs, hnew, hlog, hnotifies⟩ := heff.notifies
      obtain ⟨evs', hlog', horigin⟩ := heff.origin
      obtain rfl : evs' = evs := List.append_cancel_left (hlog'.symm.trans hlog)
      -- what holds of any step, once it is known which frames stand above
      have hgo : (.off proc ∉ post → f.notifies ≠ some proc) →
          ((∃ above, (execFrame w fw { s with stack := fs } f).stack
              = above ++ .exitUnlink proc old :: rest ∧
              (.off proc ∉ post ++ evs' → ∀ g ∈ above, g.notifies ≠ some proc)) ∨
            (∃ tmp, (execFrame w fw { s with stack := fs } f).stack
              = .exitScan proc old tmp :: rest) ∨
            (execFrame w fw { s with stack := fs } f).stack = rest) →
          ∃ post', Told proc old rest log₀ (execFrame w fw { s with stack := fs } f) pre post' := by
        intro hf hstack'
        refine ⟨post ++ evs', hstack', by rw [hlog, h.log, List.append_assoc, List.append_assoc],
          h.kept, h.counts, fun hoff q hmem => ?_⟩
        have hoff : .off proc ∉ post := fun hmem => hoff (List.mem_append_left _ hmem)
        rcases List.mem_append.mp hmem with hmem | hmem
        · exact h.quiet hoff q hmem
        · refine told_notMem horigin (fun f' hf' => ?_) q hmem
          injection hf' with hf'
          exact hf' ▸ hf hoff
      rcases h.stack with ⟨above, htop, habove⟩ | ⟨tmp, htop⟩ | hend
      · rw [hstack] at htop
        cases above with
        | nil =>
            injection htop with hf hfs
            subst hf
            subst hfs
            exact hgo (fun _ => nofun) (.inr (heff.unlinks (.inl rfl)))
        | cons g above =>
            injection htop with hf hfs
            subst hf
            subst hfs
            refine hgo (fun hoff => habove hoff _ List.mem_cons_self)
              (.inl ⟨new ++ above, hnew.trans (List.append_assoc _ _ _).symm,
              fun hoff g hg hproc => ?_⟩)
            obtain ⟨hoff, hoff'⟩ := not_or.mp (List.mem_append.not.mp hoff)
            rcases List.mem_append.mp hg with hg | hg
            · rcases hnotifies g hg proc hproc with ⟨f', hf', hproc'⟩ | hmem
              · injection hf' with hf'
                exact habove hoff _ List.mem_cons_self (hf' ▸ hproc')
              · exact hoff' hmem
            · exact habove hoff g (List.mem_cons_of_mem _ hg) hproc
      · rw [hstack] at htop
        injection htop with hf hfs
        subst hf
        subst hfs
        exact hgo (fun _ => nofun) (.inr (heff.unlinks (.inr ⟨tmp, rfl⟩)))
      · rw [hend] at hinside
        exact absurd hinside (Nat.lt_irrefl _)

end Step

/-- An exit that is under way: it has just begun, or its announcement is on, or that is
through. -/
inductive Exiting (s₀ : Scheduler σ) (proc fromprocess old : Nat) (rest : List (Frame σ))
    (s : Scheduler σ) : Prop
  | begins : s = s₀ → Exiting s₀ proc fromprocess old rest s
  | telling {above xs evs} :
      Telling proc fromprocess old rest (s₀.log ++ [.off proc]) s above xs evs →
      Exiting s₀ proc fromprocess old rest s
  | told {pre post} : Told proc old rest (s₀.log ++ [.off proc]) s pre post →
      Exiting s₀ proc fromprocess old rest s

/-- All states inside an exit are of this form. -/
theorem Inside.exiting {s₀ : Scheduler σ} (hs : (announceSystem w fw n).Reachable s₀)
    (hstack : s₀.stack = .exitFind proc fromprocess old proc :: rest) (hproc : proc ≠ 0)
    (hduty : s₀.st proc ≠ .none) (h : Inside (announceSystem w fw n) rest.length s₀ s) :
    Exiting s₀ proc fromprocess old rest s := by
  induction h with
  | refl => exact .begins rfl
  | @step s s' h hinside hstep ih =>
      have hinv := sched_procInv w fw n s (h.reachable hs).of_restrict
      obtain ⟨⟨-, hok⟩, -, hstep⟩ := hstep
      cases ih with
      | begins heq =>
          subst heq
          cases hstep with
          | @exec f fs hstack' =>
              rw [hstack] at hstack'
              injection hstack' with hf hfs
              subst hf
              subst hfs
              obtain ⟨hnext, hlog, hnew⟩ := (execFrame_effect w fw s _ _).takesOff hproc hduty
              have hround : (execFrame w fw { s with stack := rest }
                  (.exitFind proc fromprocess old proc)).Round (.notify proc fromprocess old) rest []
                  (members s.log) := .here hnew (by rw [hnext]; exact hinv.path) hinv.zero
              refine .telling ⟨hround, nofun, hlog.trans (List.append_nil _).symm, nofun,
                fun q hq _ _ => ?_⟩
              rw [members_event (by rfl)] at hq
              rw [if_pos hq]
              rfl
      | telling htelling =>
          rcases htelling.step hinv hok hstep with ⟨above, xs, evs, h⟩ | ⟨pre, post, h⟩
          · exact .telling h
          · exact .told h
      | told htold =>
          obtain ⟨post, h⟩ := htold.step hinside hstep
          exact .told h

/-- **An exit is announced to everyone.** In every run whose steps all meet the
condition, when `exit_process` takes a running process off duty, every other process
that stays on the list throughout is told exactly once, before the process leaves the
list; a further event for it would belong to a later exit. -/
theorem exit_announced_to_everyone (w : Width) (fw : Firmware σ) (n : Nat) {s s' : Scheduler σ}
    {proc fromprocess old : Nat} {rest : List (Frame σ)}
    (hs : (announceSystem w fw n).Reachable s)
    (hstack : s.stack = .exitFind proc fromprocess old proc :: rest) (hproc : proc ≠ 0)
    (hduty : (s.procs proc).state ≠ .none)
    (hinside : Inside (announceSystem w fw n) rest.length s s') (hend : s'.stack = rest) :
    ∃ pre post, s'.log = s.log ++ .off proc :: (pre ++ post) ∧ .leave proc ∉ pre ∧
      ∀ q, q ≠ proc → s.Listed q → .leave q ∉ pre ++ post →
        pre.count (told proc q) = 1 ∧ (.off proc ∉ post → told proc q ∉ post) := by
  have hlonger : ∀ (f : Frame σ) fs, rest ≠ fs ++ f :: rest := by
    intro f fs heq
    have hlength := congrArg List.length heq
    simp at hlength
    omega
  cases hinside.exiting hs hstack hproc hduty with
  | begins heq =>
      rw [heq, hstack] at hend
      exact absurd hend.symm (hlonger _ [])
  | telling h =>
      cases h.round with
      | here htop _ _ => exact absurd (hend.symm.trans htop) (hlonger _ [])
      | above htop _ => exact absurd (hend.symm.trans htop) (hlonger _ _)
  | @told pre post h =>
      refine ⟨pre, post, by rw [h.log, List.append_assoc]; rfl, h.kept,
        fun q hne hq hstay => ?_⟩
      have hq : q ∈ members (s.log ++ [.off proc]) := by
        rw [members_event (by rfl)]
        exact ((sched_procInv w fw n s hs.of_restrict).listed_iff q).mp hq
      exact ⟨h.counts q hq hne fun hmem => hstay (List.mem_append_left _ hmem),
        fun hoff => h.quiet hoff q⟩

end Announcement

/-! ## Two processes -/

/-- A check that a step meets the condition of an announcement, for stacks on which
nobody searches during one. -/
def Scheduler.plainlyAnnounces (fw : Firmware σ) (s : Scheduler σ) : Bool :=
  decide (s.issues none ≠ some (.proc .run)) &&
    match s.stack with
    | .loop (.notify proc _ _) tmp :: _ => decide (tmp = proc ∨ tmp = 0 ∨
        s.st tmp = .running ∧ (fw.thread tmp).isSome)
    | .exitFind _ _ _ _ :: fs => decide (∀ g ∈ fs, g.notifies = none)
    | .startFind _ _ :: fs => decide (∀ g ∈ fs, g.notifies = none)
    | _ => true

theorem Scheduler.announces_of_plainly {fw : Firmware σ} {s : Scheduler σ}
    (h : s.plainlyAnnounces fw = true) : s.issues none ≠ some (.proc .run) ∧
      ∀ f fs, s.stack = f :: fs → f.Announces fw s fs := by
  obtain ⟨hrun, h⟩ := Bool.and_eq_true_iff.mp h
  refine ⟨of_decide_eq_true hrun, fun f fs hstack => ?_⟩
  rw [hstack] at h
  cases f with
  | loop l tmp =>
      cases l with
      | notify proc fromprocess old =>
          rintro hne ⟨ps, -, hzero, hps⟩
          rcases of_decide_eq_true h with heq | rfl | hok
          · exact absurd heq hne
          · exact absurd hps hzero
          · exact hok
      | _ => trivial
  | exitFind proc fromprocess old tmp =>
      intro _ g hg hproc
      rw [of_decide_eq_true h g hg] at hproc
      cases hproc
  | startFind p tmp =>
      rintro _ _ g hg proc fromprocess old x rfl
      cases of_decide_eq_true h _ hg
  | _ => trivial

/-- The place where `exit_process` has found its process. -/
def Scheduler.finds (s : Scheduler σ) (proc fromprocess old : Nat) : Bool :=
  match s.stack with
  | .exitFind p q r tmp :: _ => decide (p = proc ∧ q = fromprocess ∧ r = old ∧ tmp = proc)
  | _ => false

theorem Scheduler.stack_of_finds {s : Scheduler σ} {proc fromprocess old : Nat}
    (h : s.finds proc fromprocess old = true) :
    s.stack = .exitFind proc fromprocess old proc :: s.stack.tail := by
  unfold Scheduler.finds at h
  split at h
  · rename_i p q r tmp fs hstack
    obtain ⟨rfl, rfl, rfl, rfl⟩ := of_decide_eq_true h
    rw [hstack]
    rfl
  · cases h

/-- The main program exits process 16, which has been found. -/
def exitsFirst : Scheduler Unit :=
  let fw := couple (.ret 0 ())
  (apiCall .one fw ((startedBoth fw).steps .one fw 4) (.proc (.exit 16))).steps .one fw 1

theorem exitsFirst_reachable : ((schedSystem .one (couple (.ret 0 ())) 64).restrict
    fun s _ => s.plainlyAnnounces (couple (.ret 0 ())) = true).Reachable exitsFirst := by
  have hboth := startedBoth_reachable (couple (.ret 0 ()))
    (P := fun s _ => s.plainlyAnnounces (couple (.ret 0 ())) = true)
    (fun s p hstack => by simp [Scheduler.plainlyAnnounces, hstack, Scheduler.issues])
    (by decide +kernel) (by decide +kernel)
  refine reachable_steps (reachable_call (reachable_steps hboth ?_) ?_ ?_ ?_) ?_
  · decide +kernel
  · exact List.isEmpty_iff.mp (by decide +kernel)
  · exact show Scheduler.Started _ 16 from (by decide +kernel : (_ : Bool) = true)
  · decide +kernel
  · decide +kernel

/-- Process 16 exits, and process 32 is told. -/
theorem exit_announced_to_everyone_waiting :
    let s := exitsFirst
    let s' := s.steps .one (couple (.ret 0 ())) 11
    ∃ pre post, s'.log = s.log ++ .off 16 :: (pre ++ post) ∧ pre.count (told 16 32) = 1 := by
  intro s s'
  have hinside : Inside ((schedSystem .one (couple (.ret 0 ())) 64).restrict
      fun s _ => s.plainlyAnnounces (couple (.ret 0 ())) = true) 0 s s' :=
    Inside.steps .refl (by decide +kernel)
  have himp : ∀ (s : Scheduler Unit) (i : Option (Unit × ApiCall)),
      s.plainlyAnnounces (couple (.ret 0 ())) = true →
      (i = none → s.issues none ≠ some (.proc .run)) ∧
        ∀ f fs, s.stack = f :: fs → f.Announces (couple (.ret 0 ())) s fs :=
    fun s i h => (Scheduler.announces_of_plainly h).imp_left fun hrun _ => hrun
  have hstack : s.stack = [.exitFind 16 0 0 16] := by
    have htail : s.stack.tail = [] := List.isEmpty_iff.mp (by decide +kernel)
    have hfinds : s.finds 16 0 0 = true := by decide +kernel
    exact htail ▸ Scheduler.stack_of_finds hfinds
  have hend : s'.stack = [] := List.isEmpty_iff.mp (by decide +kernel)
  have hduty : (s.procs 16).state ≠ .none := by decide +kernel
  obtain ⟨pre, post, hlog, -, hothers⟩ := exit_announced_to_everyone .one (couple (.ret 0 ())) 64
    (exitsFirst_reachable.mono himp) hstack (by decide) hduty (hinside.mono himp) hend
  have hinv := sched_procInv .one _ 64 s exitsFirst_reachable.of_restrict
  have hlisted : s.Listed 32 := (hinv.listed_iff 32).mpr (by decide +kernel)
  refine ⟨pre, post, hlog, (hothers 32 (by decide) hlisted fun hmem => ?_).1⟩
  have hleave : SchedEvent.leave 32 ∉ s'.log := by decide +kernel
  rw [hlog] at hleave
  exact hleave (List.mem_append_right _ (List.mem_cons_of_mem _ hmem))

/-- Process 32 exits process 16 from its own thread. -/
def exitsOther : Scheduler Unit :=
  (startedBoth (couple (.call (.exit 16) () fun _ => .ret 0 ()))).steps .one
    (couple (.call (.exit 16) () fun _ => .ret 0 ())) 4

/-- Process 32 exits process 16 from its own thread; it stays on the list, but it is not
told. -/
theorem exit_announced_to_everyone_fails :
    let fw := couple (.call (.exit 16) () fun _ => .ret 0 ())
    let system := (schedSystem .one fw 64).restrict fun s _ => s.issues none ≠ some (.proc .run)
    let s' := exitsOther.steps .one fw 9
    system.Reachable exitsOther ∧
      exitsOther.stack = .exitFind 16 32 32 16 :: exitsOther.stack.tail ∧
      (exitsOther.procs 16).state = .running ∧
      Inside system exitsOther.stack.tail.length exitsOther s' ∧ s'.stack = exitsOther.stack.tail ∧
      exitsOther.Listed 32 ∧ .leave 32 ∉ s'.log ∧ told 16 32 ∉ s'.log := by
  intro fw system s'
  have hreach : system.Reachable exitsOther := by
    have hboth := startedBoth_reachable fw (P := fun s _ => s.issues none ≠ some (.proc .run))
      (fun s p hstack => by simp [Scheduler.issues, hstack]) (by decide +kernel) (by decide +kernel)
    exact reachable_steps hboth (by decide +kernel)
  have hinside : Inside system exitsOther.stack.tail.length exitsOther s' :=
    Inside.steps .refl (by decide +kernel)
  have hstack : exitsOther.stack = .exitFind 16 32 32 16 :: exitsOther.stack.tail :=
    Scheduler.stack_of_finds (by decide +kernel)
  have hend : s'.stack = exitsOther.stack.tail := by
    obtain ⟨above, habove⟩ := hinside.frames_below
      (show exitsOther.stack = [.exitFind 16 32 32 16] ++ exitsOther.stack.tail from hstack)
    have hlength : s'.stack.length = exitsOther.stack.tail.length := by decide +kernel
    have hnil : above.length = 0 := by
      rw [habove, List.length_append] at hlength
      omega
    rw [habove, List.length_eq_zero_iff.mp hnil]
    rfl
  have hinv := sched_procInv .one fw 64 exitsOther hreach.of_restrict
  exact ⟨hreach, hstack, by decide +kernel, hinside, hend,
      (hinv.listed_iff 32).mpr (by decide +kernel),
    by decide +kernel, by decide +kernel⟩

end EmbeddedMx
