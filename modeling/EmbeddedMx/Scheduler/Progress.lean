import EmbeddedMx.Scheduler.Rounds
import Mathlib.Data.Prod.Lex
import Mathlib.Data.Set.Card
import Mathlib.Order.CompletePartialOrder

/-!
# How far a delivery has come

While a message is delivered, processes are called, exit, and are started, but none
is started that has left the list since the delivery began. Then a process that is on
the list in the middle of its exit stays off duty until it has left, and is not
called. So every step that calls a process, takes one off duty or starts one brings
the delivery closer to its end: `Scheduler.rank` counts first the processes that may
still join the list or go off duty, and then those that can be called.
-/

namespace EmbeddedMx

open EmbeddedMx.Lib

variable {σ : Type}

/-- What has been logged since the state `s₀`. -/
def Scheduler.since (s s₀ : Scheduler σ) : List SchedEvent := s.log.drop s₀.log.length

/-- `p` is on the list, or has left it since `s₀`. -/
def Scheduler.Known (s s₀ : Scheduler σ) (p : Nat) : Prop :=
  p ∈ members s.log ∨ .leave p ∈ s.since s₀

/-- The process that this frame of `call_process` waits for. -/
def Frame.returns : Frame σ → Option Nat
  | .called p _ _ => some p
  | _ => none

/-- The processes that may still join the list. -/
def Scheduler.fresh (s s₀ : Scheduler σ) : Set Nat :=
  {p | p < 256 ^ sizeofPtr ∧ ¬ s.Known s₀ p}

/-- The processes of the list that are on duty. -/
def Scheduler.onDuty (s : Scheduler σ) : Set Nat := {p | p ∈ members s.log ∧ s.st p ≠ .none}

/-- The processes that can be called. -/
def Scheduler.callable (s : Scheduler σ) : Set Nat := {p | s.st p = .running}

/-- What decreases: a process counts twice until it joins the list, then once until it
goes off duty; and below that the processes that can be called. -/
noncomputable def Scheduler.rank (s s₀ : Scheduler σ) : ℕ ×ₗ ℕ :=
  toLex (2 * (s.fresh s₀).ncard + s.onDuty.ncard, s.callable.ncard)

/-- What a frame does not do in the middle of a delivery. -/
def Frame.Delivers (s s₀ : Scheduler σ) (fs : List (Frame σ)) : Frame σ → Prop
  | .startFind p tmp => tmp = 0 → p < 256 ^ sizeofPtr ∧ .leave p ∉ s.since s₀
  | .loop .poll _ => ∀ g ∈ fs, g.exits = none
  | .utilizeMessage => (letterAt s.heap.mem s.popped).receiver = processBroadcast
  | _ => True

/-- A state of a delivery that began in `s₀`. -/
structure Delivering (s₀ s : Scheduler σ) : Prop where
  log : s₀.log <+: s.log
  procs : ProcInv s
  finite : s.callable.Finite
  exits : ∀ f ∈ s.stack, ∀ p, f.exits = some p →
    s.Known s₀ p ∧ (p ∈ members s.log → s.st p = .none)
  calls : s.stack.Pairwise fun g f => ∀ p, g.returns = some p → f.exits = some p →
    p ∉ members s.log

/-! ## The log -/

section Log

variable {s₀ s s' : Scheduler σ} {evs : List SchedEvent} {p : Nat}

theorem since_append (hlog : s₀.log <+: s.log) (h : s'.log = s.log ++ evs) :
    s'.since s₀ = s.since s₀ ++ evs := by
  unfold Scheduler.since
  rw [h, List.drop_append_of_le_length hlog.length_le]

theorem Scheduler.Known.mono (h : s.Known s₀ p) (hlog : s₀.log <+: s.log)
    (hlog' : s'.log = s.log ++ evs) : s'.Known s₀ p := by
  unfold Scheduler.Known
  rw [since_append hlog hlog', hlog']
  rcases h with h | h
  · by_cases hleave : .leave p ∈ evs
    · exact .inr (List.mem_append_right _ hleave)
    · exact .inl (mem_members_append h hleave)
  · exact .inr (List.mem_append_left _ h)

end Log

/-! ## The rank -/

section Rank

variable {s₀ s s' : Scheduler σ}

theorem fresh_finite (s₀ s : Scheduler σ) : (s.fresh s₀).Finite :=
  (Set.finite_lt_nat (256 ^ sizeofPtr)).subset fun _ hp => hp.1

theorem onDuty_finite (s : Scheduler σ) : s.onDuty.Finite :=
  (members s.log).toFinset.finite_toSet.subset fun _ hp => by simpa using hp.1

/-- No process gets more to do. -/
theorem rank_le (hfinite : s.callable.Finite) (hknown : ∀ p, s.Known s₀ p → s'.Known s₀ p)
    (hduty : s'.onDuty ⊆ s.onDuty) (hcallable : s'.callable ⊆ s.callable) :
    s'.rank s₀ ≤ s.rank s₀ := by
  have hfresh : (s'.fresh s₀).ncard ≤ (s.fresh s₀).ncard :=
    Set.ncard_le_ncard (fun p hp => ⟨hp.1, fun h => hp.2 (hknown p h)⟩) (fresh_finite s₀ s)
  have hduty := Set.ncard_le_ncard hduty (onDuty_finite s)
  have hcallable := Set.ncard_le_ncard hcallable hfinite
  show toLex _ ≤ toLex _
  rw [Prod.Lex.toLex_le_toLex]
  dsimp only
  omega

/-- A process can no longer be called. -/
theorem rank_lt_of_called (hfinite : s.callable.Finite)
    (hknown : ∀ p, s.Known s₀ p → s'.Known s₀ p) (hduty : s'.onDuty ⊆ s.onDuty)
    (hcallable : s'.callable ⊂ s.callable) : s'.rank s₀ < s.rank s₀ := by
  have hfresh : (s'.fresh s₀).ncard ≤ (s.fresh s₀).ncard :=
    Set.ncard_le_ncard (fun p hp => ⟨hp.1, fun h => hp.2 (hknown p h)⟩) (fresh_finite s₀ s)
  have hduty := Set.ncard_le_ncard hduty (onDuty_finite s)
  have hcallable := Set.ncard_lt_ncard hcallable hfinite
  show toLex _ < toLex _
  rw [Prod.Lex.toLex_lt_toLex]
  dsimp only
  omega

/-- A process goes off duty. -/
theorem rank_lt_of_off (hknown : ∀ p, s.Known s₀ p → s'.Known s₀ p)
    (hduty : s'.onDuty ⊂ s.onDuty) : s'.rank s₀ < s.rank s₀ := by
  have hfresh : (s'.fresh s₀).ncard ≤ (s.fresh s₀).ncard :=
    Set.ncard_le_ncard (fun p hp => ⟨hp.1, fun h => hp.2 (hknown p h)⟩) (fresh_finite s₀ s)
  have hduty := Set.ncard_lt_ncard hduty (onDuty_finite s)
  show toLex _ < toLex _
  rw [Prod.Lex.toLex_lt_toLex]
  dsimp only
  omega

/-- A process joins the list. -/
theorem rank_lt_of_join {p : Nat} (hp : p ∈ s.fresh s₀)
    (hknown : ∀ q, s.Known s₀ q → s'.Known s₀ q) (hjoined : s'.Known s₀ p)
    (hduty : s'.onDuty ⊆ insert p s.onDuty) : s'.rank s₀ < s.rank s₀ := by
  have hfresh : (s'.fresh s₀).ncard < (s.fresh s₀).ncard := by
    refine Set.ncard_lt_ncard ⟨fun q hq => ⟨hq.1, fun h => hq.2 (hknown q h)⟩, fun hsub => ?_⟩
      (fresh_finite s₀ s)
    exact (hsub hp).2 hjoined
  have hduty := Set.ncard_le_ncard hduty ((onDuty_finite s).insert p)
  have hinsert := Set.ncard_insert_le p s.onDuty
  show toLex _ < toLex _
  rw [Prod.Lex.toLex_lt_toLex]
  dsimp only
  omega

/-- One more process can be called. -/
def rankSucc (m : ℕ ×ₗ ℕ) : ℕ ×ₗ ℕ := toLex ((ofLex m).1, (ofLex m).2 + 1)

theorem rankSucc_le_of_lt {m m' : ℕ ×ₗ ℕ} (h : m' < m) : rankSucc m' ≤ m := by
  have h := Prod.Lex.toLex_lt_toLex.mp (show toLex (ofLex m') < toLex (ofLex m) from h)
  show toLex _ ≤ toLex (ofLex m)
  rw [Prod.Lex.toLex_le_toLex]
  dsimp only
  omega

theorem rankSucc_mono {m m' : ℕ ×ₗ ℕ} (h : m' ≤ m) : rankSucc m' ≤ rankSucc m := by
  have h := Prod.Lex.toLex_le_toLex.mp (show toLex (ofLex m') ≤ toLex (ofLex m) from h)
  show toLex _ ≤ toLex _
  rw [Prod.Lex.toLex_le_toLex]
  dsimp only
  omega

theorem le_rankSucc (m : ℕ ×ₗ ℕ) : m ≤ rankSucc m := by
  show toLex (ofLex m) ≤ toLex _
  rw [Prod.Lex.toLex_le_toLex]
  dsimp only
  omega

/-- A process can be called again. -/
theorem rank_le_succ {p : Nat} (hfinite : s.callable.Finite)
    (hknown : ∀ p, s.Known s₀ p → s'.Known s₀ p) (hduty : s'.onDuty ⊆ s.onDuty)
    (hcallable : s'.callable ⊆ insert p s.callable) : s'.rank s₀ ≤ rankSucc (s.rank s₀) := by
  have hfresh : (s'.fresh s₀).ncard ≤ (s.fresh s₀).ncard :=
    Set.ncard_le_ncard (fun p hp => ⟨hp.1, fun h => hp.2 (hknown p h)⟩) (fresh_finite s₀ s)
  have hduty := Set.ncard_le_ncard hduty (onDuty_finite s)
  have hcallable := Set.ncard_le_ncard hcallable (hfinite.insert p)
  have hinsert := Set.ncard_insert_le p s.callable
  show toLex _ ≤ toLex _
  rw [Prod.Lex.toLex_le_toLex]
  show _ < 2 * (s.fresh s₀).ncard + s.onDuty.ncard ∨
    _ = 2 * (s.fresh s₀).ncard + s.onDuty.ncard ∧ _ ≤ s.callable.ncard + 1
  dsimp only
  omega

end Rank

/-! ## What a step does -/

section Step

variable {w : Width} {fw : Firmware σ} {s₀ s s₁ s' : Scheduler σ} {t : Turn σ} {f : Frame σ}
  {fs new : List (Frame σ)} {evs : List SchedEvent}

theorem CallPushes.returns {c : ProcCall} (h : CallPushes s c new evs) :
    ∀ g ∈ new, g.returns = none := by
  cases h <;> simp [Frame.returns]

theorem Pushes.returns (h : Pushes w s t new evs) : ∀ g ∈ new, g.returns = none := by
  cases h with
  | outside h => exact h.returns
  | call h => exact List.forall_mem_append.mpr ⟨h.returns, by simp [Frame.returns]⟩
  | _ => simp [Frame.returns]

/-- Processes become callable one at a time. -/
theorem callable_finite {v : ProcessState} {p : Nat} (h : s.callable.Finite)
    (hst : s₁.st = Function.update s.st p v) : s₁.callable.Finite := by
  refine (h.insert p).subset fun q hq => ?_
  rcases eq_or_ne q p with rfl | hne
  · exact Set.mem_insert q _
  · refine Set.mem_insert_of_mem p ?_
    have hq : s₁.st q = .running := hq
    rw [hst, Function.update_of_ne hne] at hq
    exact hq

theorem Local.finite (h : s.callable.Finite) (hlocal : Local w fw s fs t s₁) :
    s₁.callable.Finite := by
  have hsame : s₁.st = s.st → s₁.callable.Finite := fun hst => by
    unfold Scheduler.callable
    rw [hst]
    exact h
  cases hlocal with
  | quiet _ _ _ hst _ _ => exact hsame hst
  | returned _ _ _ hst _ _ => exact callable_finite h hst
  | polled _ _ _ _ hst _ _ => exact callable_finite h hst
  | inited _ _ _ _ _ _ _ hst _ _ => exact callable_finite h hst
  | off _ _ _ _ hst _ _ => exact callable_finite h hst
  | farewell _ _ _ _ hst _ _ => exact hsame hst
  | leaveHead _ _ hst _ _ => exact hsame hst
  | leave _ _ _ hst _ _ => exact hsame hst
  | join _ _ _ hst _ _ => exact callable_finite h hst

theorem Effect.finite (h : s.callable.Finite) (heff : Effect w fw s t fs s') :
    s'.callable.Finite := by
  obtain ⟨s₁, hlocal, ⟨-, rfl⟩ | ⟨q, ev, msg, -, ⟨rfl, -⟩ | henters⟩⟩ := heff
  · exact hlocal.finite h
  · exact hlocal.finite h
  · exact callable_finite (hlocal.finite h) henters.st

/-- A process in the middle of its exit stays off duty while it is on the list. -/
theorem Local.off_stays (h : Delivering s₀ s) (hstack : s.stack = f :: fs)
    (hok : f.Delivers s s₀ fs) (hlocal : Local w fw s fs (.frame f) s₁) {g : Frame σ} (hg : g ∈ fs)
    {p : Nat} (hp : g.exits = some p) (hmem : p ∈ members s₁.log) :
    p ∈ members s.log ∧ s₁.st p = .none := by
  have hgs : g ∈ s.stack := hstack ▸ List.mem_cons_of_mem _ hg
  obtain ⟨hknown, hoff⟩ := h.exits g hgs p hp
  cases hlocal with
  | quiet hpush _ _ hst _ hlog =>
      rw [hlog, members_quiet hpush.quiet] at hmem
      exact ⟨hmem, hst ▸ hoff hmem⟩
  | @returned q ev caller _ _ _ _ hst _ hlog =>
      rw [hlog] at hmem
      have hne : p ≠ q := by
        rintro rfl
        have hcalls := h.calls
        rw [hstack] at hcalls
        exact (List.pairwise_cons.mp hcalls).1 g hg p rfl hp hmem
      exact ⟨hmem, by rw [hst, Function.update_of_ne hne]; exact hoff hmem⟩
  | polled _ _ _ _ _ _ _ =>
      rw [hok g hg] at hp
      cases hp
  | inited hptr _ hx hone _ _ _ _ _ _ =>
      subst hptr
      exact absurd (hx ▸ hok) hone
  | @off q _ _ _ _ _ _ _ hst _ hlog =>
      rw [hlog, members_event (by rfl)] at hmem
      refine ⟨hmem, ?_⟩
      rw [hst]
      rcases eq_or_ne p q with rfl | hne
      · exact Function.update_self ..
      · rw [Function.update_of_ne hne]
        exact hoff hmem
  | farewell _ _ _ _ hst _ hlog =>
      rw [hlog, members_event (by rfl)] at hmem
      exact ⟨hmem, hst ▸ hoff hmem⟩
  | leaveHead _ _ hst _ hlog =>
      rw [hlog] at hmem
      have hmem := (h.procs.mem_leave hmem).2
      exact ⟨hmem, hst ▸ hoff hmem⟩
  | leave _ _ _ hst _ hlog =>
      rw [hlog] at hmem
      have hmem := (h.procs.mem_leave hmem).2
      exact ⟨hmem, hst ▸ hoff hmem⟩
  | @join q _ _ _ _ hst _ hlog =>
      have hne : p ≠ q := by
        rintro rfl
        rcases hknown with hlisted | hleft
        · exact h.procs.notMem_of_behind (h.procs.search_top hstack) hlisted
        · exact (hok rfl).2 hleft
      rw [hlog] at hmem
      have hmem := (mem_members_join hmem).resolve_left hne
      exact ⟨hmem, by rw [hst, Function.update_of_ne hne]; exact hoff hmem⟩

/-- A part of `exit_process` that is pushed belongs to a process that is off duty. -/
theorem Local.off_pushed (h : Delivering s₀ s) (hstack : s.stack = f :: fs)
    (hlocal : Local w fw s fs (.frame f) s₁) : ∃ new, s₁.stack = new ++ fs ∧
      (∀ g ∈ new, g.returns = none) ∧ ∀ g ∈ new, ∀ p, g.exits = some p →
        s.Known s₀ p ∧ (p ∈ members s₁.log → s₁.st p = .none) := by
  have hfound : ∀ {p fromprocess old}, f = .exitFind p fromprocess old p → p ≠ 0 →
      s.Known s₀ p := by
    rintro p fromprocess old rfl hp
    exact .inl ((h.procs.search_top hstack).mem hp)
  cases hlocal with
  | quiet hpush _ _ hst hnew hlog =>
      refine ⟨_, hnew, hpush.returns, fun g hg p hp => ?_⟩
      rw [hlog, members_quiet hpush.quiet, hst]
      rcases hpush.exits hg hp with ⟨f', hf', hexits⟩ | ⟨fromprocess, old, hf', hne, hoff⟩
      · injection hf' with hf'
        subst hf'
        exact h.exits f (hstack ▸ List.mem_cons_self) p hexits
      · injection hf' with hf'
        exact ⟨hfound hf' hne, fun _ => hoff⟩
  | returned _ _ _ _ hnew _ => exact ⟨[], hnew, nofun, nofun⟩
  | polled _ _ _ _ _ hnew _ => exact ⟨[_], hnew, by simp [Frame.returns], by simp [Frame.exits]⟩
  | inited _ _ _ _ _ _ _ _ hnew _ =>
      exact ⟨[_], hnew, by simp [Frame.returns], by simp [Frame.exits]⟩
  | @off q _ _ _ hne _ _ _ hst hnew _ =>
      refine ⟨[_], hnew, by simp [Frame.returns], fun g hg p hp => ?_⟩
      rw [List.mem_singleton.mp hg] at hp
      injection hp with hp
      subst hp
      exact ⟨hfound rfl hne, fun _ => by rw [hst, Function.update_self]⟩
  | @farewell q fromprocess old _ _ _ _ _ _ hst hnew hlog =>
      refine ⟨[_, _], hnew, by simp [Frame.returns], fun g hg p hp => ?_⟩
      rw [hlog, members_event (by rfl), hst]
      refine h.exits _ (hstack ▸ List.mem_cons_self) p ?_
      simp only [List.mem_cons, List.not_mem_nil, or_false] at hg
      rcases hg with rfl | rfl
      · cases hp
      · exact hp
  | leaveHead _ _ _ hnew _ => exact ⟨[], hnew, nofun, nofun⟩
  | leave _ _ _ _ hnew _ => exact ⟨[], hnew, nofun, nofun⟩
  | join _ _ _ _ hnew _ => exact ⟨[], hnew, nofun, nofun⟩

/-- Every step of a delivery leads to a state of it. -/
theorem Delivering.step (h : Delivering s₀ s) (hstack : s.stack = f :: fs)
    (hok : f.Delivers s s₀ fs) (heff : Effect w fw s (.frame f) fs s') : Delivering s₀ s' := by
  have hprocs := heff.procInv h.procs hstack fun c hc => by cases hc
  have hfinite := heff.finite h.finite
  obtain ⟨evs, hlog, -⟩ := heff.origin
  have hlogs : s₀.log <+: s'.log := hlog ▸ h.log.trans (List.prefix_append _ _)
  obtain ⟨s₁, hlocal, hcall⟩ := heff
  obtain ⟨evs₁, hlog₁, -⟩ := hlocal.origin
  obtain ⟨new, hnew, hreturns, hpushed⟩ := hlocal.off_pushed h hstack
  have hbelow := h.calls
  rw [hstack] at hbelow
  have hexits : ∀ f' ∈ s₁.stack, ∀ p, f'.exits = some p →
      s₁.Known s₀ p ∧ (p ∈ members s₁.log → s₁.st p = .none) := by
    intro g hg p hp
    rw [hnew] at hg
    rcases List.mem_append.mp hg with hg | hg
    · obtain ⟨hknown, hoff⟩ := hpushed g hg p hp
      exact ⟨hknown.mono h.log hlog₁, hoff⟩
    · obtain ⟨hknown, -⟩ := h.exits g (hstack ▸ List.mem_cons_of_mem _ hg) p hp
      exact ⟨hknown.mono h.log hlog₁, fun hmem => (hlocal.off_stays h hstack hok hg hp hmem).2⟩
  have hcalls : s₁.stack.Pairwise fun g f' => ∀ p, g.returns = some p → f'.exits = some p →
      p ∉ members s₁.log := by
    rw [hnew, List.pairwise_append]
    refine ⟨List.pairwise_of_forall_mem_list fun g hg _ _ p hp => ?_, ?_, fun g hg _ _ p hp => ?_⟩
    · rw [hreturns g hg] at hp
      cases hp
    · refine List.Pairwise.imp_of_mem ?_ (List.pairwise_cons.mp hbelow).2
      intro g g' _ hg' hnot p hp hp' hmem
      exact hnot p hp hp' (hlocal.off_stays h hstack hok hg' hp' hmem).1
    · rw [hreturns g hg] at hp
      cases hp
  rcases hcall with ⟨-, rfl⟩ | ⟨q, ev, msg, -, ⟨rfl, -⟩ | henters⟩
  · exact ⟨hlogs, hprocs, hfinite, hexits, hcalls⟩
  · exact ⟨hlogs, hprocs, hfinite, hexits, hcalls⟩
  · obtain ⟨thread, -, hstack'⟩ := henters.stack
    have hmembers : members s'.log = members s₁.log := by
      exact henters.members
    -- a process that is called is not in the middle of its exit
    have hcallee : ∀ g ∈ s₁.stack, g.exits = some q → q ∉ members s₁.log := by
      intro g hg hq hmem
      have hoff := (hexits g hg q hq).2 hmem
      rw [henters.running] at hoff
      cases hoff
    refine ⟨hlogs, hprocs, hfinite, fun g hg p hp => ?_, ?_⟩
    · rw [hstack'] at hg
      rw [hmembers, henters.st]
      rcases List.mem_cons.mp hg with rfl | hg
      · cases hp
      · rcases List.mem_cons.mp hg with rfl | hg
        · cases hp
        · obtain ⟨hknown, hoff⟩ := hexits g hg p hp
          refine ⟨hknown.mono (hlog₁ ▸ h.log.trans (List.prefix_append _ _)) henters.log,
            fun hmem => ?_⟩
          have hne : p ≠ q := fun heq => hcallee g hg (heq ▸ hp) (heq ▸ hmem)
          rw [Function.update_of_ne hne]
          exact hoff hmem
    · rw [hstack', hmembers]
      refine List.pairwise_cons.mpr ⟨fun _ _ p hp => ?_, List.pairwise_cons.mpr ⟨?_, hcalls⟩⟩
      · cases hp
      · intro g hg p hp hp'
        injection hp with hp
        subst hp
        exact hcallee g hg hp'

/-! ## How the rank changes -/

theorem EntersThread.rank_lt {q ev : Nat} {msg : MsgArg} (h : EntersThread fw s₁ q ev msg s')
    (hlog : s₀.log <+: s₁.log) (hfinite : s₁.callable.Finite) : s'.rank s₀ < s₁.rank s₀ := by
  have hmembers := h.members
  apply rank_lt_of_called hfinite (fun p hp => hp.mono hlog h.log)
  · rintro p ⟨hmem, hduty⟩
    rw [hmembers] at hmem
    refine ⟨hmem, ?_⟩
    rw [h.st] at hduty
    rcases eq_or_ne p q with rfl | hne
    · rw [h.running]
      decide
    · rwa [Function.update_of_ne hne] at hduty
  · constructor
    · intro p hp
      have hp : s'.st p = .running := hp
      rw [h.st] at hp
      exact (ne_of_update hp (by decide)).2
    · intro hsub
      have hq : s'.st q = .running := hsub h.running
      rw [h.st, Function.update_self] at hq
      cases hq

/-- A local part that sets no process to `RUNNING`. -/
theorem rank_le_of_same (hlog : s₀.log <+: s.log) (hfinite : s.callable.Finite)
    (hlog' : s₁.log = s.log ++ evs) (hmem : ∀ p ∈ members s₁.log, p ∈ members s.log)
    (hst : s₁.st = s.st) : s₁.rank s₀ ≤ s.rank s₀ := by
  refine rank_le hfinite (fun p hp => hp.mono hlog hlog') ?_ ?_
  · rintro p ⟨hp, hduty⟩
    exact ⟨hmem p hp, hst ▸ hduty⟩
  · intro p hp
    exact (congrFun hst p).symm.trans hp

/-- A process is found for its exit. -/
theorem Local.rank_off {p fromprocess old : Nat} (h : Delivering s₀ s)
    (hstack : s.stack = .exitFind p fromprocess old p :: fs) (hp : p ≠ 0) (hduty : s.st p ≠ .none)
    (hlog : s₁.log = s.log ++ [.off p]) (hst : s₁.st = Function.update s.st p .none) :
    s₁.rank s₀ < s.rank s₀ := by
  have hmembers : members s₁.log = members s.log := by
    rw [hlog, members_event (by rfl)]
  refine rank_lt_of_off (fun q hq => hq.mono h.log hlog) ⟨?_, fun hsub => ?_⟩
  · rintro q ⟨hmem, hq⟩
    rw [hmembers] at hmem
    rw [hst] at hq
    rcases eq_or_ne q p with rfl | hne
    · rw [Function.update_self] at hq
      exact absurd rfl hq
    · rw [Function.update_of_ne hne] at hq
      exact ⟨hmem, hq⟩
  · have hoff := (hsub ⟨(h.procs.search_top hstack).mem hp, hduty⟩).2
    rw [hst, Function.update_self] at hoff
    exact hoff rfl

/-- A process is started. -/
theorem Local.rank_join {p : Nat} (h : Delivering s₀ s) (hstack : s.stack = .startFind p 0 :: fs)
    (hp : p < 256 ^ sizeofPtr) (hstay : .leave p ∉ s.since s₀) (hlog : s₁.log = s.log ++ [.join p])
    (hst : s₁.st = Function.update s.st p .running) : s₁.rank s₀ < s.rank s₀ := by
  have hnot : p ∉ members s.log := h.procs.notMem_of_behind (h.procs.search_top hstack)
  have hmem : ∀ {q}, q ∈ members s₁.log → q = p ∨ q ∈ members s.log := by
    intro q hq
    rw [hlog] at hq
    exact mem_members_join hq
  apply rank_lt_of_join (p := p) ⟨hp, not_or.mpr ⟨hnot, hstay⟩⟩ (fun q hq => hq.mono h.log hlog)
  · refine .inl ?_
    rw [hlog, members_append]
    exact List.mem_cons_self
  · rintro q ⟨hq, hduty⟩
    rcases eq_or_ne q p with rfl | hne
    · exact Set.mem_insert q _
    · rw [hst, Function.update_of_ne hne] at hduty
      exact Set.mem_insert_of_mem p ⟨(hmem hq).resolve_left hne, hduty⟩

/-- A call has returned: one more process can be called. -/
theorem Local.rank_returned {p ev caller : Nat} (h : Delivering s₀ s)
    (hstack : s.stack = .called p ev caller :: fs) (hlog : s₁.log = s.log)
    (hst : s₁.st = Function.update s.st p .running) : s₁.rank s₀ ≤ rankSucc (s.rank s₀) := by
  have hcalls := h.calls
  rw [hstack] at hcalls
  have hlog' : s₁.log = s.log ++ [] := hlog.trans (List.append_nil _).symm
  apply rank_le_succ (p := p) h.finite (fun q hq => hq.mono h.log hlog')
  · rintro q ⟨hq, hduty⟩
    rw [hlog] at hq
    refine ⟨hq, fun hoff => ?_⟩
    rw [hst] at hduty
    rcases eq_or_ne q p with rfl | hne
    · -- it would be in the middle of its exit, further down the stack
      obtain ⟨g, hg, hexits⟩ := h.procs.off q hq hoff
      rw [hstack] at hg
      rcases List.mem_cons.mp hg with rfl | hg
      · cases hexits
      · exact (List.pairwise_cons.mp hcalls).1 g hg q rfl hexits hq
    · rw [Function.update_of_ne hne] at hduty
      exact hduty hoff
  · intro q hq
    have hq : s₁.st q = .running := hq
    rw [hst] at hq
    rcases eq_or_ne q p with rfl | hne
    · exact Set.mem_insert q _
    · rw [Function.update_of_ne hne] at hq
      exact Set.mem_insert_of_mem p hq

/-- Any other local part. -/
theorem Local.rank_le (h : Delivering s₀ s) (hstack : s.stack = f :: fs)
    (hok : f.Delivers s s₀ fs) (hlocal : Local w fw s fs (.frame f) s₁)
    (hreturns : f.returns = none)
    (hpoll : ∀ tmp, f ≠ .loop .poll tmp) : s₁.rank s₀ ≤ s.rank s₀ := by
  have hkeep : ∀ {evs : List SchedEvent}, (∀ ev ∈ evs, ev.listing = false) →
      s₁.log = s.log ++ evs → s₁.st = s.st → s₁.rank s₀ ≤ s.rank s₀ := by
    intro evs hquiet hlog hst
    refine rank_le_of_same h.log h.finite hlog (fun p hp => ?_) hst
    rwa [hlog, members_quiet hquiet] at hp
  cases hlocal with
  | quiet hpush _ _ hst _ hlog => exact hkeep hpush.quiet hlog hst
  | returned _ _ _ _ _ _ => cases hreturns
  | polled _ _ _ _ _ _ _ => exact absurd rfl (hpoll _)
  | inited hptr _ hx hone _ _ _ _ _ _ =>
      subst hptr
      exact absurd (hx ▸ hok) hone
  | off hp hduty _ _ hst _ hlog => exact (Local.rank_off h hstack hp hduty hlog hst).le
  | farewell _ _ _ _ hst _ hlog => exact hkeep (by simp [SchedEvent.listing]) hlog hst
  | leaveHead _ _ hst _ hlog =>
      exact rank_le_of_same h.log h.finite hlog
        (fun p hp => (h.procs.mem_leave (hlog ▸ hp)).2) hst
  | leave _ _ _ hst _ hlog =>
      exact rank_le_of_same h.log h.finite hlog
        (fun p hp => (h.procs.mem_leave (hlog ▸ hp)).2) hst
  | join _ _ _ hst _ hlog =>
      obtain ⟨hp, hstay⟩ := hok rfl
      exact (Local.rank_join h hstack hp hstay hlog hst).le

/-- A whole step. -/
theorem Effect.rank_le (heff : Effect w fw s (.frame f) fs s') (h : Delivering s₀ s)
    (hstack : s.stack = f :: fs) (hok : f.Delivers s s₀ fs) (hreturns : f.returns = none)
    (hpoll : ∀ tmp, f ≠ .loop .poll tmp) : s'.rank s₀ ≤ s.rank s₀ := by
  obtain ⟨s₁, hlocal, ⟨-, rfl⟩ | ⟨q, ev, msg, -, ⟨rfl, -⟩ | henters⟩⟩ := heff
  · exact hlocal.rank_le h hstack hok hreturns hpoll
  · exact hlocal.rank_le h hstack hok hreturns hpoll
  · obtain ⟨evs, hlog, -⟩ := hlocal.origin
    have hlogs : s₀.log <+: s₁.log := hlog ▸ h.log.trans (List.prefix_append _ _)
    exact (henters.rank_lt hlogs (hlocal.finite h.finite)).le.trans
      (hlocal.rank_le h hstack hok hreturns hpoll)

/-! ## What a part of the run keeps -/

/-- A call of `call_process` with the message of a delivery. -/
def SchedEvent.delivers : SchedEvent → Bool
  | .deliver _ _ => true
  | .enter _ _ (.node _) => true
  | _ => false

/-- The frames that deliver. -/
def Frame.serves : Frame σ → Bool
  | .broadcastCall _ _ => true
  | .utilizeMessage => true
  | _ => false

theorem SchedEvent.From.delivers {ev : SchedEvent} (h : ev.From s (.frame f))
    (hf : f.serves = false) : ev.delivers = false := by
  cases ev with
  | deliver q bytes =>
      rcases h with ⟨msgPtr, hturn⟩ | hturn
      · injection hturn with hturn
        subst hturn
        cases hf
      · injection hturn with hturn
        subst hturn
        cases hf
  | enter q ev msg =>
      cases msg with
      | node msgPtr =>
          rcases h with hturn | ⟨hturn, -⟩
          · injection hturn with hturn
            subst hturn
            cases hf
          · injection hturn with hturn
            subst hturn
            cases hf
      | _ => rfl
  | _ => rfl

/-- From `s` to `s'` the events `evs` were logged, and the chain of a loop that waits lost
no process that has not left the list. -/
structure Goes (s₀ s : Scheduler σ) (evs : List SchedEvent) (s' : Scheduler σ) : Prop where
  delivering : Delivering s₀ s'
  log : s'.log = s.log ++ evs
  chain : ∀ tmp xs, s.Ahead tmp xs → (∀ x ∈ tmp :: xs, s.Known s₀ x) →
    ∃ xs', s'.Ahead tmp xs' ∧ xs'.Sublist xs ∧ ∀ x ∈ xs, x ∉ xs' → .leave x ∈ evs

theorem Goes.refl (h : Delivering s₀ s) : Goes s₀ s [] s where
  delivering := h
  log := (List.append_nil _).symm
  chain _ xs hahead _ := ⟨xs, hahead, .refl _, fun _ hx hnot => absurd hx hnot⟩

theorem Goes.known {evs : List SchedEvent} (h : Goes s₀ s evs s') (hs : Delivering s₀ s) {x : Nat}
    (hx : s.Known s₀ x) : s'.Known s₀ x := hx.mono hs.log h.log

theorem Goes.trans {evs evs' : List SchedEvent} {s'' : Scheduler σ} (h : Goes s₀ s evs s')
    (hs : Delivering s₀ s) (h' : Goes s₀ s' evs' s'') : Goes s₀ s (evs ++ evs') s'' where
  delivering := h'.delivering
  log := by rw [h'.log, h.log, List.append_assoc]
  chain tmp xs hahead hknown := by
    obtain ⟨xs', hahead', hsub, hleft⟩ := h.chain tmp xs hahead hknown
    have hknown' : ∀ x ∈ tmp :: xs', s'.Known s₀ x :=
      fun x hx => h.known hs (hknown x ((hsub.cons_cons tmp).subset hx))
    obtain ⟨xs'', hahead'', hsub', hleft'⟩ := h'.chain tmp xs' hahead' hknown'
    refine ⟨xs'', hahead'', hsub'.trans hsub, fun x hx hnot => ?_⟩
    by_cases hx' : x ∈ xs'
    · exact List.mem_append_right _ (hleft' x hx' hnot)
    · exact List.mem_append_left _ (hleft x hx hx')

/-- A step. -/
theorem Delivering.goes (h : Delivering s₀ s) (hstack : s.stack = f :: fs)
    (hok : f.Delivers s s₀ fs) (heff : Effect w fw s (.frame f) fs s') :
    ∃ evs, Goes s₀ s evs s' ∧ ∀ ev ∈ evs, ev.From s (.frame f) := by
  obtain ⟨evs, hlog, horigin⟩ := heff.origin
  refine ⟨evs, ⟨h.step hstack hok heff, hlog, fun tmp xs hahead hknown => ?_⟩, horigin⟩
  refine heff.ahead h.procs hstack hahead hlog fun p hp hmem => ?_
  have hturn := horigin _ hp
  injection hturn with hturn
  subst hturn
  rcases hknown p hmem with hlisted | hleft
  · exact h.procs.notMem_of_behind (h.procs.search_top hstack) hlisted
  · exact (hok rfl).2 hleft

/-- A part of the run that delivers nothing. -/
def Passes (s₀ s s' : Scheduler σ) : Prop :=
  ∃ evs, Goes s₀ s evs s' ∧ ∀ ev ∈ evs, ev.delivers = false

theorem Passes.refl (h : Delivering s₀ s) : Passes s₀ s s := ⟨[], .refl h, nofun⟩

theorem Passes.delivering (h : Passes s₀ s s') : Delivering s₀ s' := h.choose_spec.1.delivering

theorem Passes.trans {s'' : Scheduler σ} (h : Passes s₀ s s') (hs : Delivering s₀ s)
    (h' : Passes s₀ s' s'') : Passes s₀ s s'' := by
  obtain ⟨evs, hgoes, hquiet⟩ := h
  obtain ⟨evs', hgoes', hquiet'⟩ := h'
  exact ⟨evs ++ evs', hgoes.trans hs hgoes', List.forall_mem_append.mpr ⟨hquiet, hquiet'⟩⟩

theorem Delivering.passes (h : Delivering s₀ s) (hstack : s.stack = f :: fs)
    (hok : f.Delivers s s₀ fs) (hf : f.serves = false) (heff : Effect w fw s (.frame f) fs s') :
    Passes s₀ s s' := by
  obtain ⟨evs, hgoes, horigin⟩ := h.goes hstack hok heff
  exact ⟨evs, hgoes, fun ev hev => (horigin ev hev).delivers hf⟩

end Step

end EmbeddedMx
