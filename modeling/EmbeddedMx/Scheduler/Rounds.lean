import EmbeddedMx.Scheduler.ProcessList

/-!
# Rounds over the process list

A loop over the process list calls one process after the other, and each of these
calls may change the list. `Inside` is what happens while frames stand above a given
stack. The processes that a loop has still in front of it are a chain of links; the
steps above the loop keep this chain except for processes that leave, as long as no
process of the chain is started again.
-/

namespace EmbeddedMx

open EmbeddedMx.Lib

variable {σ : Type}

/-- The states that the system `T` runs through from `s` on while more than `k` frames
are on the stack, and the first one after that. -/
inductive Inside (T : TSys (Scheduler σ) (Option (σ × ApiCall))) (k : Nat) (s : Scheduler σ) :
    Scheduler σ → Prop
  | refl : Inside T k s s
  | step {s' s''} : Inside T k s s' → k < s'.stack.length → T.step s' none s'' → Inside T k s s''

theorem Inside.reachable {T : TSys (Scheduler σ) (Option (σ × ApiCall))} {k : Nat}
    {s s' : Scheduler σ} (h : Inside T k s s') (hs : T.Reachable s) : T.Reachable s' := by
  induction h with
  | refl => exact hs
  | step _ _ hstep ih => exact ih.step hstep

/-- A side condition may be weakened. -/
theorem Inside.mono {T : TSys (Scheduler σ) (Option (σ × ApiCall))}
    {P Q : Scheduler σ → Option (σ × ApiCall) → Prop} {k : Nat} {s s' : Scheduler σ}
    (h : Inside (T.restrict P) k s s') (himp : ∀ s i, P s i → Q s i) :
    Inside (T.restrict Q) k s s' := by
  induction h with
  | refl => exact .refl
  | step _ hinside hstep ih => exact ih.step hinside ⟨himp _ _ hstep.1, hstep.2⟩

/-- The frames below stay as they are. -/
theorem Inside.frames_below {w : Width} {fw : Firmware σ} {n : Nat}
    {P : Scheduler σ → Option (σ × ApiCall) → Prop} {above rest : List (Frame σ)}
    {s s' : Scheduler σ} (h : Inside ((schedSystem w fw n).restrict P) rest.length s s')
    (hstack : s.stack = above ++ rest) : ∃ above', s'.stack = above' ++ rest := by
  induction h with
  | refl => exact ⟨above, hstack⟩
  | @step s' s'' _ hinside hstep ih =>
      obtain ⟨above', hstack'⟩ := ih
      obtain ⟨-, -, hstep⟩ := hstep
      cases hstep with
      | @exec f fs htop =>
          obtain ⟨new, hnew, -⟩ := (execFrame_effect w fw s' fs f).stack
          rw [htop] at hstack'
          cases above' with
          | nil =>
              rw [htop, hstack'] at hinside
              exact absurd hinside (Nat.lt_irrefl _)
          | cons g above' =>
              injection hstack' with _ hfs
              exact ⟨new ++ above', by rw [hnew, hfs, List.append_assoc]; rfl⟩

/-- A number of steps, if all of them are valid. -/
theorem Inside.steps {w : Width} {fw : Firmware σ} {n k m : Nat}
    {P : Scheduler σ → Option (σ × ApiCall) → Prop} {s₀ s : Scheduler σ}
    (h : Inside ((schedSystem w fw n).restrict P) k s₀ s)
    (hsteps : ∀ j < m, k < (s.steps w fw j).stack.length ∧
      (∀ c ∈ (s.steps w fw j).issues none, c.Valid w (s.steps w fw j)) ∧ P (s.steps w fw j) none) :
    Inside ((schedSystem w fw n).restrict P) k s₀ (s.steps w fw m) := by
  induction m generalizing s with
  | zero => exact h
  | succ m ih =>
      obtain ⟨hstack, hvalid, hP⟩ := hsteps 0 (Nat.succ_pos m)
      refine ih ?_ fun j hj => hsteps (j + 1) (Nat.succ_lt_succ hj)
      unfold Scheduler.exec
      cases hfs : s.stack with
      | nil =>
          rw [show (s.steps w fw 0).stack = [] from hfs] at hstack
          cases hstack
      | cons f fs => exact h.step hstack ⟨hP, hvalid, .exec hfs⟩

/-! ## Where events come from -/

/-- The turn in which an event may be logged, for those that concern the processes of
the list. -/
def SchedEvent.From (s : Scheduler σ) (t : Turn σ) : SchedEvent → Prop
  | .enter q _ (.finished p) =>
      ∃ fromprocess old, t = .frame (.loop (.notify p fromprocess old) q)
  | .enter q _ (.node msgPtr) =>
      t = .frame (.broadcastCall msgPtr q) ∨ t = .frame .utilizeMessage ∧ s.popped = msgPtr
  | .deliver q _ =>
      (∃ msgPtr, t = .frame (.broadcastCall msgPtr q)) ∨ t = .frame .utilizeMessage
  | .off p => ∃ fromprocess old, t = .frame (.exitFind p fromprocess old p)
  | .join p => t = .frame (.startFind p 0)
  | .leave p => ∃ f, t = .frame f ∧ f.exits = some p
  | _ => True

section Events

variable {w : Width} {fw : Firmware σ} {s s₁ s' : Scheduler σ} {t : Turn σ}
  {fs new : List (Frame σ)} {evs : List SchedEvent}

theorem CallPushes.origin {c : ProcCall} (h : CallPushes s c new evs) :
    ∀ ev ∈ evs, ev.From s t := by
  cases h <;> simp [SchedEvent.From]

theorem Pushes.origin (h : Pushes w s t new evs) : ∀ ev ∈ evs, ev.From s t := by
  cases h with
  | outside h => exact h.origin
  | call h => exact h.origin
  | _ => simp [SchedEvent.From]

theorem Calls.origin {q ev : Nat} {msg : MsgArg} (h : Calls w s t q ev msg) :
    (SchedEvent.enter q ev msg).From s t := by
  cases h with
  | notify _ _ => exact ⟨_, _, rfl⟩
  | broadcast => exact .inl rfl
  | message hptr _ _ _ => exact .inr ⟨rfl, hptr⟩
  | _ => trivial

theorem Local.origin (h : Local w fw s fs t s₁) :
    ∃ evs, s₁.log = s.log ++ evs ∧ ∀ ev ∈ evs, ev.From s t := by
  cases h with
  | quiet hpush _ _ _ _ hlog => exact ⟨_, hlog, hpush.origin⟩
  | returned _ _ _ _ _ hlog => exact ⟨[], hlog.trans (List.append_nil _).symm, nofun⟩
  | polled _ _ _ _ _ _ hlog => exact ⟨[], hlog.trans (List.append_nil _).symm, nofun⟩
  | inited _ _ _ _ _ _ _ _ _ hlog => exact ⟨_, hlog, by simp [SchedEvent.From]⟩
  | off _ _ _ _ _ _ hlog => exact ⟨_, hlog, List.forall_mem_singleton.mpr ⟨_, _, rfl⟩⟩
  | farewell _ _ _ _ _ _ hlog => exact ⟨_, hlog, by simp [SchedEvent.From]⟩
  | leaveHead _ _ _ _ hlog => exact ⟨_, hlog, List.forall_mem_singleton.mpr ⟨_, rfl, rfl⟩⟩
  | leave _ _ _ _ _ hlog => exact ⟨_, hlog, List.forall_mem_singleton.mpr ⟨_, rfl, rfl⟩⟩
  | join _ _ _ _ _ hlog => exact ⟨_, hlog, List.forall_mem_singleton.mpr rfl⟩

theorem Effect.origin (h : Effect w fw s t fs s') :
    ∃ evs, s'.log = s.log ++ evs ∧ ∀ ev ∈ evs, ev.From s t := by
  obtain ⟨s₁, hlocal, hcall⟩ := h
  obtain ⟨evs, hlog, horigin⟩ := hlocal.origin
  rcases hcall with ⟨-, rfl⟩ | ⟨q, ev, msg, hcalls, ⟨rfl, -⟩ | henters⟩
  · exact ⟨evs, hlog, horigin⟩
  · exact ⟨evs, hlog, horigin⟩
  · refine ⟨evs ++ [.enter q ev msg], by rw [henters.log, hlog, List.append_assoc], ?_⟩
    exact List.forall_mem_append.mpr ⟨horigin, List.forall_mem_singleton.mpr hcalls.origin⟩

/-! ## The chain of a loop -/

/-- The loop behind its body for `tmp` has the processes `xs` in front of it. -/
def Scheduler.Ahead (s : Scheduler σ) (tmp : Nat) (xs : List Nat) : Prop :=
  LinkPath s.next tmp (tmp :: xs) 0 ∧ 0 ∉ tmp :: xs

/-- The loop `l` stands on the frames `rest`, with the frames `above` over it and the
processes `xs` in front of it. -/
inductive Scheduler.Round (s : Scheduler σ) (l : Loop) (rest : List (Frame σ)) :
    List (Frame σ) → List Nat → Prop
  | here {tmp xs} : s.stack = .loop l tmp :: rest → LinkPath s.next tmp xs 0 → 0 ∉ xs →
      Round s l rest [] xs
  | above {above tmp xs} : s.stack = above ++ .loopNext l tmp :: rest → s.Ahead tmp xs →
      Round s l rest above xs

/-- A loop goes on to its next process. -/
theorem Effect.loopNext {l : Loop} {tmp : Nat}
    (h : Effect w fw s (.frame (.loopNext l tmp)) fs s') :
    s'.next = s.next ∧ s'.stack = .loop l (s.next tmp) :: fs ∧ s'.log = s.log := by
  obtain ⟨s₁, hlocal, ⟨-, rfl⟩ | ⟨q, ev, msg, hcalls, -⟩⟩ := h
  · cases hlocal with
    | quiet hpush hnext _ _ hnew hlog =>
        cases hpush with
        | loopNext => exact ⟨hnext, hnew, hlog.trans (List.append_nil _)⟩
  · cases hcalls

/-- The chain of a loop stays as it is, except for processes that leave. -/
theorem Relinks.ahead (h : Relinks s s' evs) (hzero : 0 ∉ members s.log) {tmp : Nat} {xs : List Nat}
    (hahead : s.Ahead tmp xs) (hjoin : ∀ p, .join p ∈ evs → p ∉ tmp :: xs) :
    ∃ xs', s'.Ahead tmp xs' ∧ xs'.Sublist xs ∧ ∀ x ∈ xs, x ∉ xs' → .leave x ∈ evs := by
  obtain ⟨xs₁, hpath, hsub, hleft⟩ := h.chain hzero hahead.1 hahead.2 hjoin
  have hzero : 0 ∉ xs₁ := fun hmem => hahead.2 (hsub.subset hmem)
  cases xs₁ with
  | nil => exact absurd hpath fun heq => hahead.2 (heq ▸ List.mem_cons_self)
  | cons x xs' =>
      obtain rfl : tmp = x := hpath.1
      have hsub : xs'.Sublist xs := List.cons_sublist_cons.mp hsub
      refine ⟨xs', ⟨hpath, hzero⟩, hsub, fun x hx hnot => ?_⟩
      refine hleft x (List.mem_cons_of_mem _ hx) fun hmem => ?_
      have hnodup := List.nodup_cons.mp (hahead.1.nodup hahead.2)
      rcases List.mem_cons.mp hmem with rfl | hmem
      · exact hnodup.1 hx
      · exact hnot hmem

/-- A step leaves the chain of a loop as it is, except for processes that leave. -/
theorem Effect.ahead (h : ProcInv s) (hstack : s.stack = t.frames ++ fs)
    (heff : Effect w fw s t fs s') {tmp : Nat} {xs : List Nat} (hahead : s.Ahead tmp xs)
    (hlog : s'.log = s.log ++ evs) (hjoin : ∀ p, .join p ∈ evs → p ∉ tmp :: xs) :
    ∃ xs', s'.Ahead tmp xs' ∧ xs'.Sublist xs ∧ ∀ x ∈ xs, x ∉ xs' → .leave x ∈ evs := by
  obtain ⟨evs', hlog', hrelinks⟩ := heff.relinks h hstack
  obtain rfl : evs' = evs := List.append_cancel_left (hlog'.symm.trans hlog)
  exact hrelinks.ahead h.zero hahead hjoin

end Events

end EmbeddedMx
