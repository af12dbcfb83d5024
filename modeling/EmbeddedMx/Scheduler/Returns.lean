import EmbeddedMx.Lib.Ends
import EmbeddedMx.Scheduler.Progress

/-!
# Calls return

While a message is delivered, every thread that is called returns, whatever it calls:
the run comes back to the frames below it. The induction is on the rank of the
delivery. A thread that runs makes finitely many calls; each of these calls another
thread only with a smaller rank, and the searches and loops on the way there walk over
finite chains, which get no longer while others run.
-/

namespace EmbeddedMx

open EmbeddedMx.Lib

variable {σ : Type}

/-- What threads do during a delivery that began in `s₀`: they do not run the scheduler,
and start only objects in memory that have not left the list since. -/
def Allows (s₀ s : Scheduler σ) : Prop :=
  ∀ c, s.issues none = some c → c ≠ .proc .run ∧
    ∀ p, c = .proc (.start p) → p < 256 ^ sizeofPtr ∧ .leave p ∉ s.since s₀

/-- From `s` the run comes to the stack `fs`, with a rank of at most `m`. -/
def Returns (w : Width) (fw : Firmware σ) (s₀ : Scheduler σ) (m : ℕ ×ₗ ℕ) (fs : List (Frame σ))
    (s : Scheduler σ) : Prop :=
  Ends (Scheduler.exec w fw) (Allows s₀)
    (fun s' => s'.stack = fs ∧ Passes s₀ s s' ∧ s'.rank s₀ ≤ m) s

section Rules

variable {w : Width} {fw : Firmware σ} {s₀ s s' : Scheduler σ} {m m' : ℕ ×ₗ ℕ} {f : Frame σ}
  {fs fs' : List (Frame σ)}

theorem Returns.now (h : Delivering s₀ s) (hstack : s.stack = fs) (hrank : s.rank s₀ ≤ m) :
    Returns w fw s₀ m fs s :=
  Ends.now ⟨hstack, .refl h, hrank⟩

theorem Returns.mono (h : Returns w fw s₀ m fs s) (hm : m ≤ m') : Returns w fw s₀ m' fs s :=
  Ends.mono h fun _ ⟨hstack, hpasses, hrank⟩ => ⟨hstack, hpasses, hrank.trans hm⟩

/-- First to one stack, then to the next. -/
theorem Returns.bind (hs : Delivering s₀ s) (h : Returns w fw s₀ m fs s)
    (hnext : ∀ s', s'.stack = fs → Passes s₀ s s' → s'.rank s₀ ≤ m →
      Returns w fw s₀ m' fs' s') : Returns w fw s₀ m' fs' s := by
  refine Ends.bind h fun s' ⟨hstack, hpasses, hrank⟩ => ?_
  exact Ends.mono (hnext s' hstack hpasses hrank) fun s'' ⟨hstack', hpasses', hrank'⟩ =>
    ⟨hstack', hpasses.trans hs hpasses', hrank'⟩

/-- A step, and then on. -/
theorem Returns.step (h : Delivering s₀ s) (hstack : s.stack = f :: fs)
    (hok : f.Delivers s s₀ fs) (hf : f.serves = false)
    (hnext : Allows s₀ s → ∀ s', Effect w fw s (.frame f) fs s' → Passes s₀ s s' →
      Returns w fw s₀ m fs' s') : Returns w fw s₀ m fs' s := by
  refine Ends.next fun hallows => ?_
  have heff := exec_effect w fw hstack
  have hpasses := h.passes hstack hok hf heff
  exact Ends.mono (hnext hallows _ heff hpasses) fun s'' ⟨hstack', hpasses', hrank'⟩ =>
    ⟨hstack', hpasses.trans h hpasses', hrank'⟩

end Rules

/-- With a rank of at most `m`, threads return, and the loops of `exit_process` end. -/
structure Finishing (w : Width) (fw : Firmware σ) (s₀ : Scheduler σ) (m : ℕ ×ₗ ℕ) : Prop where
  thread : ∀ {s : Scheduler σ} {self msg prog fs}, Delivering s₀ s →
    s.stack = .thread self msg prog :: fs → s.rank s₀ ≤ m → Returns w fw s₀ m fs s
  called : ∀ {s : Scheduler σ} {p ev caller fs}, Delivering s₀ s →
    s.stack = .called p ev caller :: fs → s.rank s₀ ≤ m → Returns w fw s₀ (rankSucc m) fs s
  notify : ∀ {s : Scheduler σ} {proc fromprocess old tmp xs fs}, Delivering s₀ s →
    s.stack = .loop (.notify proc fromprocess old) tmp :: fs → LinkPath s.next tmp xs 0 →
    0 ∉ xs → (∀ x ∈ xs, s.Known s₀ x) → s.rank s₀ ≤ m → Returns w fw s₀ m fs s

/-! ## Loops over the process list -/

section Loops

variable {w : Width} {fw : Firmware σ} {s₀ s s₁ s' : Scheduler σ} {fs : List (Frame σ)}

/-- The frame behind the body of a loop. -/
theorem Local.loop_stack {l : Loop} {tmp : Nat}
    (h : Local w fw s fs (.frame (.loop l tmp)) s₁) (hl : ∀ msgPtr, l ≠ .broadcast msgPtr)
    (htmp : tmp ≠ 0) : s₁.stack = .loopNext l tmp :: fs := by
  cases h with
  | quiet hpush _ _ _ hnew _ =>
      cases hpush with
      | notify _ => exact hnew
      | handle _ => exact hnew
      | poll _ _ => exact hnew
      | broadcast _ => exact absurd rfl (hl _)
      | broadcastPoll _ => exact absurd rfl (hl _)
      | notifyEnd => exact absurd rfl htmp
      | handleEnd => exact absurd rfl htmp
      | pollEnd => exact absurd rfl htmp
      | broadcastEnd => exact absurd rfl htmp
  | polled _ _ _ _ _ hnew _ => exact hnew
  | farewell _ _ _ _ _ _ _ => exact absurd rfl htmp

/-- The rule for a loop over the process list. `I` holds of the processes that the loop
has still in front of it; it is kept by the body, where processes that leave may drop out
of the chain, and by the step to the next process. -/
theorem loop_ends {l : Loop} (I : List Nat → Scheduler σ → Prop)
    (hbody : ∀ s tmp xs, Delivering s₀ s → s.stack = .loop l tmp :: fs → s.Ahead tmp xs →
      (∀ x ∈ tmp :: xs, s.Known s₀ x) → I (tmp :: xs) s →
      Ends (Scheduler.exec w fw) (Allows s₀) (fun s' =>
        s'.stack = .loopNext l tmp :: fs ∧ ∃ evs, Goes s₀ s evs s' ∧ ∀ xs' : List Nat,
          xs'.Sublist xs → (∀ x ∈ xs, x ∉ xs' → .leave x ∈ evs) → I xs' s') s)
    (hnext : ∀ s s' xs, I xs s → Delivering s₀ s → Passes s₀ s s' → s'.rank s₀ ≤ s.rank s₀ →
      s'.log = s.log → I xs s') {k : Nat} {tmp : Nat} {xs : List Nat} (hlength : xs.length ≤ k)
    (h : Delivering s₀ s) (hstack : s.stack = .loop l tmp :: fs)
    (hpath : LinkPath s.next tmp xs 0) (hzero : 0 ∉ xs) (hknown : ∀ x ∈ xs, s.Known s₀ x)
    (hI : I xs s) : Ends (Scheduler.exec w fw) (Allows s₀)
      (fun s' => s'.stack = .loop l 0 :: fs ∧ Delivering s₀ s' ∧ I [] s') s := by
  induction k generalizing s tmp xs with
  | zero =>
      obtain rfl := List.length_eq_zero_iff.mp (Nat.le_zero.mp hlength)
      obtain rfl : tmp = 0 := hpath
      exact .now ⟨hstack, h, hI⟩
  | succ k ihk =>
      cases xs with
      | nil =>
          obtain rfl : tmp = 0 := hpath
          exact .now ⟨hstack, h, hI⟩
      | cons x xs =>
          obtain ⟨rfl, hpath⟩ := hpath
          have hahead : s.Ahead tmp xs := ⟨⟨rfl, hpath⟩, hzero⟩
          refine Ends.bind (hbody s tmp xs h hstack hahead hknown hI)
            fun s' ⟨hstack', evs, hgoes, hI'⟩ => ?_
          obtain ⟨xs', hahead', hsub, hleft⟩ := hgoes.chain tmp xs hahead hknown
          have hs' := hgoes.delivering
          -- the step to the next process
          refine Ends.next fun _ => ?_
          have heff := exec_effect w fw hstack'
          have hpasses := hs'.passes hstack' trivial rfl heff
          obtain ⟨hlinks, hstack'', hlog⟩ := heff.loopNext
          have hrank := heff.rank_le hs' hstack' trivial rfl nofun
          have hlength' : xs'.length ≤ k := hsub.length_le.trans (Nat.le_of_succ_le_succ hlength)
          refine ihk hlength' hpasses.delivering hstack'' ?_ ?_ (fun x hx => ?_)
            (hnext s' _ xs' (hI' xs' hsub hleft) hs' hpasses hrank hlog)
          · rw [hlinks]
            exact hahead'.1.2
          · exact fun hmem => hahead'.2 (List.mem_cons_of_mem _ hmem)
          · have hx' := hgoes.known h (hknown x (List.mem_cons_of_mem _ (hsub.subset hx)))
            exact hx'.mono hs'.log (hlog.trans (List.append_nil _).symm)

end Loops

/-! ## One rank -/

section Rank

variable {w : Width} {fw : Firmware σ} {s₀ s s₁ s' : Scheduler σ} {m : ℕ ×ₗ ℕ}
  {f : Frame σ} {fs fs' : List (Frame σ)} (ih : ∀ m' < m, Finishing w fw s₀ m')
include ih

/-- A call of `call_process` returns. -/
theorem Called.returns {q ev : Nat} {msg : MsgArg} (hcalled : Called fw s₁ q ev msg s')
    (h : Delivering s₀ s') (hlog : s₀.log <+: s₁.log) (hfinite : s₁.callable.Finite)
    (hrank : s₁.rank s₀ ≤ m) : Returns w fw s₀ m s₁.stack s' := by
  rcases hcalled with ⟨rfl, -⟩ | henters
  · exact .now h rfl hrank
  · obtain ⟨thread, -, hstack⟩ := henters.stack
    have hlt : s'.rank s₀ < m := (henters.rank_lt hlog hfinite).trans_le hrank
    refine ((ih _ hlt).thread h hstack le_rfl).bind h fun s'' hstack' hpasses hrank' => ?_
    exact ((ih _ hlt).called hpasses.delivering hstack' hrank').mono (rankSucc_le_of_lt hlt)

/-- A step together with the call that it makes, and then on. -/
theorem Returns.over (h : Delivering s₀ s) (hstack : s.stack = f :: fs)
    (hok : f.Delivers s s₀ fs) (hf : f.serves = false) (hreturns : f.returns = none)
    (hpoll : ∀ tmp, f ≠ .loop .poll tmp) (hrank : s.rank s₀ ≤ m)
    (hnext : Allows s₀ s → ∀ s₁ s', Local w fw s fs (.frame f) s₁ →
      (s' = s₁ ∨ ∃ q ev msg, Calls w s (.frame f) q ev msg) → s'.stack = s₁.stack →
      Passes s₀ s s' → s'.rank s₀ ≤ m → Returns w fw s₀ m fs' s') : Returns w fw s₀ m fs' s := by
  refine Returns.step h hstack hok hf fun hallows s' heff hpasses => ?_
  obtain ⟨s₁, hlocal, hcall⟩ := heff
  have hrank₁ := (hlocal.rank_le h hstack hok hreturns hpoll).trans hrank
  rcases hcall with ⟨-, rfl⟩ | ⟨q, ev, msg, hcalls, hcalled⟩
  · exact hnext hallows _ _ hlocal (.inl rfl) rfl hpasses hrank₁
  · obtain ⟨evs, hlog, -⟩ := hlocal.origin
    have hlogs : s₀.log <+: s₁.log := hlog ▸ h.log.trans (List.prefix_append _ _)
    refine (hcalled.returns ih hpasses.delivering hlogs (hlocal.finite h.finite) hrank₁).bind
      hpasses.delivering fun s'' hstack' hpasses' hrank' => ?_
    exact hnext hallows _ _ hlocal (.inr ⟨q, ev, msg, hcalls⟩) hstack' (hpasses.trans h hpasses')
      hrank'

/-! ### The end of an exit -/

theorem exitScan_returns {p old : Nat} {xs : List Nat} {tmp : Nat} (h : Delivering s₀ s)
    (hstack : s.stack = .exitScan p old tmp :: fs) (hpath : LinkPath s.next tmp xs 0)
    (hrank : s.rank s₀ ≤ m) : Returns w fw s₀ m fs s := by
  induction xs generalizing s tmp with
  | nil =>
      obtain rfl : tmp = 0 := hpath
      refine Returns.over ih h hstack trivial rfl rfl nofun hrank
        fun _ s₁ s' hlocal _ hstack' hpasses hrank' => ?_
      cases hlocal with
      | quiet hpush _ _ _ hnew _ =>
          cases hpush with
          | scanNone => exact .now hpasses.delivering (hstack'.trans hnew) hrank'
          | scanNext hne _ => exact absurd rfl hne
      | leave hne _ _ _ _ _ => exact absurd rfl hne
  | cons x xs ihxs =>
      obtain ⟨rfl, hpath⟩ := hpath
      refine Returns.over ih h hstack trivial rfl rfl nofun hrank
        fun _ s₁ s' hlocal hsame hstack' hpasses hrank' => ?_
      cases hlocal with
      | quiet hpush hnext _ _ hnew _ =>
          cases hpush with
          | scanNone => exact .now hpasses.delivering (hstack'.trans hnew) hrank'
          | scanNext _ _ =>
              obtain rfl : s' = s₁ := hsame.resolve_right fun ⟨_, _, _, hcalls⟩ => by cases hcalls
              exact ihxs hpasses.delivering hnew (by rw [hnext]; exact hpath) hrank'
      | leave _ _ _ _ hnew _ => exact .now hpasses.delivering (hstack'.trans hnew) hrank'

theorem exitUnlink_returns {p old : Nat} (h : Delivering s₀ s)
    (hstack : s.stack = .exitUnlink p old :: fs) (hrank : s.rank s₀ ≤ m) :
    Returns w fw s₀ m fs s := by
  refine Returns.over ih h hstack trivial rfl rfl nofun hrank
    fun _ s₁ s' hlocal _ hstack' hpasses hrank' => ?_
  cases hlocal with
  | quiet hpush _ _ _ hnew _ =>
      cases hpush with
      | unlink _ =>
          have hscan := hstack'.trans hnew
          obtain ⟨⟨pre, suf, -, hpath, -⟩, -⟩ := hpasses.delivering.procs.search_top hscan
          exact exitScan_returns ih hpasses.delivering hscan hpath hrank'
  | leaveHead _ _ _ hnew _ => exact .now hpasses.delivering (hstack'.trans hnew) hrank'

/-! ### The searches -/

theorem exitFind_returns {p fromprocess old : Nat} {xs : List Nat} {tmp : Nat}
    (h : Delivering s₀ s) (hstack : s.stack = .exitFind p fromprocess old tmp :: fs)
    (hpath : LinkPath s.next tmp xs 0) (hrank : s.rank s₀ ≤ m) : Returns w fw s₀ m fs s := by
  induction xs generalizing s tmp with
  | nil =>
      obtain rfl : tmp = 0 := hpath
      refine Returns.over ih h hstack trivial rfl rfl nofun hrank
        fun _ s₁ s' hlocal _ hstack' hpasses hrank' => ?_
      cases hlocal with
      | quiet hpush _ _ _ hnew _ =>
          cases hpush with
          | findNone => exact .now hpasses.delivering (hstack'.trans hnew) hrank'
          | findOff hne _ => exact absurd rfl hne
          | findNext hne _ => exact absurd rfl hne
      | off hne _ _ _ _ _ _ => exact absurd rfl hne
  | cons x xs ihxs =>
      obtain ⟨rfl, hpath⟩ := hpath
      refine Returns.over ih h hstack trivial rfl rfl nofun hrank
        fun _ s₁ s' hlocal hsame hstack' hpasses hrank' => ?_
      obtain rfl : s' = s₁ := hsame.resolve_right fun ⟨_, _, _, hcalls⟩ => by cases hcalls
      cases hlocal with
      | quiet hpush hnext _ _ hnew _ =>
          cases hpush with
          | findNone => exact .now hpasses.delivering hnew hrank'
          | findOff _ _ => exact exitUnlink_returns ih hpasses.delivering hnew hrank'
          | findNext _ _ =>
              exact ihxs hpasses.delivering hnew (by rw [hnext]; exact hpath) hrank'
      | off hne hduty hnext hhead hst hnew hlog =>
          -- the process goes off duty, and the others are informed with a smaller rank
          have hlt := (Local.rank_off h hstack hne hduty hlog hst).trans_le hrank
          have hinv := hpasses.delivering.procs
          have hpath := hinv.path
          rw [hhead] at hpath
          exact ((ih _ hlt).notify hpasses.delivering hnew hpath hinv.zero
            (fun x hx => .inl hx) le_rfl).mono hlt.le

theorem startFind_returns {p : Nat} {xs : List Nat} {tmp : Nat} (h : Delivering s₀ s)
    (hstack : s.stack = .startFind p tmp :: fs) (hpath : LinkPath s.next tmp xs 0)
    (hp : p < 256 ^ sizeofPtr) (hstay : .leave p ∉ s.since s₀) (hrank : s.rank s₀ ≤ m) :
    Returns w fw s₀ m fs s := by
  induction xs generalizing s tmp with
  | nil =>
      obtain rfl : tmp = 0 := hpath
      refine Returns.over ih h hstack (fun _ => ⟨hp, hstay⟩) rfl rfl nofun hrank
        fun _ s₁ s' hlocal _ hstack' hpasses hrank' => ?_
      cases hlocal with
      | quiet hpush _ _ _ hnew _ =>
          cases hpush with
          | startFound => exact .now hpasses.delivering (hstack'.trans hnew) hrank'
          | startNext _ hne => exact absurd rfl hne
      | join _ _ _ _ hnew _ => exact .now hpasses.delivering (hstack'.trans hnew) hrank'
  | cons x xs ihxs =>
      obtain ⟨rfl, hpath⟩ := hpath
      refine Returns.over ih h hstack (fun _ => ⟨hp, hstay⟩) rfl rfl nofun hrank
        fun _ s₁ s' hlocal hsame hstack' hpasses hrank' => ?_
      cases hlocal with
      | quiet hpush hnext _ _ hnew hlog =>
          cases hpush with
          | startFound => exact .now hpasses.delivering (hstack'.trans hnew) hrank'
          | startNext _ hne =>
              obtain rfl : s' = s₁ := hsame.resolve_right fun ⟨_, _, _, hcalls⟩ => by
                cases hcalls
                exact absurd rfl hne
              rw [List.append_nil] at hlog
              refine ihxs hpasses.delivering hnew (by rw [hnext]; exact hpath) ?_ hrank'
              unfold Scheduler.since
              rw [hlog]
              exact hstay
      | join _ _ _ _ hnew _ => exact .now hpasses.delivering (hstack'.trans hnew) hrank'

/-! ### The loops -/

/-- A loop that calls somebody for every process comes to its end. -/
theorem loop_returns (l : Loop) (hl : ∀ msgPtr, l ≠ .broadcast msgPtr) (hpoll : l ≠ .poll)
    (hend : ∀ s, Delivering s₀ s → s.stack = .loop l 0 :: fs → s.rank s₀ ≤ m →
      Returns w fw s₀ m fs s) {tmp : Nat} {xs : List Nat} (h : Delivering s₀ s)
    (hstack : s.stack = .loop l tmp :: fs) (hpath : LinkPath s.next tmp xs 0) (hzero : 0 ∉ xs)
    (hknown : ∀ x ∈ xs, s.Known s₀ x) (hrank : s.rank s₀ ≤ m) : Returns w fw s₀ m fs s := by
  have hok : ∀ (s : Scheduler σ) tmp, (Frame.loop (σ := σ) l tmp).Delivers s s₀ fs := by
    intro s tmp
    cases l with
    | poll => exact absurd rfl hpoll
    | _ => trivial
  refine Ends.bind (loop_ends (fun _ s' => Passes s₀ s s' ∧ s'.rank s₀ ≤ m)
    (fun s' tmp xs hs' hstack' hahead _ hI => ?_) (fun s' s'' _ hI _ hpasses hrank' _ => ?_)
    le_rfl h hstack hpath hzero hknown ⟨.refl h, hrank⟩) fun s' ⟨hstack', hs', hI⟩ => ?_
  · have htmp : tmp ≠ 0 := fun heq => hahead.2 (heq ▸ List.mem_cons_self)
    refine Ends.mono (Returns.over ih hs' hstack' (hok s' tmp) rfl rfl
      (fun _ heq => hpoll (by injection heq)) hI.2
      fun _ s₁ s'' hlocal _ hstack'' hpasses hrank' =>
        .now hpasses.delivering (hstack''.trans (hlocal.loop_stack hl htmp)) hrank') ?_
    rintro s'' ⟨hstack'', hpasses, hrank'⟩
    exact ⟨hstack'', hpasses.choose, hpasses.choose_spec.1,
      fun _ _ _ => ⟨hI.1.trans h hpasses, hrank'⟩⟩
  · exact ⟨hI.1.trans h hpasses, hrank'.trans hI.2⟩
  · exact Ends.mono (hend s' hs' hstack' hI.2) fun s'' ⟨hstack'', hpasses, hrank'⟩ =>
      ⟨hstack'', hI.1.trans h hpasses, hrank'⟩

/-- `scheduler_handle_msg` for all processes. -/
theorem handle_returns {bytes : List UInt8} {tmp : Nat} {xs : List Nat} (h : Delivering s₀ s)
    (hstack : s.stack = .loop (.handle bytes) tmp :: fs) (hpath : LinkPath s.next tmp xs 0)
    (hzero : 0 ∉ xs) (hknown : ∀ x ∈ xs, s.Known s₀ x) (hrank : s.rank s₀ ≤ m) :
    Returns w fw s₀ m fs s := by
  refine loop_returns ih (.handle bytes) nofun nofun (fun s h hstack hrank => ?_) h hstack hpath
    hzero hknown hrank
  refine Returns.over ih h hstack trivial rfl rfl nofun hrank
    fun _ s₁ s' hlocal _ hstack' hpasses hrank' => ?_
  cases hlocal with
  | quiet hpush _ _ _ hnew _ =>
      cases hpush with
      | handle hne => exact absurd rfl hne
      | handleEnd => exact .now hpasses.delivering (hstack'.trans hnew) hrank'

/-! ### Threads -/

/-- A thread returns: it makes finitely many calls. -/
theorem thread_returns {self : Nat} {msg : MsgArg} {prog : ThreadProg σ} (h : Delivering s₀ s)
    (hstack : s.stack = .thread self msg prog :: fs) (hrank : s.rank s₀ ≤ m) :
    Returns w fw s₀ m fs s := by
  induction prog generalizing s with
  | ret code user =>
      refine Returns.over ih h hstack trivial rfl rfl nofun hrank
        fun _ s₁ s' hlocal _ hstack' hpasses hrank' => ?_
      cases hlocal with
      | quiet hpush _ _ _ hnew _ =>
          cases hpush
          exact .now hpasses.delivering (hstack'.trans hnew) hrank'
  | read k ihk =>
      refine Returns.over ih h hstack trivial rfl rfl nofun hrank
        fun _ s₁ s' hlocal _ hstack' hpasses hrank' => ?_
      cases hlocal with
      | quiet hpush _ _ _ hnew _ =>
          cases hpush with
          | read _ => exact ihk _ hpasses.delivering (hstack'.trans hnew) hrank'
          | readNode => exact ihk _ hpasses.delivering (hstack'.trans hnew) hrank'
  | send c user k ihk =>
      refine Returns.over ih h hstack trivial rfl rfl nofun hrank
        fun _ s₁ s' hlocal _ hstack' hpasses hrank' => ?_
      cases hlocal with
      | quiet hpush _ _ _ hnew _ =>
          cases hpush
          exact ihk _ _ hpasses.delivering (hstack'.trans hnew) hrank'
  | call c user k ihk =>
      -- behind the call the thread goes on with the rest of its program
      have hresume : ∀ s, Delivering s₀ s → s.stack = .resume self msg k :: fs →
          s.rank s₀ ≤ m → Returns w fw s₀ m fs s := by
        intro s h hstack hrank
        refine Returns.over ih h hstack trivial rfl rfl nofun hrank
          fun _ s₁ s' hlocal _ hstack' hpasses hrank' => ?_
        cases hlocal with
        | quiet hpush _ _ _ hnew _ =>
            cases hpush
            exact ihk _ hpasses.delivering (hstack'.trans hnew) hrank'
      refine Returns.over ih h hstack trivial rfl rfl nofun hrank
        fun hallows s₁ s' hlocal hsame hstack' hpasses hrank' => ?_
      obtain ⟨hrun, hstart⟩ := hallows (.proc c) (by rw [Scheduler.issues, hstack]; rfl)
      cases hlocal with
      | quiet hpush hlinks hhead _ hnew hlog =>
          cases hpush with
          | call hpush =>
              have hs' := hpasses.delivering
              have htop := hstack'.trans hnew
              cases hpush with
              | poll => exact hresume s' hs' htop hrank'
              | handle _ => exact hresume s' hs' htop hrank'
              | run => exact absurd rfl hrun
              | runPoll => exact absurd rfl hrun
              | @start p =>
                  obtain rfl : s' = s₁ := hsame.resolve_right fun ⟨_, _, _, hcalls⟩ => by
                    cases hcalls
                  obtain ⟨pre, suf, -, hpath, -⟩ := hs'.procs.search_top htop
                  have hstay : .leave p ∉ s'.since s₀ := by
                    rw [since_append h.log hlog, List.append_nil]
                    exact (hstart _ rfl).2
                  have hp := (hstart _ rfl).1
                  refine (startFind_returns ih hs' htop hpath hp hstay hrank').bind hs'
                    fun s'' hstack'' hpasses'' hrank'' => ?_
                  exact hresume s'' hpasses''.delivering hstack'' hrank''
              | exit =>
                  obtain ⟨pre, suf, -, hpath, -⟩ := hs'.procs.search_top htop
                  refine (exitFind_returns ih hs' htop hpath hrank').bind hs'
                    fun s'' hstack'' hpasses'' hrank'' => ?_
                  exact hresume s'' hpasses''.delivering hstack'' hrank''
              | handleAll =>
                  obtain rfl : s' = s₁ := hsame.resolve_right fun ⟨_, _, _, hcalls⟩ => by
                    cases hcalls
                    contradiction
                  have hpath := hs'.procs.path
                  rw [hhead] at hpath
                  refine (handle_returns ih hs' htop hpath hs'.procs.zero
                    (fun x hx => .inl hx) hrank').bind hs'
                    fun s'' hstack'' hpasses'' hrank'' => ?_
                  exact hresume s'' hpasses''.delivering hstack'' hrank''

/-- The end of `call_process`: the process goes on, or exits. -/
theorem called_returns {p ev caller : Nat} (h : Delivering s₀ s)
    (hstack : s.stack = .called p ev caller :: fs) (hrank : s.rank s₀ ≤ m) :
    Returns w fw s₀ (rankSucc m) fs s := by
  refine Returns.step h hstack trivial rfl fun _ s' heff hpasses => ?_
  obtain ⟨s₁, hlocal, hcall⟩ := heff
  obtain rfl : s' = s₁ := by
    rcases hcall with ⟨-, heq⟩ | ⟨_, _, _, hcalls, -⟩
    · exact heq
    · cases hcalls
  cases hlocal with
  | quiet hpush _ _ hst hnew hlog =>
      have hle := rank_le_of_same h.log h.finite hlog
        (fun p hp => by rwa [hlog, members_quiet hpush.quiet] at hp) hst
      cases hpush with
      | returned _ =>
          obtain ⟨pre, suf, -, hpath, -⟩ := hpasses.delivering.procs.search_top hnew
          exact (exitFind_returns ih hpasses.delivering hnew hpath (hle.trans hrank)).mono
            (le_rankSucc m)
  | returned _ _ _ hst hnew hlog =>
      exact .now hpasses.delivering hnew
        ((Local.rank_returned h hstack hlog hst).trans (rankSucc_mono hrank))

/-- The announcement of an exit, and what follows. -/
theorem notify_returns {proc fromprocess old tmp : Nat} {xs : List Nat} (h : Delivering s₀ s)
    (hstack : s.stack = .loop (.notify proc fromprocess old) tmp :: fs)
    (hpath : LinkPath s.next tmp xs 0) (hzero : 0 ∉ xs) (hknown : ∀ x ∈ xs, s.Known s₀ x)
    (hrank : s.rank s₀ ≤ m) : Returns w fw s₀ m fs s := by
  refine loop_returns ih (.notify proc fromprocess old) nofun nofun
    (fun s h hstack hrank => ?_) h hstack hpath hzero hknown hrank
  refine Returns.over ih h hstack trivial rfl rfl nofun hrank
    fun _ s₁ s' hlocal _ hstack' hpasses hrank' => ?_
  cases hlocal with
  | quiet hpush _ _ _ hnew _ =>
      cases hpush with
      | notify hne => exact absurd rfl hne
      | notifyEnd => exact exitUnlink_returns ih hpasses.delivering (hstack'.trans hnew) hrank'
  | farewell _ _ _ _ _ hnew _ =>
      refine (thread_returns ih hpasses.delivering (hstack'.trans hnew) hrank').bind
        hpasses.delivering fun s'' hstack'' hpasses'' hrank'' => ?_
      exact exitUnlink_returns ih hpasses''.delivering hstack'' hrank''

end Rank

/-- **Calls return** during a delivery, whatever threads do. -/
theorem finishing (w : Width) (fw : Firmware σ) (s₀ : Scheduler σ) (m : ℕ ×ₗ ℕ) :
    Finishing w fw s₀ m := by
  induction m using WellFoundedLT.induction with
  | ind m ih =>
      exact
        { thread := fun h hstack hrank => thread_returns ih h hstack hrank
          called := fun h hstack hrank => called_returns ih h hstack hrank
          notify := fun h hstack hpath hzero hknown hrank =>
            notify_returns ih h hstack hpath hzero hknown hrank }

end EmbeddedMx
