import EmbeddedMx.Dart.Attempts
import EmbeddedMx.Dart.Fate

/-!
# What messages cost

Every message may be transmitted `DART_TX_ATTEMPTS` times, and then its transfer is over: with
its acceptance a message brings all that its transfers can cost (`Event.brings`). From then on
the engine has a budget. Every transmission is paid for with it, and what is left of a message
when its transfer ends is never used. Only a transfer that is given up for a peer that is not
ready (`abort`) may start anew without having been paid for.

The cost of a transmission is a parameter: one, or the length of the frame.
-/

namespace EmbeddedMx

open EmbeddedMx.Lib

/-! ## Costs -/

section Costs

variable (cost : Msg → Nat) (b : Nat)

/-- What is set aside for a message: its transmissions, and `b` for each of its two ends, the
acknowledge and the response. -/
def price (m : Msg) : Nat := dartTxAttempts * cost m + 2 * b

/-- What an event costs. -/
def Event.costs (ev : Event) : Nat := (ev.sent.map cost).getD 0

/-- What an event brings. -/
def Event.brings : Event → Nat
  | .accept _ m => price cost b m
  | _ => 0

/-- A transfer was acknowledged, or the fate of a message is reported. -/
def Event.settles : Event → Bool
  | .promote _ => true
  | ev => ev.reports.isSome

/-- What the transmissions cost. -/
def spent (evs : List Event) : Nat := (evs.map (Event.costs cost)).sum

/-- What the accepted messages bring. -/
def earned (evs : List Event) : Nat := (evs.map (Event.brings cost b)).sum

theorem spent_append (evs evs' : List Event) :
    spent cost (evs ++ evs') = spent cost evs + spent cost evs' := by
  unfold spent
  rw [List.map_append, List.sum_append]

theorem earned_append (evs evs' : List Event) :
    earned cost b (evs ++ evs') = earned cost b evs + earned cost b evs' := by
  unfold earned
  rw [List.map_append, List.sum_append]

/-- Giving bytes to the uart costs nothing by itself. -/
theorem spent_uarts {evs : List Event} (h : Uarts evs) : spent cost evs = 0 := by
  refine List.sum_eq_zero_iff_forall_eq_nat.mpr fun k hk => ?_
  obtain ⟨ev, hev, rfl⟩ := List.mem_map.mp hk
  obtain ⟨bytes, rfl⟩ := h ev hev
  rfl

theorem settles_uarts {evs : List Event} (h : Uarts evs) : evs.countP Event.settles = 0 := by
  refine List.countP_eq_zero.mpr fun ev hev => ?_
  obtain ⟨bytes, rfl⟩ := h ev hev
  exact Bool.false_ne_true

end Costs

/-! ## The budget of the engine -/

namespace Engine

/-- The messages in the lists. -/
def queued (e : Engine) : List Msg := stored prios e.lists []

/-- What is set aside for the messages. -/
def budget (cost : Msg → Nat) (b : Nat) (e : Engine) : Nat :=
  (e.queued.map (price cost b)).sum + b * e.pending.toList.length

/-- What of it the transfer that is on has used: `s` is what the log says of it. -/
def used (cost : Msg → Nat) (e : Engine) (s : Option (Nat × Nat)) : Nat :=
  match s, e.current with
  | some (_, k), some m => k * cost m
  | _, _ => 0

variable {cost : Msg → Nat} {b : Nat} {e : Engine} {i : Fin msgPrioLength} {m : Msg}
  {ms : List Msg}

/-- What is left of it. -/
def left (cost : Msg → Nat) (b : Nat) (e : Engine) (s : Option (Nat × Nat)) : Nat :=
  e.budget cost b - e.used cost s

@[simp] theorem used_none : e.used cost none = 0 := rfl

theorem used_some {p k : Nat} (hm : e.current = some m) : e.used cost (some (p, k)) = k * cost m := by
  unfold used
  rw [hm]

theorem used_congr {e' : Engine} (h : e'.current = e.current) (s : Option (Nat × Nat)) :
    e'.used cost s = e.used cost s := by
  unfold used
  rw [h]

theorem queued_close (hcons : e.lists i = m :: ms) :
    ((e.queued.map (price cost b)).sum =
      price cost b m + ((e.close i ms).queued.map (price cost b)).sum) := by
  have hperm : (stored prios (Function.update e.lists i ms) [m]).Perm e.queued :=
    stored_pop_perm prios_nodup (mem_prios i) hcons
  have hfront : (m :: (e.close i ms).queued).Perm e.queued :=
    StoreRep.stored_cons_perm.symm.trans hperm
  rw [← (hfront.map (price cost b)).sum_nat]
  exact List.sum_cons

theorem queued_push :
    ((e.push i m).queued.map (price cost b)).sum =
      price cost b m + (e.queued.map (price cost b)).sum := by
  have hperm : (e.push i m).queued.Perm (m :: e.queued) :=
    (stored_push_perm prios_nodup (mem_prios i)).trans StoreRep.stored_cons_perm
  rw [(hperm.map (price cost b)).sum_nat]
  exact List.sum_cons

end Engine

theorem budget_close {cost : Msg → Nat} {b : Nat} {e : Engine} {i : Fin msgPrioLength} {m : Msg}
    {ms : List Msg} (hcons : e.lists i = m :: ms) :
    e.budget cost b = price cost b m + (e.close i ms).budget cost b := by
  unfold Engine.budget
  rw [Engine.queued_close hcons, Nat.add_assoc]
  rfl

/-- What the log says of the transfer, and what the engine says. -/
structure Coupled (w : Width) (e : Engine) (s : Option (Nat × Nat)) : Prop where
  wf : EngineWf w e
  busy : s.isSome = e.transfering.isSome
  bound : ∀ p k, s = some (p, k) → k ≤ dartTxAttempts

namespace Coupled

variable {w : Width} {cost : Msg → Nat} {b : Nat} {e e' : Engine} {s s' : Option (Nat × Nat)}
  {evs : List Event}

/-- While no transfer is on, nothing is used. -/
theorem idle (h : Coupled w e s) (hidle : e.transfering = none) : s = none := by
  have hbusy := h.busy
  rw [hidle] at hbusy
  exact Option.not_isSome_iff_eq_none.mp (by rw [hbusy]; exact Bool.false_ne_true)

/-- A transfer uses at most what is set aside for its transmissions. -/
theorem used_le (h : Coupled w e s) {i : Fin msgPrioLength} {m : Msg} {ms : List Msg}
    (hi : e.transfering = some i) (hcons : e.lists i = m :: ms) :
    e.used cost s ≤ dartTxAttempts * cost m := by
  rcases s with - | ⟨p, k⟩
  · exact Nat.zero_le _
  · rw [Engine.used_some (Engine.current_eq hi hcons)]
    exact Nat.mul_le_mul_right _ (h.bound p k rfl)

/-- What is used was set aside. -/
theorem used_le_budget (h : Coupled w e s) : e.used cost s ≤ e.budget cost b := by
  cases hi : e.transfering with
  | none =>
      obtain rfl := h.idle hi
      exact Nat.zero_le _
  | some i =>
      obtain ⟨m, ms, hcons⟩ := List.exists_cons_of_ne_nil (h.wf.busy i hi)
      have hused : e.used cost s ≤ dartTxAttempts * cost m := h.used_le hi hcons
      rw [budget_close hcons]
      unfold price
      omega

theorem of_idle (hwf : EngineWf w e) (hidle : e.transfering = none) : Coupled w e none where
  wf := hwf
  busy := by rw [hidle]; rfl
  bound := by
    rintro p k ⟨⟩

end Coupled

/-- After `evs` the engine `e'` is in accordance with the log again, and what was spent and
what was settled is accounted for. -/
structure Accounts (w : Width) (cost : Msg → Nat) (b : Nat) (e : Engine) (s : Option (Nat × Nat))
    (evs : List Event) (e' : Engine) (s' : Option (Nat × Nat)) : Prop where
  coupled : Coupled w e' s'
  balance : spent cost evs + b * evs.countP Event.settles + e'.budget cost b + e.used cost s ≤
    e.budget cost b + earned cost b evs + e'.used cost s'

namespace Accounts

variable {w : Width} {cost : Msg → Nat} {b : Nat} {e e' e'' : Engine}
  {s s' s'' : Option (Nat × Nat)} {evs evs' : List Event}

theorem refl (h : Coupled w e s) : Accounts w cost b e s [] e s where
  coupled := h
  balance := by
    show 0 + b * 0 + _ + _ ≤ _ + 0 + _
    omega

theorem trans (h : Accounts w cost b e s evs e' s') (h' : Accounts w cost b e' s' evs' e'' s'') :
    Accounts w cost b e s (evs ++ evs') e'' s'' where
  coupled := h'.coupled
  balance := by
    have hfirst := h.balance
    have hsecond := h'.balance
    rw [spent_append, earned_append, List.countP_append, Nat.mul_add]
    omega

/-- Nothing happens to the messages. -/
theorem unpaid (h : Coupled w e s) (hspent : spent cost evs = 0)
    (hsettles : evs.countP Event.settles = 0) : Accounts w cost b e s evs e s where
  coupled := h
  balance := by
    rw [hspent, hsettles]
    omega

/-- The transfer is over, and what is left of its message is dropped. -/
theorem closed (h : Coupled w e s) {i : Fin msgPrioLength} {m : Msg} {ms : List Msg}
    (hi : e.transfering = some i) (hcons : e.lists i = m :: ms) (hwf : EngineWf w e')
    (hidle : e'.transfering = none)
    (hbudget : e'.budget cost b + dartTxAttempts * cost m + b ≤ e.budget cost b)
    (hspent : spent cost evs = 0) (hsettles : evs.countP Event.settles = 1) :
    Accounts w cost b e s evs e' none where
  coupled := .of_idle hwf hidle
  balance := by
    have hused : e.used cost s ≤ dartTxAttempts * cost m := h.used_le hi hcons
    rw [hspent, hsettles, Engine.used_none]
    omega

/-- The pending request is over. -/
theorem unpended (h : Coupled w e s) {m : Msg} (hm : e.pending = some m)
    (hspent : spent cost evs = 0) (hsettles : evs.countP Event.settles = 1) :
    Accounts w cost b e s evs { e with pending := none } s where
  coupled := ⟨h.wf.unpend hm, h.busy, h.bound⟩
  balance := by
    have hused : Engine.used cost { e with pending := none } s = e.used cost s :=
      Engine.used_congr rfl s
    have hbudget : e.budget cost b = Engine.budget cost b { e with pending := none } + b := by
      unfold Engine.budget
      rw [hm]
      show _ + b * 1 = _ + b * 0 + b
      rw [Nat.mul_one, Nat.mul_zero, Nat.add_zero]
      rfl
    rw [hspent, hsettles, hused, hbudget]
    omega

end Accounts

/-- What is left after a run. -/
theorem Accounts.left {w : Width} {cost : Msg → Nat} {b : Nat} {e e' : Engine}
    {s s' : Option (Nat × Nat)} {evs : List Event} (h : Accounts w cost b e s evs e' s')
    (hs : Coupled w e s) :
    spent cost evs + b * evs.countP Event.settles + e'.left cost b s' ≤
      e.left cost b s + earned cost b evs := by
  have hbalance := h.balance
  have hbefore : e.used cost s ≤ e.budget cost b := hs.used_le_budget
  have hafter : e'.used cost s' ≤ e'.budget cost b := h.coupled.used_le_budget
  unfold Engine.left
  omega

section Steps

variable {w : Width} {cost : Msg → Nat} {b : Nat} {late : Prop} {e e' : Engine}
  {s s' : Option (Nat × Nat)} {evs : List Event}

theorem replay_quiet (hreplay : evs.foldlM attemptStep s = some s')
    (hevs : ∀ ev ∈ evs, ev.quiet = true) : s' = s := by
  rw [foldlM_idle (fun ev hev => attemptStep_quiet (hevs ev hev)) s] at hreplay
  exact (Option.some.inj hreplay).symm

theorem budget_pending {m : Msg} (hnone : e.pending = none) :
    Engine.budget cost b { e with pending := some m } = e.budget cost b + b := by
  unfold Engine.budget
  rw [hnone]
  show _ + b * 1 = _ + b * 0 + b
  rw [Nat.mul_one, Nat.mul_zero, Nat.add_zero]
  rfl

/-- Steps caused by the line. -/
theorem accounts_input (h : Coupled w e s) (hstep : EngineIn w e evs e')
    (hreplay : evs.foldlM attemptStep s = some s') : Accounts w cost b e s evs e' s' := by
  have hwf := h.wf.input hstep
  cases hstep with
  | ignored hack =>
      rename_i ch
      by_cases hch : ch = dartAck
      · subst hch
        obtain rfl := h.idle (hack rfl)
        cases hreplay
        exact .unpaid h rfl rfl
      · obtain rfl := replay_quiet hreplay (List.forall_mem_singleton.mpr (quiet_control hch))
        exact .unpaid h rfl rfl
  | done hi hcons hreq =>
      -- both ends of the message go with it, and only one of them is used
      cases hreplay
      refine .closed h hi hcons hwf rfl ?_ rfl rfl
      rw [budget_close hcons]
      unfold price
      omega
  | promote hi hcons hreq =>
      rename_i i m ms
      cases hreplay
      -- one end stays with the request, for its response
      refine .closed h hi hcons hwf rfl ?_ rfl rfl
      have hnone : (e.close i ms).pending = none := h.wf.pending_none hi hcons hreq
      rw [budget_close hcons, budget_pending hnone]
      unfold price
      omega
  | received =>
      obtain rfl := replay_quiet hreplay
        (List.forall_mem_cons.mpr ⟨rfl, List.forall_mem_singleton.mpr rfl⟩)
      exact .unpaid h rfl rfl
  | answered hm _ =>
      obtain rfl := replay_quiet hreplay (List.forall_mem_cons.mpr
        ⟨rfl, List.forall_mem_cons.mpr ⟨rfl, List.forall_mem_singleton.mpr rfl⟩⟩)
      exact .unpended h hm rfl rfl
  | damaged =>
      obtain rfl := replay_quiet hreplay
        (List.forall_mem_cons.mpr ⟨rfl, List.forall_mem_singleton.mpr rfl⟩)
      exact .unpaid h rfl rfl

/-- Steps the endpoint takes by itself, unless a transfer is given up. -/
theorem accounts_output {out : Msg → List Event} {ok : Msg → Prop} (h : Coupled w e s)
    (hout : ∀ m, Uarts (out m)) (hstep : EngineOut w out late ok e evs e')
    (hreplay : evs.foldlM attemptStep s = some s') (habort : .abort ∉ evs) :
    Accounts w cost b e s evs e' s' := by
  have hwf := h.wf.output hstep
  cases hstep with
  | quiet hev =>
      rename_i ev
      cases hev with
      | pin state =>
          obtain rfl := replay_quiet hreplay (List.forall_mem_singleton.mpr rfl)
          exact .unpaid h rfl rfl
      | notify code n =>
          by_cases hcode : code = .transferFailure
          · -- the replay refuses a failure without a message
            subst hcode
            rcases s with - | ⟨p, k⟩
            · cases hreplay
            · cases hreplay
          · obtain rfl := replay_quiet hreplay
              (List.forall_mem_singleton.mpr (quiet_callback hcode _ _))
            exact .unpaid h rfl (by cases code <;> rfl)
  | accept hok hfresh =>
      rename_i i m
      obtain rfl := replay_quiet hreplay (List.forall_mem_singleton.mpr rfl)
      refine ⟨⟨hwf, h.busy, h.bound⟩, ?_⟩
      rw [Engine.used_congr (h.wf.current_push i m)]
      have hbudget : (e.push i m).budget cost b = price cost b m + e.budget cost b := by
        unfold Engine.budget
        rw [Engine.queued_push, Nat.add_assoc]
        rfl
      rw [hbudget]
      show 0 + b * 0 + _ + _ ≤ _ + (price cost b m + 0) + _
      omega
  | start hidle hcons hreq =>
      rename_i i m ms
      obtain rfl := h.idle hidle
      have hs : s' = some (m.ptr, 1) := by
        rw [List.foldlM_cons] at hreplay
        exact replay_quiet (s := some (m.ptr, 1)) hreplay (hout m).quiet
      subst hs
      refine ⟨⟨hwf, rfl, ?_⟩, ?_⟩
      · rintro p k ⟨⟩
        decide
      · have hcurrent : Engine.current { e with transfering := some i } = some m :=
          Engine.current_eq rfl hcons
        rw [Engine.used_some hcurrent, Engine.used_none]
        have hspent : spent cost (.start m :: out m) = cost m := by
          show cost m + spent cost (out m) = _
          rw [spent_uarts cost (hout m), Nat.add_zero]
        have hsettles : (.start m :: out m).countP Event.settles = 0 :=
          (List.countP_cons_of_neg Bool.false_ne_true).trans (settles_uarts (hout m))
        have hbudget : Engine.budget cost b { e with transfering := some i } = e.budget cost b :=
          rfl
        rw [hspent, hsettles, hbudget]
        omega
  | retry hlate hi hcons =>
      rename_i i m ms
      rw [List.foldlM_cons] at hreplay
      obtain ⟨s₁, hretry, hrest⟩ := Option.bind_eq_some_iff.mp hreplay
      obtain rfl := replay_quiet hrest (hout m).quiet
      rcases attemptStep_cases hretry with ⟨_, heq, -⟩ | ⟨m', k, heq, rfl, hlt, rfl⟩ | ⟨hends, -⟩ |
        ⟨hquiet, -⟩
      · cases heq
      · cases heq
        refine ⟨⟨hwf, h.busy, ?_⟩, ?_⟩
        · rintro p k' ⟨⟩
          exact hlt
        · have hcurrent := Engine.current_eq hi hcons
          rw [Engine.used_some hcurrent, Engine.used_some hcurrent, Nat.succ_mul]
          have hspent : spent cost (.retry m :: out m) = cost m := by
            show cost m + spent cost (out m) = _
            rw [spent_uarts cost (hout m), Nat.add_zero]
          have hsettles : (.retry m :: out m).countP Event.settles = 0 :=
            (List.countP_cons_of_neg Bool.false_ne_true).trans (settles_uarts (hout m))
          rw [hspent, hsettles]
          omega
      · cases hends
      · cases hquiet
  | abort _ => exact absurd List.mem_cons_self habort
  | failure hlate hi hcons =>
      rw [List.foldlM_cons] at hreplay
      obtain ⟨s₁, hfailure, hnil⟩ := Option.bind_eq_some_iff.mp hreplay
      cases hnil
      rcases attemptStep_cases hfailure with ⟨_, heq, -⟩ | ⟨_, _, heq, -⟩ | ⟨-, rfl⟩ | ⟨hquiet, -⟩
      · cases heq
      · cases heq
      · refine .closed h hi hcons hwf rfl ?_ rfl rfl
        rw [budget_close hcons]
        unfold price
        omega
      · cases hquiet
  | abandoned hm =>
      obtain rfl := replay_quiet hreplay
        (List.forall_mem_singleton.mpr (quiet_callback (by decide) _ _))
      exact .unpended h hm rfl rfl

/-- A run of the engine. -/
theorem accounts_run {R : Engine → List Event → Engine → Prop} (hrun : Runs R e evs e')
    (hR : ∀ e evs e', R e evs e' → EngineStep w late e evs e') (h : Coupled w e s)
    (hreplay : evs.foldlM attemptStep s = some s') (habort : .abort ∉ evs) :
    Accounts w cost b e s evs e' s' := by
  induction hrun generalizing s' with
  | refl =>
      cases hreplay
      exact .unpaid h rfl rfl
  | tail hpre hstep ih =>
      rw [List.foldlM_append] at hreplay
      obtain ⟨s₁, hfirst, hrest⟩ := Option.bind_eq_some_iff.mp hreplay
      -- the replay of the run goes through the state after its first part
      have hbefore := ih hfirst fun hmem => habort (List.mem_append_left _ hmem)
      refine hbefore.trans ?_
      cases hR _ _ _ hstep with
      | input hin => exact accounts_input hbefore.coupled hin hrest
      | output hout hown =>
          exact accounts_output hbefore.coupled hout hown hrest fun hmem =>
            habort (List.mem_append_right _ hmem)

end Steps

/-- At most the open messages are paid for. -/
theorem left_le_open {cost : Msg → Nat} {e : Engine} {log : List Event} {opened : List Msg}
    (h : LedgerOk e log) (hopen : openMessages log = some opened) (s : Option (Nat × Nat)) :
    e.left cost 0 s ≤ (opened.map fun m => dartTxAttempts * cost m).sum := by
  obtain ⟨opened', hopen', hperm⟩ := h
  cases hopen.symm.trans hopen'
  have hsplit : e.messages = e.queued ++ e.pending.toList := by
    unfold Engine.messages Engine.queued stored
    rw [List.append_nil]
  rw [(hperm.map _).sum_nat, hsplit, List.map_append, List.sum_append]
  have hprice : price cost 0 = fun m => dartTxAttempts * cost m := by
    funext m
    unfold price
    rw [Nat.mul_zero, Nat.add_zero]
  unfold Engine.left Engine.budget
  rw [hprice, Nat.zero_mul, Nat.add_zero]
  omega

/-! ## Giving up -/

/-- From `d` to `d'` no transfer was given up. -/
def Persists (d d' : Dart) : Prop := ∃ evs, d'.log = d.log ++ evs ∧ .abort ∉ evs

namespace Persists

variable {d d' d'' : Dart}

theorem same (hlog : d'.log = d.log) : Persists d d' :=
  ⟨[], by rw [hlog, List.append_nil], List.not_mem_nil⟩

theorem of_log (evs : List Event) (hlog : d'.log = d.log ++ evs) (hevs : ∀ ev ∈ evs, ev ≠ .abort) :
    Persists d d' :=
  ⟨evs, hlog, fun hmem => hevs _ hmem rfl⟩

theorem emit (d : Dart) {ev : Event} (hev : ev ≠ .abort) : Persists d (d.emit ev) :=
  .of_log [ev] rfl (List.forall_mem_singleton.mpr hev)

theorem trans (h : Persists d d') (h' : Persists d' d'') : Persists d d'' := by
  obtain ⟨evs, hlog, hevs⟩ := h
  obtain ⟨evs', hlog', hevs'⟩ := h'
  refine ⟨evs ++ evs', by rw [hlog', hlog, List.append_assoc], fun hmem => ?_⟩
  rcases List.mem_append.mp hmem with hmem | hmem
  · exact hevs hmem
  · exact hevs' hmem

theorem congr (h : Persists d d') (hlog : d''.log = d'.log) : Persists d d'' :=
  h.trans (.same hlog)

end Persists

section Functions

variable (B : Build) (env : Env) (d : Dart)

theorem persists_trigger : Persists d (dartTriggerTransfer B env d).1 := by
  obtain ⟨⟨evs, hlog, hevs⟩, -⟩ := trigger_events B env d
  refine ⟨evs, hlog, fun hmem => ?_⟩
  cases hevs _ hmem

theorem persists_triggerNext : Persists d (dartTriggerNextTransfer B env d) := by
  unfold dartTriggerNextTransfer
  dsimp only
  split
  · exact (persists_trigger B env d).trans (.emit _ Event.noConfusion)
  · exact persists_trigger B env d

theorem persists_finalize :
    Persists d (dartTriggerNextTransfer B env (dartFinalizeTransfer d)) :=
  (Persists.same (dartFinalizeTransfer_log d)).trans (persists_triggerNext B env _)

theorem persists_retry : Persists d (dartRetryTransfer B env d) := by
  unfold dartRetryTransfer
  split
  · exact .same rfl
  · dsimp only
    split
    · exact .same rfl
    · rename_i i _ _
      split
      · generalize hd₁ : Dart.emit _ _ = d₁
        obtain ⟨evs, hevs, htransfer⟩ := dartTransferMsg_eq B env d₁ (msgListPeek (d.queue i))
        rw [htransfer]
        have hretry : Persists d d₁ := hd₁ ▸ .of_log [_] rfl (by simp)
        refine hretry.trans (.of_log evs rfl fun ev hev => ?_)
        obtain ⟨bytes, rfl⟩ := hevs ev hev
        exact Event.noConfusion
      · refine Persists.trans ?_ (persists_finalize B env _)
        exact .of_log [_] rfl (by simp)

theorem persists_acknowledge : Persists d (dartAcknowledgeMsg B env d) := by
  unfold dartAcknowledgeMsg
  split
  · exact .same rfl
  · dsimp only
    split
    · exact .same rfl
    · split
      · refine Persists.trans ?_ (persists_finalize B env _)
        exact .of_log [_] rfl (by simp)
      · refine Persists.trans ?_ (persists_finalize B env _)
        exact .of_log [_] rfl (by simp)

theorem persists_finalizeRequest : Persists d (dartFinalizeRequestMsg B env d) :=
  Persists.trans (.same rfl) (persists_triggerNext B env _)

theorem persists_abandon : Persists d (dartAbandonRequestMsg B env d) := by
  unfold dartAbandonRequestMsg
  split
  · exact (Persists.emit d Event.noConfusion).trans (persists_finalizeRequest B env _)
  · exact .same rfl

theorem persists_control (ch : UInt8) : Persists d (dartHandleControl B env d ch) := by
  have hemit : Persists d (d.emit (.control ch)) := .emit d Event.noConfusion
  unfold dartHandleControl
  split
  · exact hemit.trans (persists_acknowledge B env _)
  · split
    · exact hemit.trans (persists_retry B env _)
    · split
      · exact hemit.trans (persists_trigger B env _)
      · exact .same rfl

/-- Receiving a byte gives up nothing. -/
theorem persists_received (ch : UInt8) : Persists d (dartHandleReceivedChar B env d ch) := by
  have hkept : KeptByReceiving B env (Persists d) :=
    { same := fun h hsame => h.congr hsame.log
      emit := fun hev h => h.trans (.emit _ (by rintro rfl; cases hev))
      raise := fun h => h.trans (.of_log [.pin true] rfl (by simp))
      control := fun ch h => h.trans (persists_control B env _ ch)
      finish := fun h => h.trans (persists_finalizeRequest B env _) }
  exact hkept.received (.same rfl) ch

theorem persists_closing : Persists d (dartHandleClosing env d).1 := by
  have hset : ∀ state, Persists d (d.setWrk state) := fun state => .of_log [.pin state] rfl (by simp)
  unfold dartHandleClosing
  split
  · split
    · split
      · exact (hset false).congr rfl
      · exact .same rfl
    · exact .same rfl
  · split
    · split
      · dsimp only
        split
        · exact .same rfl
        · exact .of_log [_] rfl (by simp)
      · exact .same rfl
    · split
      · exact hset true
      · exact .same rfl

/-- The time handler gives up a transfer only if it finds the ACK timer expired while the peer
is not ready. -/
theorem persists_time (hrdy : timerExpired d.txAckTimer env.clock → env.rdy = true) :
    Persists d (dartHandleTime B env d).1 := by
  have hrest : ∀ d₁ : Dart, ¬ d₁.Overdue env →
      (timerExpired d₁.txAckTimer env.clock → env.rdy = true) →
      Persists d₁ (dartHandleTime B env d₁).1 := by
    intro d₁ hdue hrdy₁
    unfold Dart.Overdue at hdue
    unfold dartHandleTime
    rw [if_neg hdue]
    dsimp only
    split
    · split
      · rename_i hexpired
        rw [if_pos (hrdy₁ hexpired)]
        exact Persists.trans (.same rfl) (persists_retry B env _)
      · exact .same rfl
    · split
      · split
        · exact .of_log [.pin false] rfl (by simp)
        · exact persists_trigger B env d₁
      · split
        · exact persists_closing env d₁
        · exact .same rfl
  by_cases hdue : d.Overdue env
  · -- the transfer that is triggered next has an ACK timer that was just started
    obtain ⟨heq, hfree⟩ := dartHandleTime_overdue B env d hdue
    rw [heq]
    refine (persists_abandon B env d).trans (hrest _ hfree fun hexpired => ?_)
    rcases dartAbandonRequestMsg_ack B env d with ⟨-, hack⟩ | hfresh
    · exact hrdy (hack ▸ hexpired)
    · rw [hfresh] at hexpired
      cases hexpired
  · exact hrest d hdue hrdy

theorem persists_send (prio : Nat) (msg : Mem) (msgLen : Nat) :
    Persists d (dartSendMsgEx B env d prio msg msgLen).1 := by
  unfold dartSendMsgEx
  split
  · exact .same rfl
  · dsimp only
    generalize (if prio = dartMsgPrioAny then
      dartGuessPriority B (msg.load 0 B.msgtypeSize.bytes) else prio) = prio
    split
    · exact .same rfl
    · split
      · exact .same rfl
      · refine Persists.trans ?_ (persists_trigger B env _)
        exact .of_log [_] rfl (by simp)

end Functions

/-- A transfer is given up only by the time handler, when it finds the ACK timer expired and
the peer is not ready. -/
def DartCall.Insists (env : Env) (d : Dart) : DartCall → Prop
  | .time => timerExpired d.txAckTimer env.clock → env.rdy = true
  | _ => True

theorem persists_call (B : Build) (env : Env) (d : Dart) (call : DartCall)
    (h : call.Insists env d) : Persists d (dartCall B env d call) := by
  cases call with
  | send prio msg msgLen => exact persists_send B env d prio msg msgLen
  | receive ch => exact persists_received B env d ch
  | time => exact persists_time B env d h

/-! ## The books of an endpoint -/

/-- The engine an endpoint is in, in accordance with its log. -/
def Keeps (B : Build) (n : Nat) (d : Dart) (e : Engine) : Prop :=
  DartRep B n d e ∧ Coupled B.msgtypeSize e d.attempt

/-- In every run the endpoint keeps its books, and the messages of the engine are those
accepted and not yet reported. -/
theorem dart_keeps {B : Build} {n : Nat} {d : Dart} (hd : (fittingSystem B n).Reachable d) :
    ∃ e, Keeps B n d e ∧ LedgerOk e d.log := by
  obtain ⟨e, hrun, hrep⟩ := dart_refines_engine B n d hd
  obtain ⟨hwf, hledger⟩ := engine_ledger hrun
  have htied := definedSystem_tied (fittingSystem_defined hd)
  refine ⟨e, ⟨hrep, ⟨hwf, ?_, ?_⟩⟩, hledger⟩
  · rw [← hrep.transfering]
    unfold Dart.attempt
    exact Option.isSome_map
  · intro p k hattempt
    unfold Dart.attempt at hattempt
    obtain ⟨i, hi, heq⟩ := Option.map_eq_some_iff.mp hattempt
    cases heq
    exact htied.bound (by rw [hi]; rfl)

/-- A call that gives up nothing pays for what it sends. -/
theorem call_accounts {B : Build} {n : Nat} {env : Env} {d : Dart} {e : Engine} {call : DartCall}
    (hd : (fittingSystem B n).Reachable d) (hkeeps : Keeps B n d e) (hvalid : call.Valid B)
    (hfits : call.Fits B d) (hinsists : call.Insists env d) :
    ∃ evs e', (dartCall B env d call).log = d.log ++ evs ∧ Runs (CallStep B env) e evs e' ∧
      Keeps B n (dartCall B env d call) e' ∧
      ∀ cost b, Accounts B.msgtypeSize cost b e d.attempt evs e' (dartCall B env d call).attempt := by
  obtain ⟨hrep, hcoupled⟩ := hkeeps
  obtain ⟨evs, e', hlog, hrun, hrep'⟩ := tracks_dartCall env hrep hvalid hfits
  have hd' : (fittingSystem B n).Reachable (dartCall B env d call) :=
    hd.step (i := (env, call)) ⟨hfits, hvalid, rfl⟩
  have hreplay : evs.foldlM attemptStep d.attempt = some (dartCall B env d call).attempt := by
    have hbefore := (definedSystem_tied (fittingSystem_defined hd)).replay
    have hafter := (definedSystem_tied (fittingSystem_defined hd')).replay
    rw [hlog] at hafter
    exact (foldlM_resume hbefore evs).symm.trans hafter
  -- the events of the run are those of the log, so `persists_call` speaks of them
  have habort : .abort ∉ evs := by
    obtain ⟨evs', hlog', habort⟩ := persists_call B env d call hinsists
    rwa [List.append_cancel_left (hlog.symm.trans hlog')]
  have haccounts : ∀ cost b,
      Accounts B.msgtypeSize cost b e d.attempt evs e' (dartCall B env d call).attempt :=
    fun cost b => accounts_run hrun (fun _ _ _ hstep => hstep.engine) hcoupled hreplay habort
  exact ⟨evs, e', hlog, hrun, ⟨hrep', (haccounts 0 0).coupled⟩, haccounts⟩

end EmbeddedMx
