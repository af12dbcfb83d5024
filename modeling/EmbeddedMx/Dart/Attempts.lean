import Mathlib.Data.List.Induction
import EmbeddedMx.Dart.Supervision

/-!
# Bounded retransmission

A transfer begins where a message is selected and ends with the acknowledge byte, with the
failure callback, or where it is given up because the peer is not ready. Retries come from
negative acknowledge bytes and from timeouts, and other calls come between them: sends,
frames of the peer, responses.

`attemptStep` replays a log and counts the calls of `dart_transfer_msg` for the message that
is in transfer; it refuses a log with one call too many, with another message in between, or
with a failure that comes too early. The count agrees with `tx_attempts` all the time
(`Tied`), so no log of an endpoint is refused.
-/

namespace EmbeddedMx

open EmbeddedMx.Lib

/-! ## Transfers in the log -/

/-- The end of a transfer: it was acknowledged, it failed, or it was given up. -/
def Event.ends : Event → Bool
  | .control ch => ch = dartAck
  | .callback .transferFailure _ _ => true
  | .abort => true
  | _ => false

/-- The message in transfer is sent again. -/
def Event.repeats : Event → Bool
  | .retry _ => true
  | _ => false

/-- At the end of `log` the message `m` is in transfer, and `since` is what was logged after
the start. -/
def InTransfer (log : List Event) (m : Msg) (since : List Event) : Prop :=
  (∃ pre, log = pre ++ .start m :: since) ∧ ∀ ev ∈ since, ev.ends = false

/-- The calls of `dart_transfer_msg` in a transfer: the one at its start, and the retries. -/
def transferCalls (since : List Event) : Nat := 1 + since.countP Event.repeats

/-! ## The replay -/

/-- The message in transfer, and how often it was sent. -/
def attemptStep (s : Option (Nat × Nat)) : Event → Option (Option (Nat × Nat))
  | .start m =>
      match s with
      | none => some (some (m.ptr, 1))
      | some _ => none
  | .retry m =>
      match s with
      | none => none
      | some (p, k) => if m.ptr = p ∧ k < dartTxAttempts then some (some (p, k + 1)) else none
  | .callback .transferFailure param _ =>
      match s, param with
      | some (p, k), .stored m => if m.ptr = p ∧ k = dartTxAttempts then some none else none
      | _, _ => none
  | ev => some (if ev.ends then none else s)

def replayAttempts (log : List Event) : Option (Option (Nat × Nat)) := log.foldlM attemptStep none

/-- Events that have nothing to do with the transfer. -/
def Event.quiet (ev : Event) : Bool := ev.sent.isNone && !ev.ends

theorem quiet_repeats {ev : Event} (h : ev.quiet = true) : ev.repeats = false := by
  cases ev with
  | retry m => cases h
  | _ => rfl

theorem quiet_ends {ev : Event} (h : ev.quiet = true) : ev.ends = false := by
  simpa [Event.quiet] using (Bool.and_eq_true_iff.mp h).2

theorem quiet_control {ch : UInt8} (h : ch ≠ dartAck) : (Event.control ch).quiet = true := by
  show (!decide (ch = dartAck)) = true
  rw [decide_eq_false h]
  rfl

theorem quiet_callback {code : Clbk} (h : code ≠ .transferFailure) (param : Param) (len : Nat) :
    (Event.callback code param len).quiet = true := by
  cases code with
  | transferFailure => exact absurd rfl h
  | _ => rfl

theorem attemptStep_quiet {ev : Event} (h : ev.quiet = true) (s : Option (Nat × Nat)) :
    attemptStep s ev = some s := by
  unfold Event.quiet at h
  cases ev with
  | start m => cases h
  | retry m => cases h
  | abort => cases h
  | callback code param len =>
      cases code with
      | transferFailure => cases h
      | _ => rfl
  | control ch =>
      have hack : ch ≠ dartAck := by
        rintro rfl
        cases h
      exact congrArg some (if_neg fun hends => hack (of_decide_eq_true hends))
  | _ => rfl

/-- What one event can do to the transfer. -/
theorem attemptStep_cases {s s' : Option (Nat × Nat)} {ev : Event}
    (h : attemptStep s ev = some s') :
    (∃ m, ev = .start m ∧ s = none ∧ s' = some (m.ptr, 1)) ∨
    (∃ m k, ev = .retry m ∧ s = some (m.ptr, k) ∧ k < dartTxAttempts ∧
      s' = some (m.ptr, k + 1)) ∨
    (ev.ends = true ∧ s' = none) ∨
    (ev.quiet = true ∧ s' = s) := by
  by_cases hquiet : ev.quiet = true
  · rw [attemptStep_quiet hquiet] at h
    exact .inr (.inr (.inr ⟨hquiet, (Option.some.inj h).symm⟩))
  cases ev with
  | start m =>
      cases s with
      | none => exact .inl ⟨m, rfl, rfl, (Option.some.inj h).symm⟩
      | some a => cases h
  | retry m =>
      cases s with
      | none => cases h
      | some a =>
          obtain ⟨p, k⟩ := a
          unfold attemptStep at h
          dsimp only at h
          split at h
          · rename_i hretry
            obtain ⟨rfl, hlt⟩ := hretry
            exact .inr (.inl ⟨m, k, rfl, rfl, hlt, (Option.some.inj h).symm⟩)
          · cases h
  | callback code param len =>
      cases code with
      | transferFailure =>
          refine .inr (.inr (.inl ⟨rfl, ?_⟩))
          unfold attemptStep at h
          dsimp only at h
          split at h
          · split at h
            · exact (Option.some.inj h).symm
            · cases h
          · cases h
      | _ => exact absurd rfl hquiet
  | control ch =>
      have hack : ch = dartAck := not_not.mp fun hne => hquiet (quiet_control hne)
      rw [hack] at h ⊢
      exact .inr (.inr (.inl ⟨rfl, (Option.some.inj h).symm⟩))
  | abort => exact .inr (.inr (.inl ⟨rfl, (Option.some.inj h).symm⟩))
  | _ => exact absurd rfl hquiet

theorem replayAttempts_snoc {log : List Event} {ev : Event} {s' : Option (Nat × Nat)}
    (h : replayAttempts (log ++ [ev]) = some s') :
    ∃ s, replayAttempts log = some s ∧ attemptStep s ev = some s' := by
  unfold replayAttempts at h ⊢
  rw [List.foldlM_append] at h
  obtain ⟨s, hs, hstep⟩ := Option.bind_eq_some_iff.mp h
  refine ⟨s, hs, ?_⟩
  rw [List.foldlM_cons] at hstep
  obtain ⟨s₁, hs₁, hnil⟩ := Option.bind_eq_some_iff.mp hstep
  cases hnil
  exact hs₁

theorem replayAttempts_prefix {log evs : List Event} {s' : Option (Nat × Nat)}
    (h : replayAttempts (log ++ evs) = some s') : ∃ s, replayAttempts log = some s := by
  unfold replayAttempts at h ⊢
  rw [List.foldlM_append] at h
  obtain ⟨s, hs, -⟩ := Option.bind_eq_some_iff.mp h
  exact ⟨s, hs⟩

/-- While a transfer goes on its message is sent, at most `DART_TX_ATTEMPTS` times, and no
other one. -/
theorem ongoing_attempts {since : List Event} {p k : Nat} {s : Option (Nat × Nat)}
    (h : since.foldlM attemptStep (some (p, k)) = some s)
    (hon : ∀ ev ∈ since, ev.ends = false) :
    s = some (p, k + since.countP Event.repeats) ∧ (∀ m, .start m ∉ since) ∧
      (∀ m, .retry m ∈ since → m.ptr = p) ∧
      (k ≤ dartTxAttempts → k + since.countP Event.repeats ≤ dartTxAttempts) := by
  induction since generalizing k with
  | nil =>
      cases h
      exact ⟨rfl, by simp, by simp, fun hk => hk⟩
  | cons ev since ih =>
      rw [List.foldlM_cons] at h
      obtain ⟨s₁, hstep, hrest⟩ := Option.bind_eq_some_iff.mp h
      have hon' : ∀ ev ∈ since, ev.ends = false := fun ev hev => hon ev (List.mem_cons_of_mem _ hev)
      have hev := hon ev List.mem_cons_self
      rcases attemptStep_cases hstep with ⟨m, -, hs, -⟩ | ⟨m, k', rfl, hs, hlt, rfl⟩ | ⟨hends, -⟩ |
        ⟨hquiet, rfl⟩
      · cases hs
      · cases hs
        obtain ⟨hs, hstart, hretry, hbound⟩ := ih hrest hon'
        rw [List.countP_cons_of_pos rfl]
        refine ⟨?_, ?_, ?_, fun _ => ?_⟩
        · rw [hs, Nat.add_right_comm, Nat.add_assoc]
        · intro m' hm'
          rcases List.mem_cons.mp hm' with heq | hm'
          · cases heq
          · exact hstart m' hm'
        · intro m' hm'
          rcases List.mem_cons.mp hm' with heq | hm'
          · cases heq
            rfl
          · exact hretry m' hm'
        · have := hbound hlt
          omega
      · rw [hev] at hends
        cases hends
      · obtain ⟨hs, hstart, hretry, hbound⟩ := ih hrest hon'
        rw [List.countP_cons_of_neg (by rw [quiet_repeats hquiet]; decide)]
        refine ⟨hs, ?_, ?_, hbound⟩
        · intro m' hm'
          rcases List.mem_cons.mp hm' with rfl | hm'
          · cases hquiet
          · exact hstart m' hm'
        · intro m' hm'
          rcases List.mem_cons.mp hm' with rfl | hm'
          · cases hquiet
          · exact hretry m' hm'

theorem InTransfer.snoc {log since : List Event} {m : Msg} {ev : Event}
    (h : InTransfer log m since) (hev : ev.ends = false) :
    InTransfer (log ++ [ev]) m (since ++ [ev]) := by
  obtain ⟨⟨pre, hlog⟩, hon⟩ := h
  refine ⟨⟨pre, by rw [hlog, List.append_assoc]; rfl⟩, fun ev' hev' => ?_⟩
  rcases List.mem_append.mp hev' with hev' | hev'
  · exact hon ev' hev'
  · rw [List.mem_singleton.mp hev']
    exact hev

/-- A transfer that is on was started, and did not end. -/
theorem inTransfer_of_replay {log : List Event} {p k : Nat}
    (h : replayAttempts log = some (some (p, k))) :
    ∃ m since, InTransfer log m since ∧ m.ptr = p ∧ transferCalls since = k := by
  induction log using List.reverseRecOn generalizing p k with
  | nil => cases h
  | append_singleton log ev ih =>
      obtain ⟨s, hs, hstep⟩ := replayAttempts_snoc h
      rcases attemptStep_cases hstep with ⟨m, rfl, -, heq⟩ | ⟨m, k', rfl, rfl, -, heq⟩ |
        ⟨-, heq⟩ | ⟨hquiet, rfl⟩
      · cases heq
        exact ⟨m, [], ⟨⟨log, rfl⟩, by simp⟩, rfl, rfl⟩
      · cases heq
        obtain ⟨m₀, since, hon, hptr, hcalls⟩ := ih hs
        refine ⟨m₀, since ++ [.retry m], hon.snoc rfl, hptr, ?_⟩
        unfold transferCalls at hcalls ⊢
        rw [List.countP_append, ← Nat.add_assoc, hcalls]
        rfl
      · cases heq
      · obtain ⟨m₀, since, hon, hptr, hcalls⟩ := ih hs
        refine ⟨m₀, since ++ [ev], hon.snoc (quiet_ends hquiet), hptr, ?_⟩
        unfold transferCalls at hcalls ⊢
        rw [List.countP_append, ← Nat.add_assoc, hcalls]
        simp [quiet_repeats hquiet]

/-! ## The attempt counter -/

/-- No transfer of `NULL` was started or repeated. -/
def NoNull (log : List Event) : Prop := ∀ ev ∈ log, ∀ m, ev.sent = some m → m.ptr ≠ 0

theorem NoNull.left {log evs : List Event} (h : NoNull (log ++ evs)) : NoNull log :=
  fun ev hev => h ev (List.mem_append_left _ hev)

/-- The message in transfer, and how often it was sent, as the endpoint counts it. -/
def Dart.attempt (d : Dart) : Option (Nat × Nat) :=
  d.transfering.map fun i => (msgListPeek (d.queue i), d.txAttempts + 1)

theorem attempt_eq {d : Dart} {i : Fin msgPrioLength} (hi : d.transfering = some i) :
    d.attempt = some (msgListPeek (d.queue i), d.txAttempts + 1) := by
  rw [Dart.attempt, hi]
  rfl

/-- The endpoint and its log agree on the transfer. -/
structure Tied (d : Dart) : Prop where
  replay : replayAttempts d.log = some d.attempt
  found : ∀ i, d.transfering = some i → msgListPeek (d.queue i) ≠ 0
  bound : d.transfering.isSome → d.txAttempts < dartTxAttempts

/-- They agree unless `NULL` was transferred. -/
def Counted (d : Dart) : Prop := NoNull d.log → Tied d

namespace Counted

variable {d d' : Dart}

/-- Nothing happens to the transfer. -/
theorem extend (h : Counted d) (evs : List Event) (hlog : d'.log = d.log ++ evs)
    (hevs : ∀ ev ∈ evs, ev.quiet = true)
    (hsame : (d'.transfering, d'.txAttempts) = (d.transfering, d.txAttempts))
    (hqueue : ∀ i, msgListPeek (d.queue i) ≠ 0 →
      msgListPeek (d'.queue i) = msgListPeek (d.queue i)) : Counted d' := by
  intro hn
  rw [hlog] at hn
  have hd := h hn.left
  obtain ⟨htransfering, hattempts⟩ := Prod.mk.inj hsame
  have hattempt : d'.attempt = d.attempt := by
    unfold Dart.attempt
    rw [htransfering, hattempts]
    cases hi : d.transfering with
    | none => rfl
    | some i =>
        rw [Option.map_some, Option.map_some, hqueue i (hd.found i hi)]
  refine ⟨?_, ?_, ?_⟩
  · rw [hlog, hattempt]
    exact (foldlM_resume hd.replay evs).trans
      (foldlM_idle (fun ev hev => attemptStep_quiet (hevs ev hev)) _)
  · intro i hi
    rw [htransfering] at hi
    rw [hqueue i (hd.found i hi)]
    exact hd.found i hi
  · rw [htransfering, hattempts]
    exact hd.bound

theorem emit (h : Counted d) {ev : Event} (hev : ev.quiet = true) : Counted (d.emit ev) :=
  h.extend [ev] rfl (by simpa using hev) rfl fun _ _ => rfl

/-- Only fields change that do not matter for the transfer. -/
theorem congr (h : Counted d) (hlog : d'.log = d.log)
    (hsame : (d'.transfering, d'.txAttempts, d'.queue) = (d.transfering, d.txAttempts, d.queue)) :
    Counted d' := by
  obtain ⟨htransfering, hattempts, hqueue⟩ : _ ∧ _ ∧ _ := by
    simpa only [Prod.mk.injEq] using hsame
  refine h.extend [] (by rw [hlog, List.append_nil]) (by simp) ?_ fun _ _ => ?_
  · rw [htransfering, hattempts]
  · rw [hqueue]

/-- The transfer is over. -/
theorem ended (h : Counted d) (ev : Event) (evs : List Event) (hlog : d'.log = d.log ++ ev :: evs)
    (hevs : ∀ ev ∈ evs, ev.quiet = true) (hidle : d'.transfering = none)
    (hev : Tied d → attemptStep d.attempt ev = some none) : Counted d' := by
  intro hn
  rw [hlog] at hn
  have hd := h hn.left
  refine ⟨?_, ?_, ?_⟩
  · rw [hlog, Dart.attempt, hidle]
    refine (foldlM_resume hd.replay (ev :: evs)).trans ?_
    rw [List.foldlM_cons, hev hd]
    exact foldlM_idle (fun ev hev => attemptStep_quiet (hevs ev hev)) _
  · intro i hi
    rw [hidle] at hi
    cases hi
  · intro hbusy
    rw [hidle] at hbusy
    cases hbusy

/-- The message in transfer is sent again. -/
theorem again (h : Counted d) {i : Fin msgPrioLength} {m : Msg} {evs : List Event}
    (hlog : d'.log = d.log ++ .retry m :: evs) (hevs : ∀ ev ∈ evs, ev.quiet = true)
    (hi : d.transfering = some i) (hm : m.ptr = msgListPeek (d.queue i))
    (hsame : (d'.transfering, d'.queue) = (d.transfering, d.queue))
    (hattempts : d'.txAttempts = (d.txAttempts + 1) % 256)
    (hleft : d'.txAttempts < dartTxAttempts) : Counted d' := by
  intro hn
  rw [hlog] at hn
  have hd := h hn.left
  obtain ⟨htransfering, hqueue⟩ := Prod.mk.inj hsame
  have hlt := hd.bound (by rw [hi]; rfl)
  rw [Nat.mod_eq_of_lt (by unfold dartTxAttempts at hlt; omega)] at hattempts
  refine ⟨?_, ?_, fun _ => hleft⟩
  · have hreplay := hd.replay
    rw [attempt_eq hi] at hreplay
    rw [hlog, attempt_eq (htransfering.trans hi), hqueue, hattempts]
    refine (foldlM_resume hreplay _).trans ?_
    have hstep : attemptStep (some (msgListPeek (d.queue i), d.txAttempts + 1)) (.retry m) =
        some (some (msgListPeek (d.queue i), d.txAttempts + 1 + 1)) :=
      if_pos ⟨hm, hattempts ▸ hleft⟩
    rw [List.foldlM_cons, hstep]
    exact foldlM_idle (fun ev hev => attemptStep_quiet (hevs ev hev)) _
  · rw [htransfering, hqueue]
    exact hd.found

end Counted

/-! ## Triggering -/

section Functions

variable {B : Build} {env : Env} {d d' : Dart}

theorem Uarts.quiet {evs : List Event} (h : Uarts evs) : ∀ ev ∈ evs, ev.quiet = true := by
  intro ev hev
  obtain ⟨bytes, rfl⟩ := h ev hev
  rfl

theorem Woken.counted (h : Woken env d d') (hd : Counted d) : Counted d' := by
  cases h with
  | high _ => exact hd
  | raised _ _ =>
      exact hd.extend [.pin true] rfl (List.forall_mem_singleton.mpr rfl) rfl fun _ _ => rfl

/-- A transfer is started while there is none. -/
theorem counted_started {i : Fin msgPrioLength} {evs : List Event} (hd : Counted d)
    (hidle : d.transfering = none) (hevs : Uarts evs) : Counted (d.started B env i evs) := by
  intro hn
  have hnull : msgListPeek (d.queue i) ≠ 0 :=
    hn (.start (d.msgAt B (msgListPeek (d.queue i)))) (by simp [Dart.started]) _ rfl
  refine ⟨?_, ?_, fun _ => by show 0 < dartTxAttempts; decide⟩
  · have hreplay := (hd hn.left).replay
    rw [Dart.attempt, hidle] at hreplay
    refine (foldlM_resume hreplay _).trans ?_
    rw [List.foldlM_cons]
    exact foldlM_idle (fun ev hev => attemptStep_quiet (hevs.quiet ev hev)) _
  · rintro j ⟨⟩
    exact hnull

/-- `dart_trigger_transfer` -/
theorem counted_trigger (B : Build) (env : Env) (hd : Counted d) :
    Counted (dartTriggerTransfer B env d).1 := by
  have houtcome := triggerOutcome B env d
  generalize dartTriggerTransfer B env d = r at houtcome ⊢
  cases houtcome with
  | busy _ => exact hd
  | impossible _ _ _ =>
      exact hd.extend [.callback .transferImpossible .null 0] rfl
        (List.forall_mem_singleton.mpr rfl) rfl fun _ _ => rfl
  | waiting _ hwoken _ => exact (hwoken.counted hd).emit rfl
  | nothing _ hwoken _ _ => exact hwoken.counted hd
  | @started d' i evs hidle hwoken _ _ hevs =>
      refine counted_started (hwoken.counted hd) ?_ hevs
      rw [hwoken.eq]
      exact hidle

/-- `dart_trigger_next_transfer` -/
theorem counted_triggerNext (B : Build) (env : Env) (hd : Counted d) :
    Counted (dartTriggerNextTransfer B env d) := by
  unfold dartTriggerNextTransfer
  dsimp only
  split
  · exact (counted_trigger B env hd).emit rfl
  · exact counted_trigger B env hd

/-! ## Retries and acknowledges -/

/-- `dart_retry_transfer` -/
theorem counted_retry (B : Build) (env : Env) (hd : Counted d) :
    Counted (dartRetryTransfer B env d) := by
  unfold dartRetryTransfer
  split
  · exact hd
  · rename_i i hi
    dsimp only
    split
    · exact hd
    · split
      · rename_i hleft
        generalize hd₁ : Dart.emit _ _ = d₁
        obtain ⟨evs, hevs, htransfer⟩ := dartTransferMsg_eq B env d₁ (msgListPeek (d.queue i))
        rw [htransfer, ← hd₁]
        exact hd.again (List.append_assoc _ _ _) hevs.quiet hi rfl rfl rfl hleft
      · rename_i hspent
        refine counted_triggerNext B env (hd.ended _ [] (dartFinalizeTransfer_log _) (by simp)
          (dartFinalizeTransfer_transfering _) fun htied => ?_)
        have hlt := htied.bound (by rw [hi]; rfl)
        rw [attempt_eq hi]
        refine if_pos ⟨rfl, ?_⟩
        unfold dartTxAttempts at hlt hspent ⊢
        omega

/-- `dart_acknowledge_msg`, called for the acknowledge byte -/
theorem counted_acknowledge (B : Build) (env : Env) (hd : Counted d) :
    Counted (dartAcknowledgeMsg B env (d.emit (.control dartAck))) := by
  unfold dartAcknowledgeMsg
  split
  · rename_i hi
    exact hd.ended _ [] rfl (by simp) hi fun _ => rfl
  · rename_i i hi
    dsimp only
    split
    · rename_i hnull
      exact fun hn => absurd hnull ((hd hn.left).found i hi)
    · refine counted_triggerNext B env ?_
      split
      all_goals
        exact hd.ended (.control dartAck) [_]
          ((dartFinalizeTransfer_log _).trans (List.append_assoc _ _ _))
          (List.forall_mem_singleton.mpr rfl) (dartFinalizeTransfer_transfering _) fun _ => rfl

/-- `dart_finalize_request_msg` -/
theorem counted_finalizeRequest (B : Build) (env : Env) (hd : Counted d) :
    Counted (dartFinalizeRequestMsg B env d) :=
  counted_triggerNext B env (hd.congr rfl rfl)

/-- `dart_abandon_request_msg` -/
theorem counted_abandon (B : Build) (env : Env) (hd : Counted d) :
    Counted (dartAbandonRequestMsg B env d) := by
  unfold dartAbandonRequestMsg
  split
  · exact counted_finalizeRequest B env (hd.emit rfl)
  · exact hd

/-! ## Calls -/

theorem counted_control (B : Build) (env : Env) (hd : Counted d) (ch : UInt8) :
    Counted (dartHandleControl B env d ch) := by
  unfold dartHandleControl
  split
  · rename_i hack
    rw [hack]
    exact counted_acknowledge B env hd
  · rename_i hack
    have hemit : Counted (d.emit (.control ch)) :=
      hd.emit (quiet_control hack)
    split
    · exact counted_retry B env hemit
    · split
      · exact counted_trigger B env hemit
      · exact hd

/-- Receiving a byte. -/
theorem counted_receiving (B : Build) (env : Env) : KeptByReceiving B env Counted where
  same hd h := hd.congr h.log (by rw [h.transfering, h.txAttempts, h.queue])
  emit h hd := by
    cases h with
    | uart _ => exact hd.emit rfl
    | callback _ _ hcode => exact hd.emit (quiet_callback hcode _ _)
  raise hd := hd.extend [.pin true] rfl (List.forall_mem_singleton.mpr rfl) rfl fun _ _ => rfl
  control ch hd := counted_control B env hd ch
  finish := counted_finalizeRequest B env

theorem counted_closing (env : Env) (hd : Counted d) : Counted (dartHandleClosing env d).1 := by
  have hset : ∀ state, Counted (d.setWrk state) := fun state =>
    hd.extend [.pin state] rfl (List.forall_mem_singleton.mpr rfl) rfl fun _ _ => rfl
  unfold dartHandleClosing
  split
  · split
    · split
      · exact (hset false).congr rfl rfl
      · exact hd
    · exact hd.congr rfl rfl
  · split
    · split
      · have hstop : Counted { d with closingTimer := timerStop } := hd.congr rfl rfl
        dsimp only
        split
        · exact hstop
        · exact hstop.emit rfl
      · exact hd
    · split
      · exact hset true
      · exact hd

/-- `dart_handle_time` -/
theorem counted_time (B : Build) (env : Env) (hd : Counted d) :
    Counted (dartHandleTime B env d).1 := by
  have habandon : Counted (if d.pendingRequest ≠ 0 ∧ timerExpired d.txResponseTimer env.clock then
      dartAbandonRequestMsg B env d else d) := by
    split
    · exact counted_abandon B env hd
    · exact hd
  unfold dartHandleTime
  generalize (if d.pendingRequest ≠ 0 ∧ timerExpired d.txResponseTimer env.clock then
    dartAbandonRequestMsg B env d else d) = d₁ at habandon
  have hstop : ∀ timer, Counted { d₁ with txAckTimer := timer } := fun _ => habandon.congr rfl rfl
  dsimp only
  split
  · split
    · split
      · exact counted_retry B env (hstop _)
      · exact (hstop timerStop).ended .abort [] rfl (by simp) rfl fun _ => rfl
    · exact habandon
  · split
    · split
      · exact habandon.extend [.pin false] rfl (List.forall_mem_singleton.mpr rfl) rfl
          fun _ _ => rfl
      · exact counted_trigger B env habandon
    · split
      · exact counted_closing env habandon
      · exact habandon

/-- `dart_send_msg_ex` -/
theorem counted_send (B : Build) (env : Env) (hd : Counted d) (prio : Nat) (msg : Mem)
    (msgLen : Nat) :
    Counted (dartSendMsgEx B env d prio msg msgLen).1 := by
  unfold dartSendMsgEx
  split
  · exact hd
  · dsimp only
    generalize (if prio = dartMsgPrioAny then
      dartGuessPriority B (msg.load 0 B.msgtypeSize.bytes) else prio) = prio
    split
    · exact hd
    · split
      · exact hd.congr rfl rfl
      · exact counted_trigger B env (hd.extend [_] rfl (List.forall_mem_singleton.mpr rfl) rfl
          fun _ h => enqueue_peek d _ _ _ _ _ h)

theorem counted_call (B : Build) (env : Env) (hd : Counted d) (call : DartCall) :
    Counted (dartCall B env d call) := by
  cases call with
  | send prio msg msgLen => exact counted_send B env hd prio msg msgLen
  | receive ch => exact (counted_receiving B env).received hd ch
  | time => exact counted_time B env hd

end Functions

/-- The endpoint counts the attempts in every run. -/
theorem dart_counted (B : Build) (n : Nat) : (dartSystem B n).Invariant Counted := by
  apply TSys.Inductive.invariant
  constructor
  · rintro d ⟨d₀, mpool, rxBuffer, rxBufferSize, -, -, -, rfl⟩
    exact fun _ => ⟨rfl, fun i h => (nomatch h), fun h => (nomatch h)⟩
  · rintro d ⟨env, call⟩ d' hd ⟨-, rfl⟩
    exact counted_call B env hd call

/-! ## Every transfer -/

/-- No log of a run is refused. -/
theorem definedSystem_tied {B : Build} {n : Nat} {d : Dart} (hd : (definedSystem B n).Reachable d) :
    Tied d :=
  dart_counted B n d hd.of_restrict (definedSystem_log B n d hd)

theorem replay_inTransfer {log since : List Event} {m : Msg} {s : Option (Nat × Nat)}
    (h : replayAttempts log = some s) (hon : InTransfer log m since) :
    s = some (m.ptr, transferCalls since) ∧ transferCalls since ≤ dartTxAttempts ∧
      (∀ m', .start m' ∉ since) ∧ ∀ m', .retry m' ∈ since → m'.ptr = m.ptr := by
  obtain ⟨⟨pre, rfl⟩, hends⟩ := hon
  unfold replayAttempts at h
  rw [List.foldlM_append] at h
  obtain ⟨s₀, -, h⟩ := Option.bind_eq_some_iff.mp h
  rw [List.foldlM_cons] at h
  obtain ⟨s₁, hstart, h⟩ := Option.bind_eq_some_iff.mp h
  rcases attemptStep_cases hstart with ⟨m', heq, -, rfl⟩ | ⟨m', k, heq, -⟩ | ⟨hend, -⟩ | ⟨hquiet, -⟩
  · cases heq
    obtain ⟨hs, hnew, hretry, hbound⟩ := ongoing_attempts h hends
    exact ⟨hs, hbound (by decide), hnew, hretry⟩
  · cases heq
  · cases hend
  · cases hquiet

/-- **Bounded retransmission.** From the start of a transfer until it is acknowledged, fails
or is given up, `dart_transfer_msg` is called for its message at most `DART_TX_ATTEMPTS`
times, and for no other message. It is called again within a transfer only, and the failure
is reported only after exactly `DART_TX_ATTEMPTS` calls. A message is in transfer exactly if
the log says so. -/
theorem dart_attempts_bounded {B : Build} {n : Nat} {d : Dart}
    (hd : (definedSystem B n).Reachable d) :
    (∀ log post, d.log = log ++ post → ∀ m since, InTransfer log m since →
      transferCalls since ≤ dartTxAttempts ∧ (∀ m', .start m' ∉ since) ∧
        ∀ m', .retry m' ∈ since → m'.ptr = m.ptr) ∧
    (∀ log m' post, d.log = log ++ .retry m' :: post →
      ∃ m since, InTransfer log m since ∧ m'.ptr = m.ptr) ∧
    (∀ log param len post, d.log = log ++ .callback .transferFailure param len :: post →
      ∃ m since, InTransfer log m since ∧ transferCalls since = dartTxAttempts ∧
        ∃ m', param = .stored m' ∧ m'.ptr = m.ptr) ∧
    (d.transfering.isSome ↔ ∃ m since, InTransfer d.log m since) := by
  have htied := definedSystem_tied hd
  -- the replay up to an event, and its step
  have hat : ∀ {log ev post}, d.log = log ++ ev :: post →
      ∃ s s', replayAttempts log = some s ∧ attemptStep s ev = some s' := by
    intro log ev post hlog
    have hreplay := htied.replay
    rw [hlog, List.append_cons] at hreplay
    obtain ⟨s', hs'⟩ := replayAttempts_prefix hreplay
    obtain ⟨s, hs, hstep⟩ := replayAttempts_snoc hs'
    exact ⟨s, s', hs, hstep⟩
  refine ⟨?_, ?_, ?_, ?_, ?_⟩
  · intro log post hlog m since hon
    have hreplay := htied.replay
    rw [hlog] at hreplay
    obtain ⟨s, hs⟩ := replayAttempts_prefix hreplay
    exact (replay_inTransfer hs hon).2
  · intro log m' post hlog
    obtain ⟨s, s', hs, hstep⟩ := hat hlog
    rcases attemptStep_cases hstep with ⟨m, heq, -⟩ | ⟨m, k, heq, rfl, -⟩ | ⟨hend, -⟩ | ⟨hquiet, -⟩
    · cases heq
    · cases heq
      obtain ⟨m, since, hon, hptr, -⟩ := inTransfer_of_replay hs
      exact ⟨m, since, hon, hptr.symm⟩
    · cases hend
    · cases hquiet
  · intro log param len post hlog
    obtain ⟨s, s', hs, hstep⟩ := hat hlog
    unfold attemptStep at hstep
    dsimp only at hstep
    split at hstep
    · rename_i p k m'
      split at hstep
      · rename_i hspent
        obtain ⟨hp, rfl⟩ := hspent
        obtain ⟨m, since, hon, hptr, hcalls⟩ := inTransfer_of_replay hs
        exact ⟨m, since, hon, hcalls, m', rfl, hp.trans hptr.symm⟩
      · cases hstep
    · cases hstep
  · intro hbusy
    obtain ⟨i, hi⟩ := Option.isSome_iff_exists.mp hbusy
    have hreplay := htied.replay
    rw [attempt_eq hi] at hreplay
    obtain ⟨m, since, hon, -⟩ := inTransfer_of_replay hreplay
    exact ⟨m, since, hon⟩
  · rintro ⟨m, since, hon⟩
    have hattempt := (replay_inTransfer htied.replay hon).1
    unfold Dart.attempt at hattempt
    rw [Option.map_eq_some_iff] at hattempt
    obtain ⟨i, hi, -⟩ := hattempt
    rw [hi]
    rfl

/-- A message is answered with `DART_BAD`, then not at all, and then with `DART_BAD` again. -/
theorem dart_attempts_bounded_failure :
    let B : Build := ⟨.one, .one, .one⟩
    let d := dartCalls B (dartFresh 512 64)
      [(.plain 7 true, .send 1 (fun _ => 0x11) 1), (.plain 8 true, .receive dartBad),
        (.plain 400 true, .time), (.plain 401 true, .receive dartBad)]
    let m : Msg := ⟨20, 0x11, [0x11]⟩
    d.log = d.log.take 10 ++ .callback .transferFailure (.stored m) 1 :: d.log.drop 11 ∧
      ∃ m since, InTransfer (d.log.take 10) m since ∧ transferCalls since = dartTxAttempts := by
  intro B d m
  have hd : (dartSystem B 512).Reachable d :=
    dartSystem_calls (dartFresh_reachable B (by decide) (by decide)) (by decide)
  have hlog : d.log = d.log.take 10 ++ .callback .transferFailure (.stored m) 1 ::
      d.log.drop 11 := by decide +kernel
  obtain ⟨-, -, hfailure, -⟩ :=
    dart_attempts_bounded (fittingSystem_defined (dartSystem_fits rfl (by decide) hd))
  obtain ⟨m₀, since, hon, hcalls, -⟩ := hfailure _ _ _ _ hlog
  exact ⟨hlog, m₀, since, hon, hcalls⟩

end EmbeddedMx
