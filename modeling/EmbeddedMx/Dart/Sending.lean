import EmbeddedMx.Dart.Supervision

/-!
# What a failed send leaves behind

`dart_send_msg_ex` has two parts: it accepts the message, and then triggers a
transfer. Refusing the message leaves the endpoint as it was. The status, however,
is that of the trigger, which may give up on the peer with the message queued.
-/

namespace EmbeddedMx

open EmbeddedMx.Lib

/-- The error codes are the negative ones. -/
def DartStatus.negative : DartStatus → Bool
  | .errNotPossible => true
  | .errNoMemory => true
  | _ => false

/-- The priority the message is queued with. -/
def sendPriority (B : Build) (prio : Nat) (msg : Mem) : Nat :=
  if prio = dartMsgPrioAny then dartGuessPriority B (msg.load 0 B.msgtypeSize.bytes) else prio

/-- The size `msg_ptr_malloc` asks for. -/
def nodeSize (w : Width) (msgLen : Nat) : Nat := u16 (sizeofMsgPtr - sizeofMsg w + msgLen)

/-- The endpoint runs, the priority is valid and the pool has room. -/
def Dart.Accepts (B : Build) (d : Dart) (prio : Nat) (msg : Mem) (msgLen : Nat) : Prop :=
  d.running = true ∧ sendPriority B prio msg < msgPrioLength ∧
    cbaPlacement d.heap (nodeSize B.msgtypeSize msgLen) ≠ .refuse

instance (B : Build) (d : Dart) (prio : Nat) (msg : Mem) (msgLen : Nat) :
    Decidable (d.Accepts B prio msg msgLen) := inferInstanceAs (Decidable (_ ∧ _ ∧ _))

/-- The next trigger gives up on the peer: it has not responded to the last
attempts. -/
def Dart.GivesUp (d : Dart) : Prop :=
  d.transfering = none ∧ d.wrk = false ∧ dartWakeupAttempts ≤ d.wakeupAttempts

instance (d : Dart) : Decidable d.GivesUp := inferInstanceAs (Decidable (_ ∧ _ ∧ _))

/-- An allocation fails exactly if the space tests do, and then changes nothing. -/
theorem msgPtrMalloc_refuse {w : Width} {h : Heap} {msgLen : Nat}
    (hp : cbaPlacement h (nodeSize w msgLen) = .refuse) : msgPtrMalloc w h msgLen = (h, 0) := by
  unfold msgPtrMalloc
  dsimp only
  rw [← nodeSize, cbaMalloc_refuse hp]
  rfl

theorem msgPtrMalloc_placed {w : Width} {h : Heap} {msgLen : Nat}
    (hp : cbaPlacement h (nodeSize w msgLen) ≠ .refuse) : (msgPtrMalloc w h msgLen).2 ≠ 0 := by
  have hmalloc : (cbaMalloc h (nodeSize w msgLen)).2 ≠ 0 := by
    rw [cbaMalloc_eq]
    cases hplace : cbaPlacement h (nodeSize w msgLen) with
    | refuse => exact absurd hplace hp
    | atFree => exact Nat.succ_ne_zero _
    | wrap => exact Nat.succ_ne_zero _
  unfold msgPtrMalloc
  dsimp only
  rw [← nodeSize, if_neg hmalloc]
  exact hmalloc

section Send

variable (B : Build) (env : Env) (d : Dart) (prio : Nat) (msg : Mem) (msgLen : Nat)

/-- A message that is not accepted. -/
theorem send_refused (h : ¬ d.Accepts B prio msg msgLen) :
    (dartSendMsgEx B env d prio msg msgLen).1 = d ∧
      (dartSendMsgEx B env d prio msg msgLen).2.negative = true := by
  unfold dartSendMsgEx
  by_cases hrunning : d.running = true
  · rw [if_neg (by simp [hrunning])]
    dsimp only
    rw [← sendPriority]
    by_cases hprio : sendPriority B prio msg < msgPrioLength
    · rw [if_neg (by omega)]
      have hplace : cbaPlacement d.heap (nodeSize B.msgtypeSize msgLen) = .refuse := by
        by_contra hplace
        exact h ⟨hrunning, hprio, hplace⟩
      rw [msgPtrMalloc_refuse hplace]
      exact ⟨rfl, rfl⟩
    · rw [if_pos (by omega)]
      exact ⟨rfl, rfl⟩
  · rw [if_pos (by simp [hrunning])]
    exact ⟨rfl, rfl⟩

/-- The endpoint with the message accepted. -/
def Dart.accepted (B : Build) (d : Dart) (prio : Nat) (msg : Mem) (msgLen : Nat) : Dart :=
  let r := msgPtrMalloc B.msgtypeSize d.heap msgLen
  dartEnqueue B d (sendPriority B prio msg) r.1 r.2 msg msgLen

theorem send_accepted (h : d.Accepts B prio msg msgLen) :
    dartSendMsgEx B env d prio msg msgLen =
      dartTriggerTransfer B env (d.accepted B prio msg msgLen) := by
  obtain ⟨hrunning, hprio, hplace⟩ := h
  unfold dartSendMsgEx
  rw [if_neg (by simp [hrunning])]
  dsimp only
  rw [← sendPriority, if_neg (by omega), if_neg (msgPtrMalloc_placed hplace)]
  rfl

/-! ## Accepted once -/

/-- The messages accepted, with their priorities. -/
def Event.accepts : Event → Option (Nat × Msg)
  | .accept prio m => some (prio, m)
  | _ => none

/-- From `d` to `d'` exactly one message was accepted: a node with the `msgLen` bytes
at the start of `msg` was pushed once, on the list of its priority. -/
def AcceptedOnce (B : Build) (d : Dart) (prio : Nat) (msg : Mem) (msgLen : Nat) (d' : Dart) :
    Prop :=
  ∃ (i : Fin msgPrioLength) (p : Nat) (mem : Mem) (evs : List Event),
    i.val = sendPriority B prio msg ∧ p ≠ 0 ∧
    (nodeMsg B.msgtypeSize mem p).data = msg.read 0 msgLen ∧
    d'.queue = Function.update d.queue i (msgListPush (d.queue i) mem p).1 ∧
    d'.heap.mem = (msgListPush (d.queue i) mem p).2 ∧
    d'.log = d.log ++ evs ∧ evs.filterMap Event.accepts = [(i.val, d'.msgAt B p)]

/-- Accepting puts the new node at the end of its list. -/
theorem accepted_once (h : d.Accepts B prio msg msgLen) (hlen : msgLen < 2 ^ 16) :
    AcceptedOnce B d prio msg msgLen (d.accepted B prio msg msgLen) := by
  obtain ⟨-, hprio, hplace⟩ := h
  have hne := msgPtrMalloc_placed hplace
  unfold Dart.accepted dartEnqueue
  dsimp only
  generalize msgPtrMalloc B.msgtypeSize d.heap msgLen = r at hne
  have hdata := nodeMsg_filled B.msgtypeSize r.1.mem r.2 msg hlen
  generalize setNodeLength (r.1.mem.copy (r.2 + offsetofMsg) msg 0 msgLen) r.2 msgLen = mem at hdata
  have hpush : msgQueuePush d.queue mem (sendPriority B prio msg) r.2 =
      (Function.update d.queue ⟨_, hprio⟩ (msgListPush (d.queue ⟨_, hprio⟩) mem r.2).1,
        (msgListPush (d.queue ⟨_, hprio⟩) mem r.2).2, r.2) := dif_pos hprio
  rw [hpush]
  exact ⟨⟨_, hprio⟩, r.2, mem, [_], rfl, hne, hdata, rfl, rfl, rfl, rfl⟩

/-- The list has become longer. -/
theorem AcceptedOnce.longer {B : Build} {d d' : Dart} {prio msgLen : Nat} {msg : Mem}
    (h : AcceptedOnce B d prio msg msgLen d') : d'.queue ≠ d.queue := by
  obtain ⟨i, p, mem, -, -, -, -, hqueue, -⟩ := h
  intro hsame
  have hlen := congrArg (fun q => msgListLength (q i)) (hqueue.symm.trans hsame)
  rw [Function.update_self] at hlen
  exact Nat.succ_ne_self _ hlen

/-- Nothing that follows accepts another message. -/
theorem Event.OfTrigger.accepts {ev : Event} (h : ev.OfTrigger) : ev.accepts = none := by
  cases h <;> rfl

theorem AcceptedOnce.trigger {B : Build} (env : Env) {d d' : Dart} {prio msgLen : Nat} {msg : Mem}
    (h : AcceptedOnce B d prio msg msgLen d') :
    AcceptedOnce B d prio msg msgLen (dartTriggerTransfer B env d').1 := by
  obtain ⟨i, p, mem, evs, hi, hne, hdata, hqueue, hmem, hlog, hevs⟩ := h
  obtain ⟨⟨evs', hlog', hevs'⟩, hqueue', hheap', -⟩ := trigger_events B env d'
  have hnone : evs'.filterMap Event.accepts = [] :=
    List.filterMap_eq_nil_iff.mpr fun ev hev => (hevs' ev hev).accepts
  refine ⟨i, p, mem, evs ++ evs', hi, hne, hdata, hqueue'.trans hqueue, ?_, ?_, ?_⟩
  · rw [hheap']
    exact hmem
  · rw [hlog', hlog, List.append_assoc]
  · rw [List.filterMap_append, hevs, hnone, List.append_nil, Dart.msgAt, Dart.msgAt, hheap']

/-- Triggering fails exactly if it gives up on the peer. -/
theorem trigger_negative :
    (dartTriggerTransfer B env d).2.negative = true ↔ d.GivesUp := by
  have houtcome := triggerOutcome B env d
  generalize dartTriggerTransfer B env d = r at houtcome ⊢
  have hno : ∀ {s : DartStatus}, s.negative = false → ¬ d.GivesUp →
      (s.negative = true ↔ d.GivesUp) := by
    intro s hs hgives
    rw [hs]
    exact ⟨fun h => absurd h Bool.false_ne_true, fun h => absurd h hgives⟩
  have hwoken : ∀ {d'}, Woken env d d' → ¬ d.GivesUp := by
    rintro d' h ⟨-, hlow, hattempts⟩
    cases h with
    | high hwrk =>
        rw [hlow] at hwrk
        cases hwrk
    | raised _ hless => exact Nat.not_le_of_lt hless hattempts
  cases houtcome with
  | busy hbusy =>
      refine hno rfl fun h => ?_
      rw [h.1] at hbusy
      cases hbusy
  | impossible hidle hlow hattempts => exact ⟨fun _ => ⟨hidle, hlow, hattempts⟩, fun _ => rfl⟩
  | waiting _ h _ => exact hno rfl (hwoken h)
  | nothing _ h _ _ =>
      refine hno ?_ (hwoken h)
      dsimp only
      split <;> rfl
  | started _ h _ _ _ => exact hno rfl (hwoken h)

theorem accepted_givesUp : (d.accepted B prio msg msgLen).GivesUp ↔ d.GivesUp := Iff.rfl

end Send

/-- What is promised of a send: an error leaves the lists and the allocator as they
were, otherwise the message has been accepted exactly once. -/
def SendClean (B : Build) (env : Env) (d : Dart) (prio : Nat) (msg : Mem) (msgLen : Nat) : Prop :=
  let r := dartSendMsgEx B env d prio msg msgLen
  if r.2.negative then r.1.queue = d.queue ∧ r.1.heap = d.heap
  else AcceptedOnce B d prio msg msgLen r.1

/-- **A failed send leaves nothing behind**, exactly if it is not the trigger that
fails: the endpoint would accept the message and then give up on the peer. -/
theorem dart_send_clean (B : Build) (n : Nat) : (dartSystem B n).Invariant fun d =>
    ∀ env prio msg msgLen, (DartCall.send prio msg msgLen).Valid B →
      (SendClean B env d prio msg msgLen ↔ ¬ (d.Accepts B prio msg msgLen ∧ d.GivesUp)) := by
  intro d _ env prio msg msgLen hvalid
  have hlen : msgLen < 2 ^ 16 := lt_of_lenSize hvalid
  unfold SendClean
  dsimp only
  by_cases haccepts : d.Accepts B prio msg msgLen
  · have honce := (accepted_once B d prio msg msgLen haccepts hlen).trigger env
    have hnegative := trigger_negative B env (d.accepted B prio msg msgLen)
    rw [accepted_givesUp] at hnegative
    rw [send_accepted B env d prio msg msgLen haccepts]
    by_cases hgives : d.GivesUp
    · rw [if_pos (hnegative.mpr hgives)]
      refine ⟨fun hclean => ?_, fun h => absurd ⟨haccepts, hgives⟩ h⟩
      -- the message stays queued
      exact absurd hclean.1 honce.longer
    · rw [if_neg fun h => hgives (hnegative.mp h)]
      exact ⟨fun _ h => hgives h.2, fun _ => honce⟩
  · obtain ⟨hsame, hstatus⟩ := send_refused B env d prio msg msgLen haccepts
    rw [if_pos hstatus, hsame]
    exact ⟨fun _ h => haccepts h.1, fun _ => ⟨rfl, rfl⟩⟩

/-- An oversized message for a fresh endpoint. -/
theorem dart_send_clean_oversized :
    (dartSendMsgEx ⟨.one, .one, .one⟩ (.plain 7 true) (dartFresh 64 64) 1 (fun _ => 0x11) 200).2 =
        .errNoMemory ∧
      SendClean ⟨.one, .one, .one⟩ (.plain 7 true) (dartFresh 64 64) 1 (fun _ => 0x11) 200 := by
  have hreach := dartFresh_reachable ⟨.one, .one, .one⟩ (by decide : 64 < 2 ^ 16)
    (by decide : 64 < 2 ^ 16)
  have hrefused : ¬ ((dartFresh 64 64).Accepts ⟨.one, .one, .one⟩ 1 (fun _ => 0x11) 200 ∧
      (dartFresh 64 64).GivesUp) := by decide +kernel
  have hclean := dart_send_clean ⟨.one, .one, .one⟩ 64 (dartFresh 64 64) hreach (.plain 7 true) 1
    (fun _ => 0x11) 200 (by decide : 200 < 256)
  exact ⟨by decide +kernel, hclean.mpr hrefused⟩

/-- A send that fails with a longer list. -/
theorem not_sendClean {B : Build} {env : Env} {d : Dart} {prio : Nat} {msg : Mem} {msgLen : Nat}
    {i : Fin msgPrioLength} (hstatus : (dartSendMsgEx B env d prio msg msgLen).2.negative = true)
    (hlen : msgListLength (d.queue i) <
      msgListLength ((dartSendMsgEx B env d prio msg msgLen).1.queue i)) :
    ¬ SendClean B env d prio msg msgLen := by
  unfold SendClean
  dsimp only
  rw [if_pos hstatus]
  rintro ⟨hqueue, -⟩
  rw [hqueue] at hlen
  exact Nat.lt_irrefl _ hlen

/-- The peer does not respond to three wakeup attempts, and the next message is
sent just then. -/
theorem dart_send_clean_fails :
    let B : Build := ⟨.one, .one, .one⟩
    let d := dartCalls B (dartFresh 512 64)
      [(.plain 7 false, .send 1 (fun _ => 0x11) 1), (.plain 507 false, .time),
        (.plain 508 false, .time), (.plain 1008 false, .time), (.plain 1009 false, .time),
        (.plain 1509 false, .time)]
    (dartSystem B 512).Reachable d ∧
      (dartSendMsgEx B (.plain 1510 false) d 1 (fun _ => 0x12) 1).2 = .errNotPossible ∧
      ¬ SendClean B (.plain 1510 false) d 1 (fun _ => 0x12) 1 := by
  refine ⟨dartSystem_calls (dartFresh_reachable _ (by decide) (by decide)) (by decide),
    by decide +kernel, not_sendClean (i := ⟨1, by decide⟩) ?_ ?_⟩
  · decide +kernel
  · decide +kernel

end EmbeddedMx
