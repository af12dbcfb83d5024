import EmbeddedMx.Link.Flight

/-!
# Delivery

Over a good line without expired ACK timers, each side receives what the other
one started to transfer, in order, and an acknowledged message has been received
(`link_delivery`). Acknowledges carry no number: with retransmissions a late one
may be taken for the next message, and a line that loses or changes bytes may
invent one. What is left then says `link_acknowledged`.
-/

namespace EmbeddedMx

open EmbeddedMx.Lib

/-- The messages started in the log. -/
def startedDatas (log : List Event) : List (List UInt8) :=
  (log.flatMap Event.starts).map Msg.data

/-- The messages treated as acknowledged in the log. -/
def ackedDatas (w : Width) (log : List Event) : List (List UInt8) :=
  (log.flatMap (Event.acked w)).map Msg.data

/-! ## On time -/

/-- What the side `s` has transferred and the other side has received. -/
structure LinkDelivers (B : Build) (l : Link) (s : Side) : Prop where
  /-- Every start is that of an accepted message, with the bytes it was accepted
  with, and of each accepted message there is at most one. -/
  started : ∃ waiting, waitingMessages (l.ends s).log = some waiting
  /-- The other side receives the started messages in their order. -/
  received : receivedDatas (l.ends s.other).log <+: startedDatas (l.ends s).log
  /-- It has received every message that is treated as acknowledged. -/
  acked : ackedDatas B.msgtypeSize (l.ends s).log <+: receivedDatas (l.ends s.other).log

/-- **Delivery over a good line.** In every run over a good line in which no ACK
timer expires and no allocation loses bits of a length, each side delivers its
messages. -/
theorem link_delivery {B : Build} {n : Side → Nat} {l : Link}
    (hl : (goodLink B n False).Reachable l) (s : Side) :
    LinkDelivers B l s := by
  obtain ⟨pre, items, hinv⟩ := link_accounting B n False l hl
  obtain ⟨e, hrun, -, -⟩ := hinv.side s
  have horder := engine_order hrun
  obtain ⟨waiting, hwaiting, -⟩ := horder.waiting
  have hpushed : pushedDatas (l.ends s).log = startedDatas (l.ends s).log := by
    rw [pushedDatas, horder.pushes]
    rfl
  have hreceived : receivedDatas (l.ends s.other).log <+: startedDatas (l.ends s).log := by
    rw [← hpushed, hinv.order s]
    exact List.prefix_append _ _
  have hacked : ackedDatas B.msgtypeSize (l.ends s).log <+: startedDatas (l.ends s).log := by
    rw [startedDatas, horder.order, List.map_append]
    exact List.prefix_append _ _
  refine ⟨⟨waiting, hwaiting⟩, hreceived, List.prefix_of_prefix_length_le hacked hreceived ?_⟩
  -- not more acknowledges are taken than messages received
  calc (ackedDatas B.msgtypeSize (l.ends s).log).length
      = ((l.ends s).log.flatMap (Event.acked B.msgtypeSize)).length := List.length_map ..
    _ ≤ (l.ends s).log.countP Event.takesAck := horder.acks.count
    _ ≤ (l.ends s).log.countP Event.takesAck + (items s.other).countP LineItem.isByte :=
        Nat.le_add_right _ _
    _ ≤ (receivedDatas (l.ends s.other).log).length := hinv.acks s

/-- Two endpoints with pools of `n` bytes, and receive buffers of `size` bytes. -/
def linkFresh (n size : Side → Nat) : Link where
  ends s := dartFresh (n s) (size s)
  line _ := []

/-- Where allowed acts lead from the start. -/
theorem linkFresh_run {B : Build} {P : Link → LinkAct → Prop} {n size : Side → Nat}
    {acts : List LinkAct} (hn : ∀ s, n s < 2 ^ 16) (hsize : ∀ s, size s < 2 ^ 16)
    (h : Allowed B P (linkFresh n size) acts) :
    ∃ l, acts.foldlM (linkStep B) (linkFresh n size) = some l ∧
      ((linkSystem B n).restrict P).Reachable l :=
  reachable_allowed (.init fun s => ⟨dartFresh_initial (hn s) (hsize s), rfl⟩) h

/-- A report of one byte that is sent, received and acknowledged. -/
def reportActs : List LinkAct :=
  .send .left (.plain 7 true) 1 (fun _ => 0x11) 1 ::
    List.replicate 4 (.deliver .right (.plain 7 true)) ++ [.deliver .left (.plain 7 true)]

/-- The report is delivered. -/
theorem link_delivery_report :
    ∃ l, LinkDelivers ⟨.one, .one, .one⟩ l .left ∧
      ackedDatas .one (l.ends .left).log = [[0x11]] := by
  obtain ⟨l, hrun, hreach⟩ := linkFresh_run (B := ⟨.one, .one, .one⟩) (n := fun _ => 512)
    (P := fun l act => act.Orderly ⟨.one, .one, .one⟩ False l ∧ act.Fits ⟨.one, .one, .one⟩ l)
    (fun _ => by decide) (fun _ => (by decide : 64 < 2 ^ 16))
    (by decide +kernel : Allowed _ _ _ reportActs)
  have hacked : (reportActs.foldlM (linkStep ⟨.one, .one, .one⟩)
      (linkFresh (fun _ => 512) fun _ => 64)).map
        (fun l => ackedDatas .one (l.ends .left).log) = some [[0x11]] := by decide +kernel
  rw [hrun] at hacked
  exact ⟨l, link_delivery hreach .left, Option.some.inj hacked⟩

/-- Two byte lengths and a pool of 8192 bytes on the left. While the peer is not
ready, a message of 4077 bytes is queued, whose chunk has lost the high bit of its
length, and a second one, whose node overlaps the first. The first is transferred
with no data; while it is in transfer a third message is linked behind the second,
and the link lands in the length field of the first: it is reported done with 72
bytes, of which the other side has received none. -/
theorem link_delivery_fails :
    let B : Build := ⟨.one, .two, .one⟩
    ∃ n l, (orderlyLink B n False).Reachable l ∧ ¬ LinkDelivers B l .left := by
  intro B
  let busy := Env.plain 7 false
  let ready := Env.plain 7 true
  let acts : List LinkAct :=
    [.send .left busy 0 (fun _ => 0x11) 4077, .send .left busy 1 (fun _ => 0x12) 1,
      .time .left ready, .send .left ready 1 (fun _ => 0x13) 1, .deliver .right ready,
      .deliver .right ready, .deliver .right ready, .deliver .right ready, .deliver .left ready]
  let n : Side → Nat := fun _ => 8192
  obtain ⟨l, hrun, hreach⟩ := linkFresh_run (n := n) (P := fun l act => act.Orderly B False l)
    (fun _ => by decide) (fun _ => (by decide : 8192 < 2 ^ 16))
    (by decide +kernel : Allowed B _ _ acts)
  have hdatas : (acts.foldlM (linkStep B) (linkFresh n fun _ => 8192)).map
      (fun l => ((ackedDatas .one (l.ends .left).log).map List.length,
        receivedDatas (l.ends .right).log)) = some ([72], [[]]) := by decide +kernel
  rw [hrun] at hdatas
  obtain ⟨hacked, hreceived⟩ := Prod.mk.inj (Option.some.inj hdatas)
  refine ⟨n, l, hreach, fun hdelivers => ?_⟩
  obtain ⟨rest, hrest⟩ := hdelivers.acked
  have hlength := congrArg (List.map List.length) hrest
  have hreceived' : receivedDatas (l.ends Side.left.other).log = [[]] := hreceived
  rw [hreceived', List.map_append] at hlength
  rw [show (ackedDatas B.msgtypeSize (l.ends .left).log).map List.length =
      [72] from hacked] at hlength
  cases hlength

/-! ## Late acknowledges -/

/-- An acknowledged message was received by the other side, if at its start this
side had taken an acknowledge byte for each frame it had pushed until then. -/
def DeliveredIf (w : Width) (received : List (List UInt8)) (pre : List Event) (ev : Event) : Prop :=
  ∀ m ∈ ev.acked w, ∀ l₁ l₂, pre = l₁ ++ .start m :: l₂ ++ [.control dartAck] →
    (l₁.flatMap Event.pushes).length ≤ l₁.countP Event.takesAck → m.data ∈ received

/-- The message pushed at the start is the next one after those pushed before. -/
theorem pushedDatas_start (l₁ l₂ : List Event) (m : Msg) :
    pushedDatas l₁ ++ [m.data] <+: pushedDatas (l₁ ++ .start m :: l₂) := by
  rw [pushedDatas_append]
  refine (List.prefix_append_right_inj _).mpr ?_
  show [m.data] <+: m.data :: pushedDatas l₂
  exact ⟨pushedDatas l₂, rfl⟩

/-- The accounting of a good line, at an acknowledge. -/
theorem deliveredIf_of_accounting {w : Width} {received flying : List (List UInt8)}
    {log : List Event} (horder : pushedDatas log = received ++ flying)
    (hacks : log.countP Event.takesAck ≤ received.length) : Each (DeliveredIf w received) log := by
  intro pre ev post hlog m hm l₁ l₂ hpre hclear
  have hsplit : log = l₁ ++ .start m :: (l₂ ++ ([.control dartAck] ++ ev :: post)) := by
    rw [hlog, hpre]
    simp only [List.append_assoc, List.cons_append]
  have hstart : pushedDatas l₁ ++ [m.data] <+: received ++ flying := by
    rw [← horder, hsplit]
    exact pushedDatas_start l₁ _ m
  -- the acknowledge byte after the start is one more than the frames before it
  have hcount : l₁.countP Event.takesAck + 1 ≤ log.countP Event.takesAck := by
    rw [hsplit, List.countP_append, List.countP_cons_of_neg Bool.false_ne_true, List.countP_append,
      List.countP_append, List.countP_cons_of_pos (by decide)]
    omega
  have hlength : (pushedDatas l₁ ++ [m.data]).length ≤ received.length := by
    rw [List.length_append, pushedDatas, List.length_map, List.length_singleton]
    omega
  have hstarts := List.prefix_of_prefix_length_le hstart
      (List.prefix_append received flying) hlength
  exact hstarts.subset (List.mem_append_right _ (List.mem_singleton.mpr rfl))

/-- **Acknowledges.** Whatever the line does, a message is only treated as
acknowledged when an acknowledge byte is taken while it is in transfer. Over a good
line, where ACK timers may expire, it has been received if at its start all frames
pushed before had been answered. Both as long as no allocation loses bits. -/
theorem link_acknowledged (B : Build) (n : Side → Nat) :
    (∀ l, (fittingLink B n).Reachable l → ∀ s, Each (AckOk B.msgtypeSize) (l.ends s).log) ∧
    (∀ l, (goodLink B n True).Reachable l → ∀ s,
      Each (DeliveredIf B.msgtypeSize (receivedDatas (l.ends s.other).log)) (l.ends s).log) := by
  constructor
  · intro l hl s
    obtain ⟨e, hrun, -⟩ := link_refines_engine hl s
    exact (engine_acks hrun).acked
  · intro l hl s
    obtain ⟨pre, items, hinv⟩ := link_accounting B n True l hl
    have hacks := hinv.acks s
    exact deliveredIf_of_accounting (hinv.order s) (by omega)

/-- The acknowledge of the report was taken in transfer, and the report was
received. -/
theorem link_acknowledged_report :
    ∃ l : Link, ackedDatas .one (l.ends .left).log = [[0x11]] ∧
      Each (AckOk .one) (l.ends .left).log ∧
      Each (DeliveredIf .one (receivedDatas (l.ends .right).log)) (l.ends .left).log := by
  obtain ⟨l, hrun, hgood⟩ := linkFresh_run (B := ⟨.one, .one, .one⟩) (n := fun _ => 512)
    (P := fun l act => act.Orderly ⟨.one, .one, .one⟩ True l ∧ act.Fits ⟨.one, .one, .one⟩ l)
    (fun _ => by decide) (fun _ => (by decide : 64 < 2 ^ 16))
    (by decide +kernel : Allowed _ _ _ reportActs)
  obtain ⟨l', hrun', hfitting⟩ := linkFresh_run (B := ⟨.one, .one, .one⟩) (n := fun _ => 512)
    (P := fun l act => act.Fits ⟨.one, .one, .one⟩ l)
    (fun _ => by decide) (fun _ => (by decide : 64 < 2 ^ 16))
    (by decide +kernel : Allowed _ _ _ reportActs)
  obtain rfl : l = l' := Option.some.inj (hrun.symm.trans hrun')
  have hacked : (reportActs.foldlM (linkStep ⟨.one, .one, .one⟩)
      (linkFresh (fun _ => 512) fun _ => 64)).map
        (fun l => ackedDatas .one (l.ends .left).log) = some [[0x11]] := by decide +kernel
  rw [hrun] at hacked
  obtain ⟨hfirst, hsecond⟩ := link_acknowledged ⟨.one, .one, .one⟩ fun _ => 512
  exact ⟨l, Option.some.inj hacked, hfirst l hfitting .left, hsecond l hgood .left⟩

/-- Some acts after which the left side has reported a report or response as done
that the right side has not received. -/
def Undelivered (B : Build) (l : Link) (acts : List LinkAct) : Prop :=
  ∃ l' m len, acts.foldlM (linkStep B) l = some l' ∧
    .callback .transferDone (.stored m) len ∈ (l'.ends .left).log ∧
    ¬ m.IsRequest B.msgtypeSize ∧ m.data ∉ receivedDatas (l'.ends .right).log

/-- Three runs in which a report is done but not received. Over a good line: the
acknowledge of the first report is late, the report is sent again, and the second
acknowledge is taken for the next report. Over a line that loses bytes: of a frame
with `0xAA` in its payload the bytes in front of it are lost. Over a line that
changes bytes: the sync byte of a frame has become `0xAA`. -/
theorem link_acknowledged_late :
    let B : Build := ⟨.one, .one, .one⟩
    let early := Env.plain 7 true
    let later := Env.plain 400 true
    let l := linkFresh (fun _ => 512) fun _ => 64
    let report (ch : UInt8) : Mem := fun a => if a = 0 then ch else dartAck
    let frame := List.replicate 4 (LinkAct.deliver .right early)
    let again := List.replicate 4 (LinkAct.deliver .right later)
    let stale : List LinkAct := [.send .left early 1 (report 0x11) 1] ++ frame ++
      [.time .left later] ++ again ++ [.deliver .left later, .send .left later 1 (report 0x12) 1,
        .deliver .left later]
    let both : List LinkAct := [.send .left early 1 (report 0x11) 1,
      .send .right early 1 (report 0x12) 2]
    (Allowed B (fun l act => act.Orderly B True l ∧ act.Fits B l) l stale ∧
      Undelivered B l stale) ∧
    Undelivered B l (both ++ [.drop .right 0, .drop .right 0, .drop .right 0,
      .deliver .left early]) ∧
    Undelivered B l (both ++ [.corrupt .right 0 dartAck, .deliver .left early]) := by
  intro B early later l report frame again stale both
  have hundelivered : ∀ (acts : List LinkAct) (m : Msg) (received : List (List UInt8)),
      (acts.foldlM (linkStep B) l).map (fun l' =>
        (decide (.callback .transferDone (.stored m) m.data.length ∈ (l'.ends .left).log),
          receivedDatas (l'.ends .right).log)) = some (true, received) →
      ¬ m.IsRequest .one → m.data ∉ received → Undelivered B l acts := by
    intro acts m received hrun hm hdata
    obtain ⟨l', hl', heq⟩ := Option.map_eq_some_iff.mp hrun
    obtain ⟨hdone, hreceived⟩ := Prod.mk.inj heq
    exact ⟨l', m, _, hl', of_decide_eq_true hdone, hm, hreceived ▸ hdata⟩
  refine ⟨⟨by decide +kernel, ?_⟩, ?_, ?_⟩
  · refine hundelivered stale ⟨20, 0x12, [0x12]⟩ [[0x11], [0x11]] ?_ (by decide) (by decide)
    decide +kernel
  · refine hundelivered _ ⟨20, 0x11, [0x11]⟩ [] ?_ (by decide) (by decide)
    decide +kernel
  · refine hundelivered _ ⟨20, 0x11, [0x11]⟩ [] ?_ (by decide) (by decide)
    decide +kernel

end EmbeddedMx
