import EmbeddedMx.Link.Model

/-!
# What is on a good line

On a good line the bytes one side has sent, from the first one the other side
still has in its receive buffer, are a sequence of frames and acknowledge bytes
(`Flight`). `LinkInv` says how these are accounted for: what a side has pushed is
what the other one has received, followed by the frames on the line; and the
acknowledge bytes a side has taken and those on their way to it are no more
than what the other side has received.

`LinkInv.advance` is the accounting of a step; the rest of the module brings every
call of an endpoint into its form.
-/

namespace EmbeddedMx

open EmbeddedMx.Lib

/-! ## Items on the line -/

namespace LineItem

/-- The data of a frame. -/
def datas : LineItem → List (List UInt8)
  | frame data => [data]
  | byte _ => []

def isByte : LineItem → Bool
  | frame _ => false
  | byte _ => true

/-- What is sent over a good line: frames that fit, and acknowledge bytes. -/
def Plain (B : Build) (size : Nat) : LineItem → Prop
  | frame data => (frame data).Fits B size
  | byte ch => ch = dartAck

theorem bytes_ne_nil (B : Build) (item : LineItem) : item.bytes B ≠ [] := by
  cases item with
  | frame data => exact List.cons_ne_nil _ _
  | byte ch => exact List.cons_ne_nil _ _

end LineItem

/-- The receiver `d` holds the bytes `pre`; with the bytes `line` still to come
they are the `items`, and the first of these is not complete. -/
structure Flight (B : Build) (d : Dart) (line pre : List UInt8) (items : List LineItem) : Prop where
  holds : RxHolds d pre
  bytes : pre ++ line = items.flatMap (LineItem.bytes B)
  plain : ∀ item ∈ items, item.Plain B d.rxBufferSize
  part : ∀ item rest, items = item :: rest → pre.length < (item.bytes B).length

namespace Flight

variable {B : Build} {d d' : Dart} {line pre : List UInt8} {items out : List LineItem} {ch : UInt8}

theorem congr (h : Flight B d line pre items)
    (hbytes : d'.rxBufferBytes = d.rxBufferBytes) (hbuffer : d'.rxBuffer = d.rxBuffer)
    (hsize : d'.rxBufferSize = d.rxBufferSize) : Flight B d' line pre items where
  holds := ⟨hbytes.trans h.holds.bytes, hbuffer ▸ h.holds.content⟩
  bytes := h.bytes
  plain := by
    rw [hsize]
    exact h.plain
  part := h.part

/-- More is put on the line. -/
theorem append (h : Flight B d line pre items) (hout : ∀ item ∈ out, item.Plain B d.rxBufferSize) :
    Flight B d (line ++ out.flatMap (LineItem.bytes B)) pre (items ++ out) where
  holds := h.holds
  bytes := by rw [← List.append_assoc, h.bytes, List.flatMap_append]
  plain := by
    intro item hitem
    rcases List.mem_append.mp hitem with hitem | hitem
    · exact h.plain item hitem
    · exact hout item hitem
  part := by
    intro item rest heq
    cases items with
    | nil =>
        have hnil : pre = [] := (List.append_eq_nil_iff.mp h.bytes).1
        subst hnil
        exact List.length_pos_of_ne_nil (item.bytes_ne_nil B)
    | cons first items =>
        cases heq
        exact h.part item items rfl

/-- What the next byte on the line is. -/
theorem next (h : Flight B d (ch :: line) pre items) : ∃ item rest post, items = item :: rest ∧
    pre ++ ch :: post = item.bytes B ∧ line = post ++ rest.flatMap (LineItem.bytes B) := by
  cases items with
  | nil => exact absurd h.bytes (by simp)
  | cons item rest =>
      have heq := h.bytes
      rw [List.flatMap_cons] at heq
      have hpart := h.part item rest rfl
      rcases List.append_eq_append_iff.mp heq with ⟨as, hitem, hline⟩ | ⟨bs, hpre, _⟩
      · cases as with
        | nil =>
            rw [hitem, List.append_nil] at hpart
            exact absurd hpart (Nat.lt_irrefl _)
        | cons a post =>
            obtain ⟨rfl, rfl⟩ := List.cons.inj hline
            exact ⟨item, rest, post, rfl, hitem.symm, rfl⟩
      · rw [hpre, List.length_append] at hpart
        omega

/-- The item under way is complete, or was a single byte: the buffer is empty. -/
theorem rest {item : LineItem} (h : Flight B d line pre (item :: items))
    (hempty : d'.rxBufferBytes = 0) (hsize : d'.rxBufferSize = d.rxBufferSize) :
    Flight B d' (items.flatMap (LineItem.bytes B)) [] items where
  holds := rxHolds_nil hempty
  bytes := rfl
  plain := by
    intro item hitem
    rw [hsize]
    exact h.plain item (List.mem_cons_of_mem _ hitem)
  part := fun item _ _ => List.length_pos_of_ne_nil (item.bytes_ne_nil B)

end Flight

/-! ## Accounting -/

/-- The messages pushed on the line in the log. -/
def pushedDatas (log : List Event) : List (List UInt8) :=
  (log.flatMap Event.pushes).map Msg.data

/-- The messages received in the log. -/
def receivedDatas (log : List Event) : List (List UInt8) := log.flatMap Event.receives

theorem pushedDatas_append (log evs : List Event) :
    pushedDatas (log ++ evs) = pushedDatas log ++ pushedDatas evs := by
  rw [pushedDatas, List.flatMap_append, List.map_append]
  rfl

theorem receivedDatas_append (log evs : List Event) :
    receivedDatas (log ++ evs) = receivedDatas log ++ receivedDatas evs :=
  List.flatMap_append

/-- The endpoint `d` refines the engine, and its messages fit a receive buffer of
`size` bytes. -/
def SideOk (B : Build) (n : Nat) (late : Prop) (size : Nat) (d : Dart) : Prop :=
  ∃ e, Runs (EngineStep B.msgtypeSize late) Engine.init d.log e ∧ DartRep B n d e ∧
    ∀ m ∈ e.messages, (LineItem.frame m.data).Fits B size

/-- The accounting of a good line, with the items on it. -/
structure LinkInv (B : Build) (n : Side → Nat) (late : Prop) (l : Link)
    (pre : Side → List UInt8) (items : Side → List LineItem) : Prop where
  side : ∀ s, SideOk B (n s) late (l.ends s.other).rxBufferSize (l.ends s)
  size : ∀ s, (l.ends s).rxBufferSize < 2 ^ 16
  flight : ∀ s, Flight B (l.ends s.other) (l.line s) (pre s) (items s)
  order : ∀ s, pushedDatas (l.ends s).log =
    receivedDatas (l.ends s.other).log ++ (items s).flatMap LineItem.datas
  acks : ∀ s, (l.ends s).log.countP Event.takesAck + (items s.other).countP LineItem.isByte ≤
    (receivedDatas (l.ends s.other).log).length

/-- What a call of an endpoint does to the line: `evs` is appended to the log, `out`
put on the line behind the other items; of the items on their way to the
endpoint `items'` remain, the first of which it holds `pre'` of. -/
structure Advance (B : Build) (d d' : Dart) (size : Nat) (items out items' : List LineItem)
    (line' pre' : List UInt8) (evs : List Event) : Prop where
  log : d'.log = d.log ++ evs
  rxBufferSize : d'.rxBufferSize = d.rxBufferSize
  flight : Flight B d' line' pre' items'
  plain : ∀ item ∈ out, item.Plain B size
  bytes : evs.flatMap Event.bytes = out.flatMap (LineItem.bytes B)
  pushes : pushedDatas evs = out.flatMap LineItem.datas
  receives : items.flatMap LineItem.datas = receivedDatas evs ++ items'.flatMap LineItem.datas
  acked : evs.countP Event.takesAck + items'.countP LineItem.isByte ≤ items.countP LineItem.isByte
  acks : out.countP LineItem.isByte = (receivedDatas evs).length

/-- The accounting of one step. -/
theorem LinkInv.advance {B : Build} {n : Side → Nat} {late : Prop} {l l' : Link}
    {pre : Side → List UInt8} {items : Side → List LineItem} (h : LinkInv B n late l pre items)
    (s : Side) {d' : Dart} {out items' : List LineItem} {line' pre' : List UInt8}
    {evs : List Event} (hend : l'.ends s = d') (hother : l'.ends s.other = l.ends s.other)
    (hline : l'.line s = l.line s ++ evs.flatMap Event.bytes) (hline' : l'.line s.other = line')
    (hside : SideOk B (n s) late (l.ends s.other).rxBufferSize d')
    (ha : Advance B (l.ends s) d' (l.ends s.other).rxBufferSize (items s.other) out items' line' pre'
      evs) :
    ∃ pre₁ items₁, LinkInv B n late l' pre₁ items₁ := by
  subst hend
  refine ⟨Function.update pre s.other pre',
    Function.update (Function.update items s (items s ++ out)) s.other items', ?_⟩
  have hpre : Function.update pre s.other pre' s = pre s :=
    Function.update_of_ne s.other_ne.symm ..
  have hitems : Function.update (Function.update items s (items s ++ out)) s.other items' s =
      items s ++ out := by
    rw [Function.update_of_ne s.other_ne.symm, Function.update_self]
  refine ⟨Side.forall_of s ?_ ?_, Side.forall_of s ?_ ?_, Side.forall_of s ?_ ?_,
    Side.forall_of s ?_ ?_, Side.forall_of s ?_ ?_⟩
  · rw [hother]
    exact hside
  · rw [Side.other_other, hother, ha.rxBufferSize]
    have hold := h.side s.other
    rw [Side.other_other] at hold
    exact hold
  · rw [ha.rxBufferSize]
    exact h.size s
  · rw [hother]
    exact h.size s.other
  · rw [hother, hpre, hitems, hline, ha.bytes]
    exact (h.flight s).append ha.plain
  · rw [Side.other_other, Function.update_self, Function.update_self, hline']
    exact ha.flight
  · rw [hother, hitems, ha.log, pushedDatas_append, h.order s, ha.pushes, List.flatMap_append,
      List.append_assoc]
  · rw [Side.other_other, Function.update_self, hother, ha.log, receivedDatas_append,
      List.append_assoc, ← ha.receives]
    have hold := h.order s.other
    rw [Side.other_other] at hold
    exact hold
  · have hold := h.acks s
    have hacked := ha.acked
    rw [Function.update_self, hother, ha.log, List.countP_append]
    omega
  · have hold := h.acks s.other
    rw [Side.other_other] at hold ⊢
    rw [hitems, hother, ha.log, receivedDatas_append, List.length_append, List.countP_append,
        ha.acks]
    omega

/-! ## What the engine puts on the line -/

/-- Events by which an endpoint sends the frames of the messages it pushes, and
nothing else. -/
structure Outgoing (B : Build) (size : Nat) (evs : List Event) : Prop where
  bytes : evs.flatMap Event.bytes =
    (pushedDatas evs).flatMap fun data => dartFrame B data
  receives : receivedDatas evs = []
  acks : evs.countP Event.takesAck = 0
  fits : ∀ data ∈ pushedDatas evs, (LineItem.frame data).Fits B size

namespace Outgoing

variable {B : Build} {size : Nat} {evs evs' : List Event}

theorem nil : Outgoing B size [] := ⟨rfl, rfl, rfl, fun _ h => absurd h List.not_mem_nil⟩

theorem append (h : Outgoing B size evs) (h' : Outgoing B size evs') :
    Outgoing B size (evs ++ evs') where
  bytes := by
    rw [List.flatMap_append, h.bytes, h'.bytes, pushedDatas_append, List.flatMap_append]
  receives := by rw [receivedDatas_append, h.receives, h'.receives, List.append_nil]
  acks := by rw [List.countP_append, h.acks, h'.acks]
  fits := by
    intro data hdata
    rw [pushedDatas_append] at hdata
    rcases List.mem_append.mp hdata with hdata | hdata
    · exact h.fits data hdata
    · exact h'.fits data hdata

/-- The message `m` is pushed, with the mark `mark`. -/
theorem push {mark : Event} {m : Msg} (hpush : mark.pushes = [m]) (hbytes : mark.bytes = [])
    (hreceives : mark.receives = []) (hack : mark.takesAck = false)
    (hfit : (LineItem.frame m.data).Fits B size) :
    Outgoing B size (mark :: [.uart (dartFrame B m.data)]) := by
  have hpushed : pushedDatas (mark :: [.uart (dartFrame B m.data)]) = [m.data] := by
    rw [pushedDatas, List.flatMap_cons, hpush]
    rfl
  refine ⟨?_, ?_, ?_, ?_⟩
  · rw [hpushed, List.flatMap_cons, hbytes]
    rfl
  · rw [receivedDatas, List.flatMap_cons, hreceives]
    rfl
  · rw [List.countP_cons_of_neg (by rw [hack]; exact Bool.false_ne_true)]
    rfl
  · intro data hdata
    rw [hpushed, List.mem_singleton] at hdata
    rw [hdata]
    exact hfit

/-- The items that are put on the line. -/
theorem items (h : Outgoing B size evs) :
    evs.flatMap Event.bytes = ((pushedDatas evs).map LineItem.frame).flatMap (LineItem.bytes B) ∧
      pushedDatas evs = ((pushedDatas evs).map LineItem.frame).flatMap LineItem.datas ∧
      (∀ item ∈ (pushedDatas evs).map LineItem.frame, item.Plain B size) ∧
      ((pushedDatas evs).map LineItem.frame).countP LineItem.isByte = 0 := by
  refine ⟨?_, ?_, ?_, ?_⟩
  · rw [List.flatMap_map, h.bytes]
    rfl
  · rw [List.flatMap_map]
    exact (List.flatMap_singleton' _).symm
  · intro item hitem
    obtain ⟨data, hdata, rfl⟩ := List.mem_map.mp hitem
    exact h.fits data hdata
  · rw [List.countP_map, List.countP_eq_zero]
    intro data _
    exact Bool.false_ne_true

end Outgoing

/-- Events about no message on the line. -/
structure Event.Mute (ev : Event) : Prop where
  bytes : ev.bytes = []
  receives : ev.receives = []
  pushes : ev.pushes = []
  takesAck : ev.takesAck = false

theorem outgoing_mute {B : Build} {size : Nat} {ev : Event} (h : ev.Mute) :
    Outgoing B size [ev] := by
  have hpushed : pushedDatas [ev] = [] := by
    simp only [pushedDatas, List.flatMap_cons, List.flatMap_nil, h.pushes, List.append_nil,
      List.map_nil]
  refine ⟨?_, ?_, ?_, ?_⟩
  · rw [hpushed]
    simp only [List.flatMap_cons, List.flatMap_nil, h.bytes, List.append_nil]
  · simp only [receivedDatas, List.flatMap_cons, List.flatMap_nil, h.receives, List.append_nil]
  · simp [h.takesAck]
  · rw [hpushed]
    exact fun _ h => absurd h List.not_mem_nil

theorem outgoing_mutes {B : Build} {size : Nat} {evs : List Event} (h : ∀ ev ∈ evs, ev.Mute) :
    Outgoing B size evs := by
  induction evs with
  | nil => exact .nil
  | cons ev evs ih =>
      have hfirst : Outgoing B size [ev] := outgoing_mute (h ev List.mem_cons_self)
      exact hfirst.append (ih fun x hx => h x (List.mem_cons_of_mem _ hx))

theorem Event.Quiet.mute {ev : Event} (h : ev.Quiet) : ev.Mute := by
  cases h with
  | pin state => exact ⟨rfl, rfl, rfl, rfl⟩
  | notify code n => cases code <;> exact ⟨rfl, rfl, rfl, rfl⟩

/-- Without deferred messages exactly the frame of the message is sent. -/
theorem transferOut_eq {B : Build} {env : Env} (hdeferred : env.deferred = none) (m : Msg) :
    transferOut B env m = [.uart (dartFrame B m.data)] := by
  have hnone : deferredOut B env m = ([], false) := by
    unfold deferredOut
    rw [hdeferred]
    split <;> rfl
  rw [transferOut, hnone]
  rfl

section Engine

variable {B : Build} {env : Env} {late : Prop} {ok : Msg → Prop} {size : Nat} {e e' : Engine}
  {evs : List Event}

/-- A step of the endpoint by itself. -/
theorem outgoing_step (hdeferred : env.deferred = none)
    (hok : ∀ m, ok m → (LineItem.frame m.data).Fits B size)
    (he : ∀ m ∈ e.messages, (LineItem.frame m.data).Fits B size)
    (hstep : OutStep B env late ok e evs e') :
    Outgoing B size evs ∧ ∀ m ∈ e'.messages, (LineItem.frame m.data).Fits B size := by
  cases hstep with
  | quiet hev => exact ⟨outgoing_mute hev.mute, he⟩
  | accept hacc _ =>
      refine ⟨outgoing_mute ⟨rfl, rfl, rfl, rfl⟩, ?_⟩
      intro o ho
      rcases List.mem_cons.mp (Engine.push_perm.mem_iff.mp ho) with rfl | ho
      · exact hok o hacc
      · exact he o ho
  | start _ hcons _ =>
      rw [transferOut_eq hdeferred]
      exact ⟨.push rfl rfl rfl rfl (he _ (Engine.head_mem hcons)), he⟩
  | retry _ _ hcons =>
      rw [transferOut_eq hdeferred]
      exact ⟨.push rfl rfl rfl rfl (he _ (Engine.head_mem hcons)), he⟩
  | abort _ => exact ⟨outgoing_mute ⟨rfl, rfl, rfl, rfl⟩, he⟩
  | failure _ _ hcons =>
      refine ⟨outgoing_mute ⟨rfl, rfl, rfl, rfl⟩, ?_⟩
      intro o ho
      exact he o ((Engine.close_perm hcons).mem_iff.mp (List.mem_cons_of_mem _ ho))
  | abandoned hm =>
      refine ⟨outgoing_mute ⟨rfl, rfl, rfl, rfl⟩, ?_⟩
      intro o ho
      exact he o ((Engine.unpend_perm hm).mem_iff.mp (List.mem_cons_of_mem _ ho))

theorem outgoing_runs (hdeferred : env.deferred = none)
    (hok : ∀ m, ok m → (LineItem.frame m.data).Fits B size)
    (he : ∀ m ∈ e.messages, (LineItem.frame m.data).Fits B size)
    (hrun : Runs (OutStep B env late ok) e evs e') :
    Outgoing B size evs ∧ ∀ m ∈ e'.messages, (LineItem.frame m.data).Fits B size := by
  have hinit : Outgoing B size [] ∧ ∀ m ∈ e.messages, (LineItem.frame m.data).Fits B size :=
    ⟨.nil, he⟩
  refine hrun.invariant (P := fun e evs => Outgoing B size evs ∧
    ∀ m ∈ e.messages, (LineItem.frame m.data).Fits B size) ?_ hinit
  rintro l₀ e l e' ⟨hout, hmem⟩ hstep
  obtain ⟨hout', hmem'⟩ := outgoing_step hdeferred hok hmem hstep
  exact ⟨hout.append hout', hmem'⟩

/-- An input stores no new message. -/
theorem EngineIn.mem_messages {w : Width} (hwf : EngineWf w e) (h : EngineIn w e evs e') {m : Msg}
    (hm : m ∈ e'.messages) : m ∈ e.messages := by
  cases h with
  | ignored _ => exact hm
  | done _ hcons _ =>
      exact (Engine.close_perm hcons).mem_iff.mp (List.mem_cons_of_mem _ hm)
  | promote hi hcons hreq =>
      exact (Engine.promote_perm hcons (hwf.pending_none hi hcons hreq)).mem_iff.mp hm
  | received => exact hm
  | answered hp _ => exact (Engine.unpend_perm hp).mem_iff.mp (List.mem_cons_of_mem _ hm)
  | damaged => exact hm

/-- What follows a control byte or a received message tells nothing about the line. -/
theorem EngineIn.mute {w : Width} (h : EngineIn w e evs e') :
    (∀ ch rest, evs = .control ch :: rest → ∀ ev ∈ rest, ev.Mute) ∧
      ∀ type data len rest,
        evs = .uart [dartAck] :: .callback .messageReceived (.rx type data) len :: rest →
        ∀ ev ∈ rest, ev.Mute := by
  have hsingle : ∀ {ev : Event}, ev.Mute → ∀ x ∈ [ev], x.Mute := by
    intro ev hev x hx
    rw [List.mem_singleton.mp hx]
    exact hev
  cases h with
  | ignored _ =>
      refine ⟨?_, by rintro _ _ _ _ ⟨⟩⟩
      rintro _ _ ⟨⟩ ev hev
      exact absurd hev List.not_mem_nil
  | done _ _ _ =>
      refine ⟨?_, by rintro _ _ _ _ ⟨⟩⟩
      rintro _ _ ⟨⟩
      exact hsingle ⟨rfl, rfl, rfl, rfl⟩
  | promote _ _ _ =>
      refine ⟨?_, by rintro _ _ _ _ ⟨⟩⟩
      rintro _ _ ⟨⟩
      exact hsingle ⟨rfl, rfl, rfl, rfl⟩
  | received =>
      refine ⟨by rintro _ _ ⟨⟩, ?_⟩
      rintro _ _ _ _ ⟨⟩ ev hev
      exact absurd hev List.not_mem_nil
  | answered _ _ =>
      refine ⟨by rintro _ _ ⟨⟩, ?_⟩
      rintro _ _ _ _ ⟨⟩
      exact hsingle ⟨rfl, rfl, rfl, rfl⟩
  | damaged => exact ⟨by rintro _ _ ⟨⟩, by rintro _ _ _ _ ⟨⟩⟩

end Engine

/-! ## Calls -/

section Calls

variable {B : Build} {n : Nat} {env : Env} {late : Prop} {ok : Msg → Prop} {size : Nat}
  {d d' : Dart} {e : Engine} {line pre : List UInt8} {items rest : List LineItem}
  {evs l₁ : List Event}

/-- The endpoint goes on by itself from where its log is `l₁`. -/
theorem sideOk_tracks (hdeferred : env.deferred = none)
    (hok : ∀ m, ok m → (LineItem.frame m.data).Fits B size)
    (hrun : Runs (EngineStep B.msgtypeSize late) Engine.init l₁ e)
    (he : ∀ m ∈ e.messages, (LineItem.frame m.data).Fits B size)
    (ht : Tracks B n (OutStep B env late ok) l₁ e d') :
    ∃ evs, d'.log = l₁ ++ evs ∧ Outgoing B size evs ∧ SideOk B n late size d' := by
  obtain ⟨evs, e', hlog, hout, hrep⟩ := ht
  obtain ⟨houtgoing, hfit⟩ := outgoing_runs hdeferred hok he hout
  refine ⟨evs, hlog, houtgoing, e', ?_, hrep, hfit⟩
  rw [hlog]
  exact hrun.trans (hout.mono fun _ _ _ hstep => .output (transferOut_uart B env) hstep)

/-- A call that receives nothing. -/
theorem advance_emits (hflight : Flight B d line pre items) (hem : Emits d d')
    (hlog : d'.log = d.log ++ evs) (hout : Outgoing B size evs) :
    Advance B d d' size items ((pushedDatas evs).map LineItem.frame) items line pre evs := by
  obtain ⟨hbytes, hpushes, hplain, hacks⟩ := hout.items
  refine ⟨hlog, hem.rxBufferSize, hflight.congr hem.rxBufferBytes hem.rxBuffer hem.rxBufferSize,
    hplain, hbytes, hpushes, ?_, ?_, ?_⟩
  · rw [hout.receives, List.nil_append]
  · rw [hout.acks, Nat.zero_add]
  · rw [hacks, hout.receives]
    rfl

/-- A byte inside a frame. -/
theorem advance_inside {data post : List UInt8} {ch : UInt8}
    (hflight : Flight B d (ch :: line) pre (.frame data :: rest))
    (hbytes : pre ++ ch :: post = dartFrame B data) (hpost : post ≠ [])
    (hlate : ¬ RxLate env d) (hsize : d.rxBufferSize < 2 ^ 16) :
    Collects d (dartHandleReceivedChar B env d ch) ∧ ∃ evs, (∀ ev ∈ evs, ev.Quiet) ∧
      Advance B d (dartHandleReceivedChar B env d ch) size (.frame data :: rest) []
        (.frame data :: rest) line (pre ++ [ch]) evs := by
  have hfit : (LineItem.frame data).Fits B d.rxBufferSize := hflight.plain _ List.mem_cons_self
  obtain ⟨hcollect, hholds⟩ := received_inside hflight.holds hlate hbytes hpost hfit hsize
  have hlog : ∃ evs, (dartHandleReceivedChar B env d ch).log = d.log ++ evs ∧
      ∀ ev ∈ evs, ev.Quiet := by
    rcases hcollect.log with ⟨hlog, _⟩ | ⟨hlog, _⟩
    · exact ⟨[], by rw [hlog, List.append_nil], fun ev hev => absurd hev List.not_mem_nil⟩
    · refine ⟨[.pin true], hlog, fun ev hev => ?_⟩
      rw [List.mem_singleton.mp hev]
      exact .pin true
  obtain ⟨evs, hlog, hevs⟩ := hlog
  have hout : Outgoing B size evs := outgoing_mutes fun ev hev => (hevs ev hev).mute
  have hpushed : pushedDatas evs = [] := by
    rw [pushedDatas, List.map_eq_nil_iff, List.flatMap_eq_nil_iff]
    exact fun ev hev => (hevs ev hev).mute.pushes
  refine ⟨hcollect, evs, hevs, hlog, hcollect.rxBufferSize, ⟨hholds, ?_, ?_, ?_⟩, ?_, ?_, hpushed,
    ?_, ?_, ?_⟩
  · rw [← hflight.bytes, List.append_assoc]
    rfl
  · rw [hcollect.rxBufferSize]
    exact hflight.plain
  · rintro item rest' ⟨⟩
    show (pre ++ [ch]).length < (dartFrame B data).length
    have hpos : 0 < post.length := List.length_pos_of_ne_nil hpost
    rw [← hbytes]
    simp only [List.length_append, List.length_cons, List.length_nil]
    omega
  · exact fun item hitem => absurd hitem List.not_mem_nil
  · rw [hout.bytes, hpushed]
    rfl
  · rw [hout.receives, List.nil_append]
  · rw [hout.acks, Nat.zero_add]
  · rw [hout.receives]
    rfl

theorem dartHandleReceivedMsg_size (B : Build) (env : Env) (d : Dart) (msgLen : Nat) :
    (dartHandleReceivedMsg B env d msgLen).rxBufferSize = d.rxBufferSize :=
  (sends_checkResponse B env _ _ _).rxBufferSize

/-- The last byte of a frame: it is received, and acknowledged. -/
theorem advance_last {data : List UInt8} {ch : UInt8} (hdeferred : env.deferred = none)
    (hflight : Flight B d (ch :: line) pre (.frame data :: rest))
    (hbytes : pre ++ [ch] = dartFrame B data) (hlate : ¬ RxLate env d)
    (hsize : d.rxBufferSize < 2 ^ 16) (hside : SideOk B n late size d) :
    ∃ out evs, SideOk B n late size (dartHandleReceivedChar B env d ch) ∧
      Advance B d (dartHandleReceivedChar B env d ch) size (.frame data :: rest) out rest
        (rest.flatMap (LineItem.bytes B)) [] evs := by
  have hfit : (LineItem.frame data).Fits B d.rxBufferSize := hflight.plain _ List.mem_cons_self
  obtain ⟨heq, hdata⟩ := received_last hflight.holds hlate hbytes hfit hsize
  obtain ⟨e, hrun, hrep, hmsgs⟩ := hside
  have hstore : DartRep B n (dartRxStore env d ch) e := hrep.congr (dartRxStore_same env d ch)
  obtain ⟨type, evs₁, e₁, hin, htracks⟩ :=
    tracks_receivedMsg env late (fun _ => False) hstore hdata
  have hnew : Tracks B n (OutStep B env late fun _ => False) _ e₁
      (dartHandleReceivedChar B env d ch) := heq ▸ htracks.congr (dartRxDrop_same _) rfl
  have hrun₁ := hrun.trans (.single (.input hin))
  have hmsgs₁ : ∀ m ∈ e₁.messages, (LineItem.frame m.data).Fits B size :=
    fun m hm => hmsgs m (hin.mem_messages (engine_acks hrun).requests.wf hm)
  obtain ⟨evs₂, hlog, hout₂, hside'⟩ :=
    sideOk_tracks hdeferred (fun _ h => h.elim) hrun₁ hmsgs₁ hnew
  have hout : Outgoing B size (evs₁ ++ evs₂) :=
    (outgoing_mutes (hin.mute.2 _ _ _ _ rfl)).append hout₂
  obtain ⟨hbytes', hpushes, hplain, hacks⟩ := hout.items
  have hreceived : receivedDatas (.uart [dartAck] ::
      .callback .messageReceived (.rx type data) data.length :: (evs₁ ++ evs₂)) = [data] := by
    show data :: receivedDatas (evs₁ ++ evs₂) = _
    rw [hout.receives]
  have hsize' : (dartHandleReceivedChar B env d ch).rxBufferSize = d.rxBufferSize := by
    rw [heq]
    exact dartHandleReceivedMsg_size B env _ _
  refine ⟨.byte dartAck :: (pushedDatas (evs₁ ++ evs₂)).map LineItem.frame,
    .uart [dartAck] :: .callback .messageReceived (.rx type data) data.length :: (evs₁ ++ evs₂),
    hside', ?_, hsize', hflight.rest ?_ hsize', ?_, ?_, ?_, ?_, ?_, ?_⟩
  · rw [hlog, List.append_assoc]
    rfl
  · rw [heq]
    rfl
  · intro item hitem
    rcases List.mem_cons.mp hitem with rfl | hitem
    · rfl
    · exact hplain item hitem
  · rw [List.flatMap_cons, List.flatMap_cons, List.flatMap_cons, hbytes']
    rfl
  · rw [List.flatMap_cons, ← hpushes]
    rfl
  · rw [hreceived, List.flatMap_cons]
    rfl
  · rw [List.countP_cons_of_neg Bool.false_ne_true, List.countP_cons_of_neg Bool.false_ne_true,
      hout.acks, List.countP_cons_of_neg Bool.false_ne_true, Nat.zero_add]
  · rw [hreceived, List.countP_cons_of_pos (by rfl), hacks]
    rfl

/-- An acknowledge byte: it is taken, or ignored with the WRK pin low. -/
theorem advance_ack (hdeferred : env.deferred = none)
    (hflight : Flight B d (dartAck :: line) [] (.byte dartAck :: rest))
    (hlate : ¬ RxLate env d) (hside : SideOk B n late size d) :
    ∃ out evs, SideOk B n late size (dartHandleReceivedChar B env d dartAck) ∧
      Advance B d (dartHandleReceivedChar B env d dartAck) size (.byte dartAck :: rest) out rest
        (rest.flatMap (LineItem.bytes B)) [] evs := by
  have heq := received_byte (B := B) hflight.holds hlate (by decide : dartAck ≠ dartSync)
  obtain ⟨e, hrun, hrep, hmsgs⟩ := hside
  have hstore : DartRep B n (dartRxStore env d dartAck) e :=
    hrep.congr (dartRxStore_same env d dartAck)
  by_cases hwrk : d.wrk
  · have hcontrol : dartHandleControl B env (dartRxStore env d dartAck) dartAck =
        dartAcknowledgeMsg B env ((dartRxStore env d dartAck).emit (.control dartAck)) :=
      if_pos rfl
    rw [if_pos hwrk, hcontrol] at heq
    obtain ⟨evs₁, e₁, hin, htracks⟩ := tracks_acknowledge env late (fun _ => False) hstore
    have hnew : Tracks B n (OutStep B env late fun _ => False) _ e₁
        (dartHandleReceivedChar B env d dartAck) := heq ▸ htracks.congr (dartRxDrop_same _) rfl
    have hrun₁ := hrun.trans (.single (.input hin))
    have hmsgs₁ : ∀ m ∈ e₁.messages, (LineItem.frame m.data).Fits B size :=
      fun m hm => hmsgs m (hin.mem_messages (engine_acks hrun).requests.wf hm)
    obtain ⟨evs₂, hlog, hout₂, hside'⟩ :=
      sideOk_tracks hdeferred (fun _ h => h.elim) hrun₁ hmsgs₁ hnew
    have hout : Outgoing B size (evs₁ ++ evs₂) :=
      (outgoing_mutes (hin.mute.1 _ _ rfl)).append hout₂
    obtain ⟨hbytes', hpushes, hplain, hacks⟩ := hout.items
    have hsize' : (dartHandleReceivedChar B env d dartAck).rxBufferSize = d.rxBufferSize := by
      rw [heq]
      exact (sends_acknowledge B env _).rxBufferSize
    refine ⟨(pushedDatas (evs₁ ++ evs₂)).map LineItem.frame, .control dartAck :: (evs₁ ++ evs₂),
      hside', ?_, hsize', hflight.rest ?_ hsize', hplain, hbytes', hpushes, ?_, ?_, ?_⟩
    · rw [hlog, List.append_assoc]
      rfl
    · rw [heq]
      rfl
    · show rest.flatMap LineItem.datas = receivedDatas (evs₁ ++ evs₂) ++ _
      rw [hout.receives, List.nil_append]
    · rw [List.countP_cons_of_pos (by decide), hout.acks, List.countP_cons_of_pos (by rfl)]
      omega
    · show _ = (receivedDatas (evs₁ ++ evs₂)).length
      rw [hacks, hout.receives]
      rfl
  · rw [if_neg hwrk] at heq
    have hside' : SideOk B n late size (dartHandleReceivedChar B env d dartAck) := by
      rw [heq]
      exact ⟨e, hrun, hrep.congr ⟨rfl, rfl, rfl, rfl⟩, hmsgs⟩
    rw [heq] at hside' ⊢
    refine ⟨[], [], hside', (List.append_nil _).symm, rfl, hflight.rest rfl rfl,
      fun item hitem => absurd hitem List.not_mem_nil, rfl, rfl, rfl, ?_, rfl⟩
    rw [List.countP_cons_of_pos (by rfl), List.countP_nil]
    omega

end Calls

/-! ## Steps -/

theorem runs_quiet {w : Width} {late : Prop} (e : Engine) {evs : List Event}
    (h : ∀ ev ∈ evs, ev.Quiet) : Runs (EngineStep w late) e evs e := by
  induction evs with
  | nil => exact .refl e
  | cons ev evs ih =>
      have hstep : EngineOut w (fun _ => []) late (fun _ => False) e [ev] e :=
        .quiet (h ev List.mem_cons_self)
      have hfirst : Runs (EngineStep w late) e [ev] e :=
        .single (.output (fun _ _ hmem => absurd hmem List.not_mem_nil) hstep)
      exact hfirst.trans (ih fun x hx => h x (List.mem_cons_of_mem _ hx))

theorem sideOk_quiet {B : Build} {n : Nat} {late : Prop} {size : Nat} {d d' : Dart}
    {evs : List Event} (h : SideOk B n late size d) (hsame : SameStore d d')
    (hlog : d'.log = d.log ++ evs) (hevs : ∀ ev ∈ evs, ev.Quiet) : SideOk B n late size d' := by
  obtain ⟨e, hrun, hrep, hmsgs⟩ := h
  refine ⟨e, ?_, hrep.congr hsame, hmsgs⟩
  rw [hlog]
  exact hrun.trans (runs_quiet e hevs)

namespace LinkInv

variable {B : Build} {n : Side → Nat} {late : Prop} {l l' : Link} {pre : Side → List UInt8}
  {items : Side → List LineItem} {s : Side} {env : Env}

/-- The items on their way to the side `s`. -/
theorem flight_to (h : LinkInv B n late l pre items) (s : Side) :
    Flight B (l.ends s) (l.line s.other) (pre s.other) (items s.other) := by
  have hflight := h.flight s.other
  rw [Side.other_other] at hflight
  exact hflight

/-- A call in which the endpoint `s` receives nothing. -/
theorem emits (h : LinkInv B n late l pre items) {ok : Msg → Prop} {d' : Dart}
    (hdeferred : env.deferred = none)
    (hok : ∀ m, ok m → (LineItem.frame m.data).Fits B (l.ends s.other).rxBufferSize)
    (ht : ∀ e, DartRep B (n s) (l.ends s) e →
      Tracks B (n s) (OutStep B env late ok) (l.ends s).log e d')
    (hem : Emits (l.ends s) d') : ∃ pre' items', LinkInv B n late (l.put s d') pre' items' := by
  obtain ⟨e, hrun, hrep, hmsgs⟩ := h.side s
  obtain ⟨evs, hlog, hout, hside⟩ := sideOk_tracks hdeferred hok hrun hmsgs (ht e hrep)
  have hadvance := advance_emits (h.flight_to s) hem hlog hout
  exact h.advance s Link.put_ends_self Link.put_ends_other (Link.put_line_self hlog)
    Link.put_line_other hside hadvance

/-- The endpoint `s` receives the next byte. -/
theorem deliver (h : LinkInv B n late l pre items) {ch : UInt8} {line : List UInt8}
    (hline : l.line s.other = ch :: line) (hdeferred : env.deferred = none)
    (hlate : ¬ RxLate env (l.ends s)) :
    ∃ pre' items', LinkInv B n late
      (Link.put { l with line := Function.update l.line s.other line } s
        (dartHandleReceivedChar B env (l.ends s) ch)) pre' items' := by
  generalize hd' : dartHandleReceivedChar B env (l.ends s) ch = d'
  -- it is enough to know what the call does to the line
  have hdone : ∀ {out items' pre' evs}, SideOk B (n s) late (l.ends s.other).rxBufferSize d' →
      Advance B (l.ends s) d' (l.ends s.other).rxBufferSize (items s.other) out items' line pre'
        evs →
      ∃ pre' items', LinkInv B n late
        (Link.put { l with line := Function.update l.line s.other line } s d') pre' items' := by
    intro out items' pre' evs hside ha
    have hself : Function.update l.line s.other line s = l.line s :=
      Function.update_of_ne s.other_ne.symm ..
    have hput : (Link.put { l with line := Function.update l.line s.other line } s d').line s =
        Function.update l.line s.other line s ++ evs.flatMap Event.bytes :=
      Link.put_line_self ha.log
    have hrest : (Link.put { l with line := Function.update l.line s.other line } s d').line
        s.other = line := Link.put_line_other.trans (Function.update_self ..)
    rw [hself] at hput
    exact h.advance s Link.put_ends_self Link.put_ends_other hput hrest hside ha
  have hflight := h.flight_to s
  rw [hline] at hflight
  obtain ⟨item, rest, post, hitems, hbytes, rfl⟩ := hflight.next
  rw [hitems] at hflight hdone
  cases item with
  | frame data =>
      cases post with
      | nil =>
          obtain ⟨out, evs, hside, ha⟩ :=
            advance_last hdeferred hflight hbytes hlate (h.size s) (h.side s)
          rw [hd'] at hside ha
          exact hdone hside ha
      | cons ch' post =>
          obtain ⟨hcollect, evs, hevs, ha⟩ :=
            advance_inside hflight hbytes (List.cons_ne_nil _ _) hlate (h.size s)
          rw [hd'] at hcollect ha
          exact hdone (sideOk_quiet (h.side s) hcollect.store ha.log hevs) ha
  | byte ch' =>
      have hack : ch' = dartAck := hflight.plain _ List.mem_cons_self
      subst hack
      have hlen := congrArg List.length hbytes
      simp only [LineItem.bytes, List.length_append, List.length_cons, List.length_nil] at hlen
      obtain hpre : pre s.other = [] := List.eq_nil_of_length_eq_zero (by omega)
      obtain rfl : post = [] := List.eq_nil_of_length_eq_zero (by omega)
      rw [hpre] at hbytes hflight
      obtain rfl : ch = dartAck := (List.cons.inj hbytes).1
      obtain ⟨out, evs, hside, ha⟩ := advance_ack hdeferred hflight hlate (h.side s)
      rw [hd'] at hside ha
      exact hdone hside ha

/-- A step over a good line in which no allocation loses bits. -/
theorem step (h : LinkInv B n late l pre items) {act : LinkAct} (hvalid : act.Valid B)
    (horder : act.Orderly B late l) (hfits : act.Fits B l) (hstep : linkStep B l act = some l') :
    ∃ pre' items', LinkInv B n late l' pre' items' := by
  cases act with
  | send s env prio msg msgLen =>
      obtain ⟨hdeferred, hframe⟩ := horder
      cases hstep
      have hok : ∀ m : Msg, m.data = msg.read 0 msgLen →
          (LineItem.frame m.data).Fits B (l.ends s.other).rxBufferSize := by
        intro m hm
        have hlen : m.data.length = msgLen := by rw [hm, Mem.length_read]
        show m.data.length < _ ∧ B.frameBytes m.data.length ≤ _
        rw [hlen]
        exact ⟨hvalid.2, hframe⟩
      exact h.emits hdeferred hok (fun e hrep => tracks_send hrep hvalid.2 hfits fun _ hm => hm)
        (sends_send B env _ prio msg msgLen).toEmits
  | time s env =>
      obtain ⟨hdeferred, htimer⟩ := horder
      cases hstep
      have hok : ∀ m : Msg, False → (LineItem.frame m.data).Fits B (l.ends s.other).rxBufferSize :=
        fun _ h => h.elim
      exact h.emits hdeferred hok (fun e hrep => tracks_time hrep fun _ hexp => htimer hexp)
        (emits_time B env _)
  | deliver s env =>
      obtain ⟨hdeferred, hlate⟩ := horder
      unfold linkStep at hstep
      dsimp only at hstep
      split at hstep
      · cases hstep
      · rename_i ch line hline
        cases hstep
        exact h.deliver hline hdeferred hlate
  | drop s i => exact horder.elim
  | corrupt s i ch => exact horder.elim

end LinkInv

/-- **Accounting of a good line.** In every run over a good line in which no
allocation loses bits, frames and acknowledges are accounted for. -/
theorem link_accounting (B : Build) (n : Side → Nat) (late : Prop) :
    (goodLink B n late).Invariant fun l => ∃ pre items, LinkInv B n late l pre items := by
  apply TSys.Inductive.invariant
  constructor
  · intro l hinit
    refine ⟨fun _ => [], fun _ => [], ?_, ?_, ?_, ?_, ?_⟩
    · intro s
      obtain ⟨hrep, hlog⟩ := dartInit_rep (B := B) (hinit s).1
      refine ⟨Engine.init, hlog ▸ .refl _, hrep, fun m hm => ?_⟩
      rw [Engine.messages_init] at hm
      exact absurd hm List.not_mem_nil
    · intro s
      obtain ⟨⟨d₀, mpool, rxBuffer, rxBufferSize, -, hsize, -, heq⟩, -⟩ := hinit s
      rw [heq]
      exact hsize
    · intro s
      obtain ⟨⟨d₀, mpool, rxBuffer, rxBufferSize, -, -, -, heq⟩, -⟩ := hinit s.other
      rw [(hinit s).2]
      refine ⟨rxHolds_nil ?_, rfl, fun item hitem => absurd hitem List.not_mem_nil, ?_⟩
      · rw [heq]
        rfl
      · rintro item rest ⟨⟩
    · intro s
      obtain ⟨-, hlog⟩ := dartInit_rep (B := B) (hinit s).1
      obtain ⟨-, hlog'⟩ := dartInit_rep (B := B) (hinit s.other).1
      rw [hlog, hlog']
      rfl
    · intro s
      obtain ⟨-, hlog⟩ := dartInit_rep (B := B) (hinit s).1
      rw [hlog]
      exact Nat.zero_le _
  · rintro l act l' ⟨pre, items, hinv⟩ ⟨⟨horder, hfits⟩, hvalid, hstep⟩
    exact hinv.step hvalid horder hfits hstep

end EmbeddedMx
