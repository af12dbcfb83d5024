import EmbeddedMx.Dart.Buffer
import EmbeddedMx.Dart.Decoder

/-!
# What the receiver takes for a frame

The receive buffer holds the beginning of a frame, or nothing (`RxPart`). What
`dart_handle_received_char` does with the next byte is one of five things (`RxTakes`).
Only one of them reports a message, and then the bytes in the buffer are, from the sync
byte to the checksum, the frame of that message: whatever is fed to the receiver, the
messages that it reports stand as whole frames in what was fed.
-/

namespace EmbeddedMx

open EmbeddedMx.Lib

/-! ## Frames in memory -/

section Frame

variable {B : Build} {m : Mem}

theorem toBe_loadBe (w : Width) (m : Mem) (a : Nat) : toBe w (loadBe w m a) = m.read a w.bytes := by
  cases w with
  | one => simp [toBe, loadBe, Width.bytes, Mem.read]
  | two =>
      have hlow := (m (a + 1)).toNat_lt
      have hdiv : (256 * (m a).toNat + (m (a + 1)).toNat) / 256 = (m a).toNat := by omega
      have hmod : (256 * (m a).toNat + (m (a + 1)).toNat) % 256 = (m (a + 1)).toNat := by omega
      simp only [toBe, loadBe, Width.bytes, Mem.read, hdiv, UInt8.ofNat_toNat, List.cons.injEq,
        and_true, true_and]
      apply UInt8.toNat_inj.mp
      rw [UInt8.toNat_ofNat', hmod]

/-- A sync byte, a length field and a checksum that belong together make a frame. -/
theorem frame_of_read (hsync : m 0 = dartSync)
    (hcrc : dartCalculateCrc B (m.read B.dataIdx (dartGetDataLen B m)) =
      dartGetCrcValue B m (dartGetDataLen B m)) :
    m.read 0 (B.frameBytes (dartGetDataLen B m)) =
      dartFrame B (m.read B.dataIdx (dartGetDataLen B m)) := by
  have hsplit : B.frameBytes (dartGetDataLen B m) =
      1 + B.lenSize.bytes + dartGetDataLen B m + B.crcSize.bytes := rfl
  have hfirst : m.read 0 1 = [dartSync] := by
    simp [Mem.read, hsync]
  rw [hsplit, Mem.read_add, Mem.read_add, Mem.read_add, hfirst]
  unfold dartFrame dartSetDataLen dartSetCrcValue
  rw [Mem.length_read, hcrc, dartGetCrcValue, toBe_loadBe]
  have hlen : toBe B.lenSize (dartGetDataLen B m) = m.read 1 B.lenSize.bytes :=
    toBe_loadBe B.lenSize m 1
  rw [hlen]
  simp [Build.dataIdx, Build.lenIdx]

end Frame

/-! ## One byte -/

/-- No message is reported between `d` and `d'`. -/
def ReportsNothing (d d' : Dart) : Prop :=
  ∃ evs, d'.log = d.log ++ evs ∧ ∀ param len, .callback .messageReceived param len ∉ evs

theorem ReportsNothing.of_log {d d' : Dart} (h : d'.log = d.log) : ReportsNothing d d' :=
  ⟨[], by rw [h, List.append_nil], fun _ _ => List.not_mem_nil⟩

theorem ReportsNothing.trans {d d' d'' : Dart} (h : ReportsNothing d d')
    (h' : ReportsNothing d' d'') : ReportsNothing d d'' := by
  obtain ⟨evs, hlog, hevs⟩ := h
  obtain ⟨evs', hlog', hevs'⟩ := h'
  refine ⟨evs ++ evs', by rw [hlog', hlog, List.append_assoc], ?_⟩
  intro param len hmem
  rcases List.mem_append.mp hmem with hmem | hmem
  · exact hevs param len hmem
  · exact hevs' param len hmem

theorem Emits.reportsNothing {d d' : Dart} (h : Emits d d') : ReportsNothing d d' := by
  obtain ⟨evs, hlog, hevs⟩ := h.log
  refine ⟨evs, hlog, fun param len hmem => ?_⟩
  have hev := hevs _ hmem
  cases hev

/-- The receive buffer holds the beginning `pre` of a frame: the first byte is the sync
byte, and once the length is known, the frame fits the buffer and is not complete. -/
structure RxPart (B : Build) (d : Dart) (pre : List UInt8) : Prop where
  holds : RxHolds d pre
  sync : ∀ ch rest, pre = ch :: rest → ch = dartSync
  missing : B.lenBytes ≤ pre.length →
    B.frameBytes (dartGetDataLen B d.rxBuffer) ≤ d.rxBufferSize ∧
      pre.length < B.frameBytes (dartGetDataLen B d.rxBuffer)

theorem rxPart_nil {B : Build} {d : Dart} (h : d.rxBufferBytes = 0) : RxPart B d [] where
  holds := rxHolds_nil h
  sync := by
    intro ch rest h
    cases h
  missing := by
    intro h
    have hlen := one_lt_lenBytes B
    rw [List.length_nil] at h
    omega

theorem Collects.refl (d : Dart) : Collects d d := ⟨.refl d, rfl, rfl, rfl, .inl ⟨rfl, rfl⟩⟩

/-- What becomes of the byte `ch` behind `pre`. The byte has been stored in `d₁`. -/
inductive RxTakes (B : Build) (env : Env) (d₁ : Dart) (pre : List UInt8) (ch : UInt8) :
    Dart → Prop
  /-- It is kept. -/
  | kept {d'} : RxPart B d' (pre ++ [ch]) → Collects d₁ d' → RxTakes B env d₁ pre ch d'
  /-- It stands outside of a frame. -/
  | single : pre = [] → ch ≠ dartSync → RxTakes B env d₁ pre ch
      (dartRxDrop (if d₁.wrk then dartHandleControl B env d₁ ch else d₁))
  /-- It completes the length of a frame that does not fit the buffer. -/
  | unsupported : B.lenBytes ≤ pre.length + 1 →
      d₁.rxBufferSize < B.frameBytes (dartGetDataLen B d₁.rxBuffer) →
      RxTakes B env d₁ pre ch (dartRxDrop (d₁.notify .transferCorrupted))
  /-- It completes a damaged frame. -/
  | damaged : pre.length + 1 = B.frameBytes (dartGetDataLen B d₁.rxBuffer) →
      RxTakes B env d₁ pre ch (dartRxDrop ((dartPushByte d₁ dartBad).notify .transferCorrupted))
  /-- It completes a frame. -/
  | frame {data} : pre ++ [ch] = dartFrame B data → B.frameBytes data.length ≤ d₁.rxBufferSize →
      dartGetDataLen B d₁.rxBuffer = data.length →
      d₁.rxBuffer.read B.dataIdx data.length = data →
      RxTakes B env d₁ pre ch
        (dartRxDrop (dartHandleReceivedMsg B env (dartPushByte d₁ dartAck) data.length))

section Byte

variable {B : Build} {env : Env} {d : Dart} {ch : UInt8} {pre : List UInt8}

/-- The counter of received bytes has room. -/
theorem RxPart.room (h : RxPart B d pre) (hsize : d.rxBufferSize < 2 ^ 16) :
    pre.length + 1 < 2 ^ 16 := by
  by_cases hlen : B.lenBytes ≤ pre.length
  · obtain ⟨hfits, hmissing⟩ := h.missing hlen
    omega
  · have hsmall : B.lenBytes ≤ 3 := by
      unfold Build.lenBytes
      cases B.lenSize <;> simp [Width.bytes]
    omega

/-- A complete length field is not changed by further bytes. -/
theorem dartGetDataLen_store (env : Env) (h : RxHolds d pre) (hlen : B.lenBytes ≤ pre.length)
    (ch : UInt8) :
    dartGetDataLen B (dartRxStore env d ch).rxBuffer = dartGetDataLen B d.rxBuffer := by
  refine @loadBe_congr _ _ _ _ d.rxBufferBytes ?_
  intro x hx
  refine (dartRxStore_rxBuffer env d ch).2 x ?_
  obtain ⟨k, hk, hidx⟩ := List.mem_map.mp hx
  have hk := List.mem_range.mp hk
  injection hidx with hidx
  have hcount := h.bytes
  simp only [Build.lenBytes, Build.lenIdx] at hlen hidx
  omega

theorem control_reportsNothing (B : Build) (env : Env) (d : Dart) (ch : UInt8) :
    ReportsNothing d (dartHandleControl B env d ch) ∧
      (dartHandleControl B env d ch).rxBufferSize = d.rxBufferSize := by
  rcases sends_control B env d ch with ⟨heq, -⟩ | ⟨hsends, -⟩
  · rw [heq]
    exact ⟨.of_log rfl, rfl⟩
  · refine ⟨ReportsNothing.trans ?_ hsends.toEmits.reportsNothing, hsends.rxBufferSize⟩
    exact ⟨[.control ch], rfl, by simp⟩

/-- The frame in the buffer is complete. -/
theorem complete_takes {d₁ : Dart} (hstore : RxHolds d₁ (pre ++ [ch]))
    (hsync : ∀ c rest, pre = c :: rest → c = dartSync) (hne : pre ≠ [])
    (hcomplete : pre.length + 1 = B.frameBytes (dartGetDataLen B d₁.rxBuffer))
    (hfits : B.frameBytes (dartGetDataLen B d₁.rxBuffer) ≤ d₁.rxBufferSize) :
    RxTakes B env d₁ pre ch
      (dartRxDrop (dartHandleFrame B env d₁ (dartGetDataLen B d₁.rxBuffer))) := by
  unfold dartHandleFrame
  dsimp only
  split
  · exact .damaged hcomplete
  · rename_i hcrc
    have hread : d₁.rxBuffer.read 0 (pre ++ [ch]).length = pre ++ [ch] := hstore.content
    have hfirst : d₁.rxBuffer 0 = dartSync := by
      obtain ⟨c, rest, heq⟩ := List.exists_cons_of_ne_nil hne
      have hzero : (d₁.rxBuffer.read 0 (pre ++ [ch]).length)[0]? = some c := by
        rw [hread, heq]
        rfl
      rw [Mem.getElem?_read, if_pos (by simp)] at hzero
      injection hzero with hzero
      exact hzero.trans (hsync c rest heq)
    have hframe := frame_of_read hfirst (not_not.mp hcrc)
    rw [List.length_append, List.length_singleton, hcomplete] at hread
    rw [hread] at hframe
    -- the number of data bytes is the length of the data
    generalize hdata : d₁.rxBuffer.read B.dataIdx (dartGetDataLen B d₁.rxBuffer) = data at hframe
    have hlen : dartGetDataLen B d₁.rxBuffer = data.length := by
      rw [← hdata, Mem.length_read]
    rw [hlen] at hdata hfits ⊢
    exact .frame hframe hfits hlen hdata

/-- A first byte is the sync byte of a frame, or stands outside of one. -/
theorem first_takes {d₁ : Dart} (hstore : RxHolds d₁ ([] ++ [ch])) :
    RxTakes B env d₁ [] ch
      (if ch = dartSync then
        let d₂ := { d₁ with rxByteTimer := timerStart env.clock timerMs dartByteTimerVal }
        if d₂.wrk then d₂ else d₂.setWrk true
      else dartRxDrop (if d₁.wrk then dartHandleControl B env d₁ ch else d₁)) := by
  have hone := one_lt_lenBytes B
  split
  · rename_i hsync
    have hpart : ∀ d' : Dart, RxHolds d' ([] ++ [ch]) → RxPart B d' ([] ++ [ch]) := by
      intro d' hholds
      refine ⟨hholds, ?_, fun hlen => ?_⟩
      · intro c rest heq
        injection heq with hc
        exact hc ▸ hsync
      · have hle : B.lenBytes ≤ 1 := hlen
        omega
    dsimp only
    split
    · exact .kept (hpart _ ⟨hstore.bytes, hstore.content⟩)
        ⟨⟨rfl, rfl, rfl, rfl⟩, rfl, rfl, rfl, .inl ⟨rfl, rfl⟩⟩
    · rename_i hwrk
      have hlow : d₁.wrk = false := Bool.eq_false_of_not_eq_true hwrk
      exact .kept (hpart _ ⟨hstore.bytes, hstore.content⟩)
        ⟨⟨rfl, rfl, rfl, rfl⟩, rfl, rfl, rfl, .inr ⟨rfl, hlow, rfl⟩⟩
  · rename_i hsync
    exact .single rfl hsync

/-- What `dart_handle_received_char` does with a byte that is in time. -/
theorem received_takes (h : RxPart B d pre) (hlate : ¬ RxLate env d)
    (hsize : d.rxBufferSize < 2 ^ 16)
    (ch : UInt8) :
    RxTakes B env (dartRxStore env d ch) pre ch (dartHandleReceivedChar B env d ch) := by
  have hstore := h.holds.store env ch (h.room hsize)
  have hcount : (dartRxStore env d ch).rxBufferBytes = pre.length + 1 := by
    rw [hstore.bytes, List.length_append]
    rfl
  have hone := one_lt_lenBytes B
  have hcrcPos : 0 < B.crcSize.bytes := by
    cases B.crcSize <;> simp [Width.bytes]
  have hmissing : B.lenBytes ≤ pre.length →
      pre.length < B.frameBytes (dartGetDataLen B (dartRxStore env d ch).rxBuffer) := by
    intro hlen
    rw [dartGetDataLen_store env h.holds hlen]
    exact (h.missing hlen).2
  have hfront : ∀ c rest, pre ++ [ch] = c :: rest → pre ≠ [] → c = dartSync := by
    intro c rest heq hne
    obtain ⟨c', rest', rfl⟩ := List.exists_cons_of_ne_nil hne
    injection heq with hc
    exact hc ▸ h.sync c' rest' rfl
  unfold dartHandleReceivedChar
  rw [dartRxTimeout_eq hlate]
  generalize dartRxStore env d ch = d₁ at hstore hcount hmissing ⊢
  dsimp only
  split
  · have hnil : pre = [] := List.eq_nil_of_length_eq_zero (by omega)
    subst hnil
    exact first_takes hstore
  · have hne : pre ≠ [] := by
      rintro rfl
      exact absurd hcount ‹_›
    split
    · -- the length is not complete
      refine .kept ⟨hstore, fun c rest heq => hfront c rest heq hne, fun hlen => ?_⟩ (.refl d₁)
      rw [← hstore.bytes] at hlen
      omega
    · split
      · exact .unsupported (by omega) ‹_›
      · split
        · -- bytes of the frame are missing
          refine .kept ⟨hstore, fun c rest heq => hfront c rest heq hne, fun _ => ?_⟩ (.refl d₁)
          rw [← hstore.bytes]
          omega
        · -- the frame is complete
          have hcomplete : pre.length + 1 = B.frameBytes (dartGetDataLen B d₁.rxBuffer) := by
            by_cases hlen : B.lenBytes ≤ pre.length
            · have hlt := hmissing hlen
              omega
            · have hlong : B.lenBytes + B.crcSize.bytes ≤
                  B.frameBytes (dartGetDataLen B d₁.rxBuffer) := by
                unfold Build.frameBytes
                omega
              omega
          exact complete_takes hstore h.sync hne hcomplete (by omega)

/-! ## Every state -/

theorem Emits.rxPart {d' : Dart} (h : Emits d d') (hpart : RxPart B d pre) : RxPart B d' pre where
  holds := by
    refine ⟨h.rxBufferBytes.trans hpart.holds.bytes, ?_⟩
    rw [h.rxBuffer]
    exact hpart.holds.content
  sync := hpart.sync
  missing := by
    rw [h.rxBuffer, h.rxBufferSize]
    exact hpart.missing

/-- Behind a byte the buffer holds the beginning of a frame again. -/
theorem RxTakes.part {d₁ d' : Dart} (h : RxTakes B env d₁ pre ch d') :
    (RxPart B d' (pre ++ [ch]) ∨ RxPart B d' []) ∧ d'.rxBufferSize = d₁.rxBufferSize := by
  cases h with
  | kept hpart hcollects => exact ⟨.inl hpart, hcollects.rxBufferSize⟩
  | single _ _ =>
      refine ⟨.inr (rxPart_nil rfl), ?_⟩
      show (if d₁.wrk then dartHandleControl B env d₁ ch else d₁).rxBufferSize = _
      split
      · exact (control_reportsNothing B env d₁ ch).2
      · rfl
  | unsupported _ _ => exact ⟨.inr (rxPart_nil rfl), rfl⟩
  | damaged _ => exact ⟨.inr (rxPart_nil rfl), rfl⟩
  | frame _ _ _ _ =>
      refine ⟨.inr (rxPart_nil rfl), ?_⟩
      exact (sends_checkResponse B env _ _ _).rxBufferSize

/-- Only a complete frame is reported. -/
theorem RxTakes.reports {d₁ d' : Dart} (h : RxTakes B env d₁ pre ch d') :
    ReportsNothing d₁ d' ∨ ∃ data, pre ++ [ch] = dartFrame B data ∧
      B.frameBytes data.length ≤ d₁.rxBufferSize ∧
      d₁.rxBuffer.read B.dataIdx data.length = data ∧
      d' = dartRxDrop (dartHandleReceivedMsg B env (dartPushByte d₁ dartAck) data.length) := by
  cases h with
  | kept _ hcollects =>
      rcases hcollects.log with ⟨hlog, -⟩ | ⟨hlog, -, -⟩
      · exact .inl (.of_log hlog)
      · exact .inl ⟨_, hlog, by simp⟩
  | single _ _ =>
      left
      show ReportsNothing d₁ (if d₁.wrk then dartHandleControl B env d₁ ch else d₁)
      split
      · exact (control_reportsNothing B env d₁ ch).1
      · exact .of_log rfl
  | unsupported _ _ => exact .inl ⟨[_], rfl, by simp⟩
  | damaged _ => exact .inl ⟨[_, _], (List.append_assoc _ _ _).trans rfl, by simp⟩
  | frame hframe hfits _ hdata => exact .inr ⟨_, hframe, hfits, hdata, rfl⟩

/-- Behind the check the byte timer has not expired. -/
theorem not_late_timeout (env : Env) (d : Dart) : ¬ RxLate env (dartRxTimeout env d) := by
  by_cases hlate : RxLate env d
  · have hexpired : (timerRunning d.rxByteTimer && timerExpired d.rxByteTimer env.clock) =
        true := by
      rw [Bool.and_eq_true]
      exact hlate
    unfold dartRxTimeout
    rw [if_pos hexpired]
    rintro ⟨hon, -⟩
    cases hon
  · rw [dartRxTimeout_eq hlate]
    exact hlate

/-- The call goes on as if the byte timer had been checked before. -/
theorem received_timeout (B : Build) (env : Env) (d : Dart) (ch : UInt8) :
    dartHandleReceivedChar B env (dartRxTimeout env d) ch = dartHandleReceivedChar B env d ch := by
  unfold dartHandleReceivedChar
  rw [dartRxTimeout_eq (not_late_timeout env d)]

/-- The byte timer may empty the buffer before the byte is looked at. -/
theorem RxPart.timeout (h : RxPart B d pre) (env : Env) :
    ∃ pre', RxPart B (dartRxTimeout env d) pre' := by
  unfold dartRxTimeout
  split
  · exact ⟨[], rxPart_nil rfl⟩
  · exact ⟨pre, h⟩

/-- What `dart_handle_received_char` does with a byte. -/
theorem received_takes_timeout (h : RxPart B d pre) (hsize : d.rxBufferSize < 2 ^ 16) (env : Env)
    (ch : UInt8) :
    ∃ pre', RxPart B (dartRxTimeout env d) pre' ∧
      RxTakes B env (dartRxStore env (dartRxTimeout env d) ch) pre' ch
        (dartHandleReceivedChar B env d ch) := by
  obtain ⟨pre', hpart⟩ := h.timeout env
  refine ⟨pre', hpart, ?_⟩
  rw [← received_timeout]
  refine received_takes hpart (not_late_timeout env d) ?_ ch
  rw [(dartRxTimeout_bytes env d).1]
  exact hsize

/-! ## Reported messages -/

/-- With the byte `ch` the frame of the message `data` is complete in the receive buffer. -/
def CompletesFrame (B : Build) (env : Env) (d : Dart) (ch : UInt8) (data : List UInt8) : Prop :=
  (dartRxTimeout env d).rxBuffer.read 0
  (dartRxTimeout env d).rxBufferBytes ++ [ch] = dartFrame B data ∧
    B.frameBytes data.length ≤ d.rxBufferSize

instance (B : Build) (env : Env) (d : Dart) (ch : UInt8) (data : List UInt8) :
    Decidable (CompletesFrame B env d ch data) := inferInstanceAs (Decidable (_ ∧ _))

/-- There is one message that the byte can complete. -/
theorem forall_completes {B : Build} {env : Env} {d : Dart} {ch : UInt8}
    {Q : List UInt8 → Prop} {data₀ : List UInt8}
    (hdata₀ : data₀ = frameData B ((dartRxTimeout env d).rxBuffer.read 0
      (dartRxTimeout env d).rxBufferBytes ++ [ch])) :
    (∀ data, CompletesFrame B env d ch data → Q data) ↔
      (CompletesFrame B env d ch data₀ → Q data₀) := by
  constructor
  · exact fun h => h data₀
  · intro h data hcompletes
    obtain rfl : data₀ = data := by rw [hdata₀, hcompletes.1, frameData_dartFrame]
    exact h hcompletes

/-- The events of a complete frame. -/
theorem frame_events (B : Build) (env : Env) (d : Dart) (len : Nat) :
    ∃ evs, (dartRxDrop (dartHandleReceivedMsg B env (dartPushByte d dartAck) len)).log =
        d.log ++ ([.uart [dartAck], .callback .messageReceived
          (.rx (d.rxBuffer.load B.dataIdx B.msgtypeSize.bytes) (d.rxBuffer.read B.dataIdx len)) len] ++
          evs) ∧
      ∀ ev ∈ evs, ev.ofReceiver = false := by
  unfold dartHandleReceivedMsg
  obtain ⟨evs, hlog, hevs⟩ := (sends_checkResponse B env
    { (dartPushByte d dartAck).callback .messageReceived
        (.rx (d.rxBuffer.load B.dataIdx B.msgtypeSize.bytes) (d.rxBuffer.read B.dataIdx len)) len with
      rxBuffer := env.received d.rxBuffer }
    (d.rxBuffer.load B.dataIdx B.msgtypeSize.bytes) len).log
  refine ⟨evs, hlog.trans ?_, hevs⟩
  show (d.log ++ [_]) ++ [_] ++ evs = _
  simp only [List.append_assoc, List.cons_append, List.nil_append]

theorem rxStore_reportsNothing (env : Env) (d : Dart) (ch : UInt8) :
    ReportsNothing d (dartRxStore env (dartRxTimeout env d) ch) := by
  show ∃ evs, (dartRxTimeout env d).log = d.log ++ evs ∧ _
  unfold dartRxTimeout
  split
  · exact ⟨[_], rfl, by simp⟩
  · exact ⟨[], (List.append_nil _).symm, fun _ _ => List.not_mem_nil⟩

/-- The log grows. -/
theorem received_log (h : RxPart B d pre) (hsize : d.rxBufferSize < 2 ^ 16) (env : Env)
    (ch : UInt8) :
    ∃ evs, (dartHandleReceivedChar B env d ch).log = d.log ++ evs := by
  obtain ⟨pre', -, htakes⟩ := received_takes_timeout h hsize env ch
  obtain ⟨evs, hlog, -⟩ := rxStore_reportsNothing env d ch
  rcases htakes.reports with ⟨evs', hlog', -⟩ | ⟨data, -, -, -, hresult⟩
  · exact ⟨evs ++ evs', by rw [hlog', hlog, List.append_assoc]⟩
  · obtain ⟨evs', hlog', -⟩ :=
      frame_events B env (dartRxStore env (dartRxTimeout env d) ch) data.length
    rw [hresult, hlog', hlog, List.append_assoc]
    exact ⟨_, rfl⟩

/-- A reported message is the one whose frame is complete with the byte. -/
theorem received_reports (h : RxPart B d pre) (hsize : d.rxBufferSize < 2 ^ 16) {evs : List Event}
    (hlog : (dartHandleReceivedChar B env d ch).log = d.log ++ evs) {param : Param} {len : Nat}
    (hmem : .callback .messageReceived param len ∈ evs) :
    ∃ data, CompletesFrame B env d ch data ∧
      (dartRxStore env (dartRxTimeout env d) ch).rxBuffer.read B.dataIdx data.length = data ∧
      param = .rx ((dartRxStore env (dartRxTimeout env d) ch).rxBuffer.load B.dataIdx
        B.msgtypeSize.bytes) data ∧
      len = data.length ∧
      dartHandleReceivedChar B env d ch = dartRxDrop (dartHandleReceivedMsg B env
        (dartPushByte (dartRxStore env (dartRxTimeout env d) ch) dartAck) data.length) := by
  obtain ⟨pre', hpart, htakes⟩ := received_takes_timeout h hsize env ch
  have hstored := rxStore_reportsNothing env d ch
  have hsame : (dartRxStore env (dartRxTimeout env d) ch).rxBufferSize = d.rxBufferSize :=
    (dartRxTimeout_bytes env d).1
  have hread : (dartRxTimeout env d).rxBuffer.read 0
      (dartRxTimeout env d).rxBufferBytes = pre' := by
    rw [hpart.holds.bytes]
    exact hpart.holds.content
  rcases htakes.reports with hnothing | ⟨data, hframe, hfits, hdata, hresult⟩
  · obtain ⟨evs', hlog', hevs'⟩ := hstored.trans hnothing
    rw [List.append_cancel_left (hlog.symm.trans hlog')] at hmem
    exact absurd hmem (hevs' param len)
  · rw [← hread] at hframe
    rw [hsame] at hfits
    obtain ⟨evs₁, hlog₁, hevs₁⟩ := hstored
    obtain ⟨evs₂, hlog₂, hevs₂⟩ := frame_events B env (dartRxStore env (dartRxTimeout env d) ch)
      data.length
    rw [hdata] at hlog₂
    rw [hresult, hlog₂, hlog₁, List.append_assoc] at hlog
    rw [← List.append_cancel_left hlog] at hmem
    refine ⟨data, ⟨hframe, hfits⟩, hdata, ?_⟩
    rcases List.mem_append.mp hmem with hmem | hmem
    · exact absurd hmem (hevs₁ param len)
    · rcases List.mem_append.mp hmem with hmem | hmem
      · simp only [List.mem_cons, List.not_mem_nil, or_false, reduceCtorEq, false_or] at hmem
        injection hmem with _ hparam hlen
        exact ⟨hparam, hlen, hresult⟩
      · exact absurd (hevs₂ _ hmem) (by simp [Event.ofReceiver])

/-- A complete frame is reported. -/
theorem completes_reports {data : List UInt8} (h : RxPart B d pre) (hsize : d.rxBufferSize < 2 ^ 16)
    (hcompletes : CompletesFrame B env d ch data) (hlen : data.length < 256 ^ B.lenSize.bytes) :
    ∃ evs type, (dartHandleReceivedChar B env d ch).log = d.log ++ evs ∧
      .callback .messageReceived (.rx type data) data.length ∈ evs := by
  obtain ⟨hframe, hfits⟩ := hcompletes
  have hsame := (dartRxTimeout_bytes env d).1
  obtain ⟨pre', hpart⟩ := h.timeout env
  rw [hpart.holds.bytes, hpart.holds.content] at hframe
  obtain ⟨heq, hdata⟩ := received_last hpart.holds (not_late_timeout env d) hframe
    ⟨hlen, by rw [hsame]; exact hfits⟩ (by rw [hsame]; exact hsize)
  obtain ⟨evs₁, hlog₁, -⟩ := rxStore_reportsNothing env d ch
  obtain ⟨evs₂, hlog₂, -⟩ :=
    frame_events B env (dartRxStore env (dartRxTimeout env d) ch) data.length
  rw [hdata, hlog₁, List.append_assoc] at hlog₂
  rw [← received_timeout, heq]
  refine ⟨_, (dartRxStore env (dartRxTimeout env d) ch).rxBuffer.load B.dataIdx B.msgtypeSize.bytes,
    hlog₂, List.mem_append_right _ (List.mem_append_left _ ?_)⟩
  exact List.mem_cons_of_mem _ List.mem_cons_self

end Byte

/-- In every state of an endpoint the receive buffer holds the beginning of a frame. -/
theorem dartSystem_rxPart (B : Build) (n : Nat) : (dartSystem B n).Invariant fun d =>
    d.rxBufferSize < 2 ^ 16 ∧ ∃ pre, RxPart B d pre := by
  apply TSys.Inductive.invariant
  constructor
  · rintro d ⟨d₀, mpool, rxBuffer, rxBufferSize, -, hsize, -, rfl⟩
    exact ⟨hsize, [], rxPart_nil rfl⟩
  · rintro d ⟨env, call⟩ d' ⟨hsize, pre, hpart⟩ ⟨-, rfl⟩
    have hemits : ∀ {d'}, Emits d d' → d'.rxBufferSize < 2 ^ 16 ∧ ∃ pre, RxPart B d' pre := by
      intro d' h
      rw [h.rxBufferSize]
      exact ⟨hsize, pre, h.rxPart hpart⟩
    cases call with
    | send prio msg msgLen => exact hemits (sends_send B env d prio msg msgLen).toEmits
    | time => exact hemits (emits_time B env d)
    | receive ch =>
        obtain ⟨pre', -, htakes⟩ := received_takes_timeout hpart hsize env ch
        obtain ⟨hpart', hsame⟩ := htakes.part
        have hsize' : (dartHandleReceivedChar B env d ch).rxBufferSize < 2 ^ 16 := by
          rw [hsame]
          show (dartRxTimeout env d).rxBufferSize < 2 ^ 16
          rw [(dartRxTimeout_bytes env d).1]
          exact hsize
        rcases hpart' with hpart' | hpart'
        · exact ⟨hsize', _, hpart'⟩
        · exact ⟨hsize', _, hpart'⟩

end EmbeddedMx
