import EmbeddedMx.Dart.Watch
import EmbeddedMx.Dart.Output

/-!
# The receive buffer

`dart_handle_received_char` stores the byte before it looks at anything, and reads
the length and checksum fields of what it has. The counter of received bytes stays
below the size of the buffer and below the length of the frame being received, so
all of this stays inside the buffer, and inside the part that has been received.
-/

namespace EmbeddedMx

open EmbeddedMx.Lib

/-! ## Accesses -/

/-- An access to the receive buffer. Reads come with `rx_buffer_bytes` at that time. -/
inductive RxAccess
  | write (idx : Nat)
  | read (idx received : Nat)
deriving DecidableEq, Repr

/-- The `n` indices from `idx` on are read. -/
def readField (idx n received : Nat) : List RxAccess :=
  (List.range n).map fun k => .read (idx + k) received

/-- The accesses of `dart_handle_received_char` itself: the store of the byte, the
reads of `dart_get_data_len` and those of `dart_get_crc_value`. -/
def dartRxAccesses (B : Build) (env : Env) (self : Dart) (ch : UInt8) : List RxAccess :=
  let self := dartRxTimeout env self
  let idx := self.rxBufferBytes
  let self := dartRxStore env self ch
  .write idx ::
    if self.rxBufferBytes = 1 then []
    else if self.rxBufferBytes < B.lenBytes then []
    else
      let dataLen := dartGetDataLen B self.rxBuffer
      let frameLen := B.frameBytes dataLen
      readField Build.lenIdx B.lenSize.bytes self.rxBufferBytes ++
        if frameLen > self.rxBufferSize then []
        else if self.rxBufferBytes < frameLen then []
        else readField (B.dataIdx + dataLen) B.crcSize.bytes self.rxBufferBytes

/-- Storing the byte changes the buffer at that index only. -/
theorem dartRxStore_rxBuffer (env : Env) (d : Dart) (ch : UInt8) :
    (dartRxStore env d ch).rxBuffer d.rxBufferBytes = ch ∧
      ∀ x, x ≠ d.rxBufferBytes → (dartRxStore env d ch).rxBuffer x = d.rxBuffer x := by
  have hsame := Mem.read_write_same d.rxBuffer d.rxBufferBytes [ch]
  refine ⟨?_, fun x hx => Mem.write_of_outside _ _ _ ?_⟩
  · show d.rxBuffer.write d.rxBufferBytes [ch] d.rxBufferBytes = ch
    simpa [Mem.read] using hsame
  · simp only [List.length_singleton]
    omega

/-- A field depends on the indices that are read for it. -/
theorem loadBe_congr {w : Width} {m m' : Mem} {a received : Nat}
    (h : ∀ x, .read x received ∈ readField a w.bytes received → m' x = m x) :
    loadBe w m' a = loadBe w m a := by
  have hread : ∀ k, k < w.bytes → m' (a + k) = m (a + k) := fun k hk =>
    h (a + k) (List.mem_map.mpr ⟨k, List.mem_range.mpr hk, rfl⟩)
  cases w with
  | one =>
      have h₀ := hread 0 (by decide)
      simp only [Nat.add_zero] at h₀
      simp only [loadBe, h₀]
  | two =>
      have h₀ := hread 0 (by decide)
      have h₁ := hread 1 (by decide)
      simp only [Nat.add_zero] at h₀
      simp only [loadBe, h₀, h₁]

/-- The access is inside a buffer of `size` bytes; a read is of a received byte. -/
def RxAccess.Within (size : Nat) : RxAccess → Prop
  | .write idx => idx < size
  | .read idx received => idx < received ∧ received ≤ size

theorem readField_within {idx n received size : Nat} (hend : idx + n ≤ received)
    (hsize : received ≤ size) : ∀ a ∈ readField idx n received, a.Within size := by
  intro a ha
  obtain ⟨k, hk, rfl⟩ := List.mem_map.mp ha
  have hlt := List.mem_range.mp hk
  exact ⟨by omega, hsize⟩

/-! ## The counter of received bytes -/

/-- There is room for the next byte, and the frame is not complete yet. -/
structure RxRoom (B : Build) (d : Dart) : Prop where
  size : d.rxBufferBytes < d.rxBufferSize
  frame : B.lenBytes ≤ d.rxBufferBytes →
    d.rxBufferBytes < B.frameBytes (dartGetDataLen B d.rxBuffer)

section Functions

variable {B : Build} {env : Env} {d d' : Dart}

theorem Emits.rxRoom (h : Emits d d') (hroom : RxRoom B d) : RxRoom B d' := by
  refine ⟨?_, ?_⟩
  · rw [h.rxBufferBytes, h.rxBufferSize]
    exact hroom.size
  · rw [h.rxBufferBytes, h.rxBuffer]
    exact hroom.frame

theorem one_lt_lenBytes (B : Build) : 1 < B.lenBytes := by
  unfold Build.lenBytes
  cases B.lenSize <;> simp [Width.bytes]

/-- With the buffer empty there is room. -/
theorem rxRoom_drop (d : Dart) (hsize : 0 < d.rxBufferSize) : RxRoom B (dartRxDrop d) := by
  refine ⟨hsize, fun h => ?_⟩
  have hlen := one_lt_lenBytes B
  have hzero : B.lenBytes ≤ 0 := h
  omega

/-- The byte timer only empties the buffer. -/
theorem dartRxTimeout_bytes (env : Env) (d : Dart) :
    (dartRxTimeout env d).rxBufferSize = d.rxBufferSize ∧
      (dartRxTimeout env d).rxBufferBytes ≤ d.rxBufferBytes := by
  unfold dartRxTimeout
  split
  · exact ⟨rfl, Nat.zero_le _⟩
  · exact ⟨rfl, Nat.le_refl _⟩

/-- After the store the counter is one more, without overflow. -/
theorem dartRxStore_bytes (env : Env) (hroom : RxRoom B d) (hsize : d.rxBufferSize < 2 ^ 16)
    (ch : UInt8) :
    (dartRxStore env (dartRxTimeout env d) ch).rxBufferSize = d.rxBufferSize ∧
      (dartRxStore env (dartRxTimeout env d) ch).rxBufferBytes =
        (dartRxTimeout env d).rxBufferBytes + 1 ∧
      (dartRxTimeout env d).rxBufferBytes < d.rxBufferSize := by
  obtain ⟨hsame, hle⟩ := dartRxTimeout_bytes env d
  have hlt := Nat.lt_of_le_of_lt hle hroom.size
  refine ⟨hsame, ?_, hlt⟩
  show u16 ((dartRxTimeout env d).rxBufferBytes + 1) = _
  exact Nat.mod_eq_of_lt (by omega)

theorem dartHandleFrame_buffer (env : Env) (d : Dart) (dataLen : Nat) :
    (dartHandleFrame B env d dataLen).rxBufferSize = d.rxBufferSize ∧
      ∀ x, (∀ m, env.received m x = m x) →
        (dartHandleFrame B env d dataLen).rxBuffer x = d.rxBuffer x := by
  unfold dartHandleFrame
  dsimp only
  split
  · exact ⟨rfl, fun x _ => rfl⟩
  · refine ⟨(sends_checkResponse B env _ _ _).rxBufferSize, fun x hx => ?_⟩
    exact (congrFun (sends_checkResponse B env _ _ _).rxBuffer x).trans (hx d.rxBuffer)

/-- Behind the store only the application writes to the buffer. -/
theorem dartHandleReceivedChar_buffer (env : Env) (d : Dart) (ch : UInt8) :
    (dartHandleReceivedChar B env d ch).rxBufferSize = d.rxBufferSize ∧
      ∀ x, (∀ m, env.received m x = m x) → (dartHandleReceivedChar B env d ch).rxBuffer x =
        (dartRxStore env (dartRxTimeout env d) ch).rxBuffer x := by
  have hstore : (dartRxStore env (dartRxTimeout env d) ch).rxBufferSize = d.rxBufferSize :=
    (dartRxTimeout_bytes env d).1
  unfold dartHandleReceivedChar
  generalize dartRxStore env (dartRxTimeout env d) ch = d₁ at hstore ⊢
  have hkeep : ∀ {d₂ : Dart}, d₂.rxBufferSize = d₁.rxBufferSize → d₂.rxBuffer = d₁.rxBuffer →
      d₂.rxBufferSize = d.rxBufferSize ∧
        ∀ x, (∀ m, env.received m x = m x) → d₂.rxBuffer x = d₁.rxBuffer x :=
    fun hsize hbuffer => ⟨hsize.trans hstore, fun x _ => congrFun hbuffer x⟩
  dsimp only
  split
  · split
    · split <;> exact hkeep rfl rfl
    · show (if d₁.wrk then dartHandleControl B env d₁ ch else d₁).rxBufferSize = _ ∧ ∀ x, _ →
        (if d₁.wrk then dartHandleControl B env d₁ ch else d₁).rxBuffer x = _
      split
      · rcases sends_control B env d₁ ch with ⟨heq, -⟩ | ⟨hsends, -⟩
        · rw [heq]
          exact hkeep rfl rfl
        · exact hkeep hsends.rxBufferSize hsends.rxBuffer
      · exact hkeep rfl rfl
  · split
    · exact hkeep rfl rfl
    · split
      · exact hkeep rfl rfl
      · split
        · exact hkeep rfl rfl
        · obtain ⟨hsize, hbuffer⟩ := dartHandleFrame_buffer (B := B) env d₁
            (dartGetDataLen B d₁.rxBuffer)
          exact ⟨hsize.trans hstore, hbuffer⟩

/-- A call changes the buffer only inside of it. -/
theorem rxBuffer_kept (hroom : RxRoom B d) (env : Env) (ch : UInt8) {x : Nat}
    (hx : d.rxBufferSize ≤ x) (happ : ∀ m, env.received m x = m x) :
    (dartHandleReceivedChar B env d ch).rxBuffer x = d.rxBuffer x := by
  obtain ⟨hsame, hle⟩ := dartRxTimeout_bytes env d
  have hlt := Nat.lt_of_le_of_lt hle hroom.size
  have hbuffer : (dartRxTimeout env d).rxBuffer = d.rxBuffer := by
    unfold dartRxTimeout
    split <;> rfl
  rw [(dartHandleReceivedChar_buffer env d ch).2 x happ,
    (dartRxStore_rxBuffer env _ ch).2 x (by omega), hbuffer]

/-- `dart_handle_received_char` keeps the room. -/
theorem rxRoom_received (hroom : RxRoom B d) (hlen : B.lenBytes ≤ d.rxBufferSize)
    (hsize : d.rxBufferSize < 2 ^ 16) (ch : UInt8) :
    RxRoom B (dartHandleReceivedChar B env d ch) := by
  obtain ⟨hsame, hnext, hlt⟩ := dartRxStore_bytes env hroom hsize ch
  have hone := one_lt_lenBytes B
  unfold dartHandleReceivedChar
  generalize dartRxStore env (dartRxTimeout env d) ch = d₁ at hsame hnext
  have hdrop : ∀ d₂ : Dart, d₂.rxBufferSize = d.rxBufferSize → RxRoom B (dartRxDrop d₂) :=
    fun d₂ h => rxRoom_drop d₂ (by omega)
  have hkeep : ∀ {d₂ : Dart}, d₂.rxBuffer = d₁.rxBuffer → d₂.rxBufferBytes = d₁.rxBufferBytes →
      d₂.rxBufferSize = d₁.rxBufferSize → d₁.rxBufferBytes < d.rxBufferSize →
      (B.lenBytes ≤ d₁.rxBufferBytes →
        d₁.rxBufferBytes < B.frameBytes (dartGetDataLen B d₁.rxBuffer)) →
      RxRoom B d₂ := by
    intro d₂ hbuffer hbytes hsize₂ hroom₁ hframe
    refine ⟨?_, ?_⟩
    · rw [hbytes, hsize₂, hsame]
      exact hroom₁
    · rw [hbytes, hbuffer]
      exact hframe
  dsimp only
  split
  · -- the first byte
    split
    · split
      · exact hkeep rfl rfl rfl (by omega) (by omega)
      · exact hkeep rfl rfl rfl (by omega) (by omega)
    · refine hdrop _ ?_
      split
      · rcases sends_control B env d₁ ch with ⟨heq, -⟩ | ⟨hsends, -⟩
        · rw [heq]
          exact hsame
        · exact hsends.rxBufferSize.trans hsame
      · exact hsame
  · split
    · exact hkeep rfl rfl rfl (by omega) (by omega)
    · split
      · exact hdrop _ hsame
      · split
        · rename_i hfits hmissing
          exact hkeep rfl rfl rfl (by omega) fun _ => hmissing
        · exact hdrop _ ((dartHandleFrame_buffer env d₁ _).1.trans hsame)

/-- The accesses of one call. -/
theorem accesses_within (hroom : RxRoom B d) (hsize : d.rxBufferSize < 2 ^ 16) (ch : UInt8) :
    ∀ a ∈ dartRxAccesses B env d ch, a.Within d.rxBufferSize := by
  obtain ⟨hsame, hnext, hlt⟩ := dartRxStore_bytes env hroom hsize ch
  unfold dartRxAccesses
  dsimp only
  generalize dartRxStore env (dartRxTimeout env d) ch = d₁ at hsame hnext ⊢
  have hreceived : d₁.rxBufferBytes ≤ d.rxBufferSize := by omega
  rw [hsame]
  intro a ha
  rcases List.mem_cons.mp ha with rfl | ha
  · exact hlt
  · split at ha
    · cases ha
    · split at ha
      · cases ha
      · rename_i hlenBytes
        have hknown : Build.lenIdx + B.lenSize.bytes ≤ d₁.rxBufferBytes := by
          simp only [Build.lenBytes, Build.lenIdx] at hlenBytes ⊢
          omega
        rcases List.mem_append.mp ha with ha | ha
        · exact readField_within hknown hreceived a ha
        · split at ha
          · cases ha
          · split at ha
            · cases ha
            · rename_i hcomplete
              refine readField_within ?_ hreceived a ha
              simp only [Build.frameBytes, Build.lenBytes, Build.dataIdx,
                  Build.lenIdx] at hcomplete ⊢
              omega

end Functions

/-- **The receive buffer is safe.** In every run of an endpoint whose buffer holds at
least a length field, `rx_buffer_bytes` is below the size of the buffer and below the
length of the frame, if that is known; the next byte, whatever it is, is written
inside the buffer, nothing behind the buffer changes unless the application writes
there, and length and checksum are read from received bytes. -/
theorem dart_rx_buffer_safe (B : Build) (n : Nat) : (dartSystem B n).Invariant fun d =>
    B.lenBytes ≤ d.rxBufferSize →
      RxRoom B d ∧ ∀ env ch, (∀ a ∈ dartRxAccesses B env d ch, a.Within d.rxBufferSize) ∧
        ∀ x, d.rxBufferSize ≤ x → (∀ m, env.received m x = m x) →
          (dartHandleReceivedChar B env d ch).rxBuffer x = d.rxBuffer x := by
  have hinv : (dartSystem B n).Invariant fun d =>
      d.rxBufferSize < 2 ^ 16 ∧ (B.lenBytes ≤ d.rxBufferSize → RxRoom B d) := by
    apply TSys.Inductive.invariant
    constructor
    · rintro d ⟨d₀, mpool, rxBuffer, rxBufferSize, -, hsize, -, rfl⟩
      refine ⟨hsize, fun hlen => ?_⟩
      have hone := one_lt_lenBytes B
      have hlen : B.lenBytes ≤ rxBufferSize := hlen
      exact ⟨show 0 < rxBufferSize by omega, fun h => absurd h (show ¬ B.lenBytes ≤ 0 by omega)⟩
    · rintro d ⟨env, call⟩ d' ⟨hsize, hroom⟩ ⟨-, rfl⟩
      have hemits : ∀ {d'}, Emits d d' →
          d'.rxBufferSize < 2 ^ 16 ∧ (B.lenBytes ≤ d'.rxBufferSize → RxRoom B d') := by
        intro d' h
        rw [h.rxBufferSize]
        exact ⟨hsize, fun hlen => h.rxRoom (hroom hlen)⟩
      cases call with
      | send prio msg msgLen => exact hemits (sends_send B env d prio msg msgLen).toEmits
      | time => exact hemits (emits_time B env d)
      | receive ch =>
          have hsame : (dartCall B env d (.receive ch)).rxBufferSize = d.rxBufferSize :=
            (dartHandleReceivedChar_buffer env d ch).1
          rw [hsame]
          exact ⟨hsize, fun hlen => rxRoom_received (hroom hlen) hlen hsize ch⟩
  intro d hd hlen
  obtain ⟨hsize, hroom⟩ := hinv d hd
  have hroom := hroom hlen
  exact ⟨hroom, fun env ch => ⟨accesses_within hroom hsize ch, fun x => rxBuffer_kept hroom env ch⟩⟩

/-- Behind the first byte of a frame for a buffer of two bytes. -/
theorem dart_rx_buffer_safe_sync :
    let B : Build := ⟨.one, .one, .one⟩
    let d := dartCall B (.plain 7 true) (dartFresh 512 2) (.receive dartSync)
    d.rxBufferBytes = 1 ∧ RxRoom B d := by
  intro B d
  have hreach : (dartSystem B 512).Reachable d :=
    dartSystem_call (.plain 7 true) (.receive dartSync)
      (dartFresh_reachable B (by decide : 512 < 2 ^ 16) (by decide : 2 < 2 ^ 16)) trivial
  have hlen : B.lenBytes ≤ d.rxBufferSize := by decide +kernel
  exact ⟨by decide +kernel, (dart_rx_buffer_safe B 512 d hreach hlen).1⟩

end EmbeddedMx
