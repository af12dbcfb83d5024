import EmbeddedMx.Cba.Chain
import EmbeddedMx.Scheduler.Machine

/-!
# The size of a message on its way to the allocator

The length of a message passes `process_malloc` and `scheduler_malloc` as a `uint32_t`,
and `msg_ptr_malloc` adds the rest of the node to it and takes the sum for a `uint16_t`.
The copy goes by the original length: where the sum does not fit, it goes beyond what was
allocated.
-/

namespace EmbeddedMx

open EmbeddedMx.Lib

variable {σ : Type}

/-- The length that `cba_malloc` is given for a message of `size` bytes. -/
def mallocSize (w : Width) (size : Nat) : Nat :=
  u16 (sizeofMsgPtr - sizeofMsg w + size % 2 ^ 32)

/-- It is what `scheduler_malloc` passes on. -/
theorem schedulerMalloc_passes (w : Width) (s : Scheduler σ) (size : Nat) :
    ((schedulerMalloc w s size).2 = 0 ↔ (cbaMalloc s.heap (mallocSize w size)).2 = 0) ∧
      (schedulerMalloc w s size).1.heap.cba = (cbaMalloc s.heap (mallocSize w size)).1.cba := by
  unfold schedulerMalloc msgPtrMalloc mallocSize
  dsimp only
  generalize cbaMalloc s.heap (u16 (sizeofMsgPtr - sizeofMsg w + size % 2 ^ 32)) = r
  by_cases hnull : r.2 = 0
  · simp [hnull]
  · simp [hnull, offsetofMsg]

/-- `cba_malloc` returns `NULL` exactly if its space tests fail. -/
theorem cbaMalloc_null_iff (h : Heap) (len : Nat) :
    (cbaMalloc h len).2 = 0 ↔ cbaPlacement h len = .refuse := by
  rw [cbaMalloc_eq]
  cases cbaPlacement h len with
  | refuse => exact iff_of_true rfl rfl
  | atFree => exact iff_of_false (Nat.succ_ne_zero _) (by decide)
  | wrap => exact iff_of_false (Nat.succ_ne_zero _) (by decide)

/-- A send that is refused has no effect. -/
theorem sendMessage_null_iff (w : Width) (s : Scheduler σ) (self size : Nat)
    (fill : Mem → Nat → Mem) :
    sendMessage w s self size fill = (s, processErrNoMemory) ↔
      cbaPlacement s.heap (mallocSize w size) = .refuse := by
  rw [← cbaMalloc_null_iff]
  constructor
  · intro hnull
    refine (schedulerMalloc_passes w s size).1.mp ?_
    by_contra hne
    unfold sendMessage at hnull
    dsimp only at hnull
    rw [if_neg hne] at hnull
    have hstatus : processSuccess = processErrNoMemory := congrArg Prod.snd hnull
    exact absurd hstatus (by decide)
  · intro hnull
    have hmalloc : schedulerMalloc w s size = (s, 0) := by
      unfold schedulerMalloc msgPtrMalloc
      dsimp only
      rw [show u16 (sizeofMsgPtr - sizeofMsg w + size % 2 ^ 32) = mallocSize w size from rfl,
        cbaMalloc_refuse ((cbaMalloc_null_iff _ _).mp hnull), if_pos rfl, if_pos rfl]
    unfold sendMessage
    rw [hmalloc]
    rfl

/-- The call returns `PROCESS_ERR_NO_MEMORY` and changes nothing, or the length passed to
`cba_malloc` has room for the front of the node and the bytes that are copied. -/
def SendsWithin (w : Width) (s : Scheduler σ) (r : Scheduler σ × Int) (size copied : Nat) : Prop :=
  r = (s, processErrNoMemory) ∨ offsetofMsg + copied ≤ mallocSize w size

/-- The allocator has no room for the length it is given, or that length is right: the
message and the rest of its node fit `uint16_t`. -/
def SizeFits (w : Width) (s : Scheduler σ) (size : Nat) : Prop :=
  cbaPlacement s.heap (mallocSize w size) = .refuse ∨ sizeofMsgPtr - sizeofMsg w + size < 2 ^ 16

instance (w : Width) (s : Scheduler σ) (size : Nat) : Decidable (SizeFits w s size) :=
  inferInstanceAs (Decidable (_ ∨ _))

/-- The length passed on is right, or too small for the copy. -/
theorem mallocSize_room {w : Width} {size copied : Nat} (hsize : size < 2 ^ 32 + 3)
    (hcopied : copied ≤ size) (hrest : size ≤ copied + 2) :
    offsetofMsg + copied ≤ mallocSize w size ↔ sizeofMsgPtr - sizeofMsg w + size < 2 ^ 16 := by
  have hw : sizeofMsg w = 1 ∨ sizeofMsg w = 2 := by cases w <;> decide
  unfold mallocSize u16 offsetofMsg sizeofMsgPtr
  by_cases huint : size < 2 ^ 32
  · rw [Nat.mod_eq_of_lt huint]
    omega
  · have hmod : size % 2 ^ 32 = size - 2 ^ 32 := by omega
    rw [hmod]
    omega

theorem sendMessage_within (w : Width) (s : Scheduler σ) (self : Nat) {size copied : Nat}
    (fill : Mem → Nat → Mem) (hsize : size < 2 ^ 32 + 3) (hcopied : copied ≤ size)
    (hrest : size ≤ copied + 2) :
    SendsWithin w s (sendMessage w s self size fill) size copied ↔ SizeFits w s size := by
  unfold SendsWithin SizeFits
  rw [sendMessage_null_iff, mallocSize_room hsize hcopied hrest]

/-- **Sending stays within the allocation** exactly if the length of the message and the
rest of its node fit `uint16_t`, or the allocator has no room for what is left of it. -/
theorem send_within_allocation (w : Width) (s : Scheduler σ) (self type : Nat)
    (bytes : List UInt8) (hlen : bytes.length < 2 ^ 32) :
    (SendsWithin w s (processSendMsg w s self bytes) bytes.length bytes.length ↔
      SizeFits w s bytes.length) ∧
    (SendsWithin w s (processSendMsgData w s self type bytes) (sizeofMsg w + bytes.length)
        bytes.length ↔
      SizeFits w s (sizeofMsg w + bytes.length)) := by
  have hw : sizeofMsg w ≤ 2 := by cases w <;> decide
  constructor
  · exact sendMessage_within w s self _ (by omega) (Nat.le_refl _) (by omega)
  · exact sendMessage_within w s self _ (by omega) (Nat.le_add_left _ _) (by omega)

/-- A message of three bytes in a pool of 64 bytes. -/
theorem send_within_allocation_short :
    let s := schedulerInit (fun _ => 0) 16 64 ()
    SendsWithin .one s (processSendMsg .one s 16 [0x01, 0x02, 0x03]) 3 3 := by
  intro s
  exact (send_within_allocation .one s 16 0 [0x01, 0x02, 0x03] (by decide)).1.mpr
    (.inr (by decide))

/-- A message of 65536 bytes in a pool of 64 bytes: 31 bytes are allocated, and then the
whole message is copied. -/
theorem send_beyond_allocation :
    let s := schedulerInit (fun _ => 0) 16 64 ()
    let msg : List UInt8 := List.replicate 65536 0x01
    (∀ fw, (schedSystem .one fw 64).Reachable s) ∧ msg.length < 2 ^ 32 ∧
      mallocSize .one msg.length = 31 ∧
      ¬ SendsWithin .one s (processSendMsg .one s 16 msg) msg.length msg.length := by
  intro s msg
  have hlength : msg.length = 65536 := List.length_replicate
  have hsize : mallocSize .one 65536 = 31 := by decide
  refine ⟨fun fw => .init ⟨fun _ => 0, 16, (), by decide, by decide, rfl⟩, ?_, ?_, ?_⟩
  · rw [hlength]
    decide
  · rw [hlength]
    exact hsize
  · unfold SendsWithin processSendMsg
    rw [hlength, sendMessage_null_iff, hsize]
    decide

end EmbeddedMx
