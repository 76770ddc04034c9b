import Mathlib.Data.List.Induction
import Zapada.Usb.XhciRingDelivery

namespace Zapada.Usb.XhciRing

open Foundation Hal RingSystem List Option

variable {ring : XhciRing} {size calls : Nat}

def enqueuePhysicalAddress (ring : XhciRing) (buffer : DmaBuffer) : BitVec 64 :=
  buffer.physicalAddress + BitVec.ofInt 64 (ring.enqueueIndex * trbBytes)

/-- Whatever entry the next call is given, afterwards it is the block at the address. -/
def EntryAt (ring : XhciRing) (buffer : DmaBuffer) (address : BitVec 64) : Prop :=
  ∀ trb : Trb, ∃ after, (ring.enqueue trb.parameter trb.status trb.control).2.buffer = some after ∧
    trbAt after (address - buffer.physicalAddress).toNat =
      { trb with control := trb.control ||| ring.wrap.cycle }

def afterEnqueues (ring : XhciRing) (history : List Trb) : XhciRing :=
  history.foldl (fun ring trb => (ring.enqueue trb.parameter trb.status trb.control).2) ring

/-- The producer index after a number of calls. -/
def producerIndex (slots : Nat) : Nat → Nat
  | 0 => 0
  | calls + 1 => calls % slots + 1

/-- One call takes the index to the next block of the lap, or behind the first one. -/
theorem advance_enqueueIndex (many : 1 < size) (small : size < 2 ^ 31)
    (count : ring.trbCount = size) (index : ring.enqueueIndex = producerIndex (size - 1) calls) :
    ring.advance.enqueueIndex = producerIndex (size - 1) (calls + 1) := by
  have bound : int32 ((size : Int) - 1) = size - 1 := int32_of_range (by omega) (by omega)
  have below := Nat.mod_lt calls (show 0 < size - 1 by omega)
  have next : ring.wrap.enqueueIndex = (calls % (size - 1) : Nat) := by
    rw [wrap, count, bound]
    cases calls with
    | zero => rw [if_neg (by rw [index, producerIndex]; omega), index, producerIndex, Nat.zero_mod]
    | succ calls =>
      rw [producerIndex] at index
      by_cases last : calls % (size - 1) + 1 = size - 1
      · rw [if_pos (by omega), (succ_mod_last last).1]
        rfl
      · have lap := Nat.mod_lt calls (show 0 < size - 1 by omega)
        rw [if_neg (by omega), (succ_mod_inside (by omega)).1, index]
  rw [advance, next, int32_of_range (by omega) (by omega), producerIndex, Int.natCast_add,
    Int.natCast_one]

theorem afterEnqueues_spec (many : 1 < size) (small : size < 2 ^ 31) (count : ring.trbCount = size)
    (start : ring.enqueueIndex = 0) (history : List Trb) {buffer : DmaBuffer}
    (whole : ∀ buffer, ring.buffer = some buffer → buffer.size % 16 = 0)
    (allocated : (ring.afterEnqueues history).buffer = some buffer) :
    (ring.afterEnqueues history).trbCount = size ∧
      (ring.afterEnqueues history).enqueueIndex = producerIndex (size - 1) history.length ∧
      buffer.size % 16 = 0 := by
  induction history using List.reverseRecOn generalizing buffer with
  | nil => exact ⟨count, start, whole buffer allocated⟩
  | append_singleton history trb ih =>
    have last : ring.afterEnqueues (history ++ [trb]) =
        ((ring.afterEnqueues history).enqueue trb.parameter trb.status trb.control).2 :=
          foldl_append ..
    rw [last] at allocated ⊢
    cases before : (ring.afterEnqueues history).buffer with
    | none => simp [enqueue, before] at allocated
    | some old =>
      obtain ⟨same, index, aligned⟩ := ih before
      rw [enqueue_eq_writes _ _ before] at allocated ⊢
      cases allocated
      rw [length_append, (applyWrites_size old _).1]
      exact ⟨(wrap_trbCount _).trans same, advance_enqueueIndex many small same index, aligned⟩

theorem new_spec (frames : Nat → Option (BitVec 52)) {count : Int} (many : 1 < count) :
    (new frames count).trbCount = count ∧ (new frames count).enqueueIndex = 0 ∧
      ∀ buffer, (new frames count).buffer = some buffer → buffer.size % 16 = 0 := by
  cases fresh : DmaBuffer.allocate frames (int32 (count * trbBytes)) with
  | none => simp [new, fresh]
  | some first =>
    obtain ⟨frame, rfl⟩ := DmaBuffer.allocate_eq fresh
    refine ⟨by simp [new, fresh, many], by simp [new, fresh, many], fun buffer made => ?_⟩
    simp only [new, fresh, many, if_true, some.injEq] at made
    rw [← made, writeLinkTrb, (applyWrites_size _ _).1]
    simp only [dmaFrameSize]
    omega

theorem word_write32_missed (buffer : DmaBuffer) {offset : Int} (value : BitVec 32) {other : Nat}
    (aligned : offset % 4 = 0) (otherAligned : other % 4 = 0)
    (missed : (other : Int) ≠ offset ∨ buffer.size < other + 4) :
    (buffer.write32 offset value).word other = buffer.word other := by
  by_cases valid : validateDmaAccess buffer.size offset 4 4
  · simp only [validateDmaAccess] at valid
    split_ifs at valid with negative zero unaligned
    · contradiction
    · obtain ⟨place, rfl⟩ := Int.eq_ofNat_of_zero_le (Int.not_lt.mp negative)
      simp only [Int.toNat_natCast, Bool.not_eq_true', Bool.or_eq_false_iff,
        decide_eq_false_iff_not] at valid
      exact buffer.word_write32_other value (by omega) otherAligned (by omega)
  · rw [DmaBuffer.write32, DmaBuffer.write, if_neg valid]

/-- The stores of an entry miss the status word of a block elsewhere, or behind the buffer. -/
theorem status_missed (buffer : DmaBuffer) {offset : Int} {slot : Nat} (low : -(2 ^ 31) ≤ offset)
    (high : offset < 2 ^ 31) (aligned : offset % 16 = 0)
    (missed : (16 * slot : Int) ≠ offset ∨ buffer.size < 16 * slot + 12) (parameter : BitVec 64)
    (status control : BitVec 32) :
    (applyWrites buffer (trbWrites offset parameter status control)).word (16 * slot + 8) =
      buffer.word (16 * slot + 8) := by
  have plain : ∀ extra : Int, 0 ≤ extra → extra ≤ 12 → int32 (offset + extra) = offset + extra :=
    fun extra _ _ => int32_of_range (by omega) (by omega)
  simp only [applyWrites, trbWrites, foldl_cons, foldl_nil, plain 0 (by omega) (by omega),
    plain 4 (by omega) (by omega), plain 8 (by omega) (by omega), plain 12 (by omega) (by omega)]
  rw [word_write32_missed _ _ (by omega) (by omega) (by omega),
    word_write32_missed _ _ (by omega) (by omega) (by simp only [DmaBuffer.write32_size]; omega),
    word_write32_missed _ _ (by omega) (by omega) (by omega),
    word_write32_missed _ _ (by omega) (by omega) (by omega)]

theorem block_stored (buffer : DmaBuffer) (slot : Nat) (trb : Trb)
    (room : 16 * slot + 16 ≤ buffer.size) (small : 16 * slot + 12 < 2 ^ 31) :
    trbAt (applyWrites buffer (trbWrites (16 * slot : Nat) trb.parameter trb.status trb.control))
      (16 * slot) = trb := by
  rw [trbWrites_slot slot trb small, trbAt_slot, words_applyWrites]
  · simp [slotWrites, trbOf, high32_append_low32]
  · simp only [slotWrites, forall_mem_cons]
    exact ⟨by omega, by omega, by omega, by omega, by simp⟩

theorem enqueuePhysicalAddress_offset {ring : XhciRing} (buffer : DmaBuffer) {producer : Nat}
    (index : ring.enqueueIndex = producer) (small : producer < 2 ^ 31) :
    (ring.enqueuePhysicalAddress buffer - buffer.physicalAddress).toNat = 16 * producer := by
  rw [enqueuePhysicalAddress, index, BitVec.add_comm, BitVec.add_sub_cancel]
  rw [show (producer : Int) * trbBytes = (16 * producer : Nat) by simp [trbBytes, Int.mul_comm],
    BitVec.ofInt_natCast, BitVec.toNat_ofNat, Nat.mod_eq_of_lt (by omega)]

theorem storeOffset_bounds (index : Int) : -(2 ^ 31) ≤ int32 (index * trbBytes) ∧
    int32 (index * trbBytes) < 2 ^ 31 ∧ int32 (index * trbBytes) % 16 = 0 := by
  refine ⟨Int.le_bmod (by decide), Int.bmod_lt (by decide), ?_⟩
  have same := Int.bmod_emod (x := index * trbBytes) (m := 2 ^ 32)
  simp only [trbBytes, int32] at same ⊢
  omega

/-- The entry of a call is at the address that was read before it, unless the index is at the link
block, or so large that the offset of the stores overflows or is behind the buffer. -/
theorem enqueue_address_iff (frames : Nat → Option (BitVec 52)) (size : Nat) (large : 2 < size)
    (small : size < 2 ^ 31) (history : List Trb) (ring : XhciRing) (buffer : DmaBuffer)
    (reached : (new frames size).afterEnqueues history = ring)
    (allocated : ring.buffer = some buffer) :
    ring.EntryAt buffer (ring.enqueuePhysicalAddress buffer) ↔
      producerIndex (size - 1) history.length < size - 1 ∧
        producerIndex (size - 1) history.length < 2 ^ 27 ∧
        16 * producerIndex (size - 1) history.length + 16 ≤ buffer.size := by
  subst reached
  obtain ⟨count, start, whole⟩ := new_spec frames (show 1 < (size : Int) by omega)
  obtain ⟨count, index, aligned⟩ :=
    afterEnqueues_spec (by omega) small count start history whole allocated
  have bound : int32 ((size : Int) - 1) = size - 1 := int32_of_range (by omega) (by omega)
  have most : producerIndex (size - 1) history.length ≤ size - 1 := by
    cases history.length with
    | zero => exact Nat.zero_le _
    | succ calls => exact Nat.mod_lt calls (by omega)
  generalize producerIndex (size - 1) history.length = producer at index most
  generalize (new frames size).afterEnqueues history = ring at *
  have place := enqueuePhysicalAddress_offset buffer index (by omega)
  have written : ∀ trb : Trb, (ring.enqueue trb.parameter trb.status trb.control).2.buffer =
      some (applyWrites (applyWrites buffer
        (if int32 (ring.trbCount - 1) ≤ ring.enqueueIndex then ring.linkWrites buffer else []))
        (trbWrites (int32 (ring.wrap.enqueueIndex * trbBytes)) trb.parameter trb.status
          (trb.control ||| ring.wrap.cycle))) := by
    intro trb
    rw [enqueue_eq_writes ring trb allocated, enqueueWrites, applyWrites, foldl_append]
    rfl
  obtain ⟨low, high, blocks⟩ := storeOffset_bounds ring.wrap.enqueueIndex
  have next : ring.wrap.enqueueIndex = if producer = size - 1 then 0 else producer := by
    rw [wrap, count, bound, index]
    split_ifs <;> first | rfl | exact index | omega
  simp only [EntryAt, written, place, some.injEq, exists_eq_left']
  constructor
  · intro stored
    by_contra outside
    have missed : (16 * producer : Int) ≠ int32 (ring.wrap.enqueueIndex * trbBytes) ∨
        buffer.size < 16 * producer + 12 := by
      by_cases last : producer = size - 1
      · rw [next, if_pos last]
        exact .inl (by simp [int32]; omega)
      · by_cases fits : producer < 2 ^ 27
        · exact .inr (by omega)
        · exact .inl (by omega)
    rw [← (applyWrites_size buffer (if int32 (ring.trbCount - 1) ≤ ring.enqueueIndex then
      ring.linkWrites buffer else [])).1] at missed
    have same : ∀ status, _ = status := fun status =>
      (status_missed _ low high blocks missed 0 status (0 ||| ring.wrap.cycle)).symm.trans
        (congrArg Trb.status (stored ⟨0, status, 0⟩))
    exact absurd ((same 0).symm.trans (same 1)) (by decide)
  · rintro ⟨inside, short, room⟩ trb
    have offset : int32 (ring.wrap.enqueueIndex * trbBytes) = (16 * producer : Nat) := by
      rw [next, if_neg (by omega), trbBytes, int32_of_range (by omega) (by omega)]
      omega
    rw [offset]
    exact block_stored _ producer { trb with control := trb.control ||| ring.wrap.cycle }
      (by rw [(applyWrites_size buffer _).1]; exact room) (by omega)

/-- The ring of three blocks after some calls. -/
def threeBlocks (calls : Nat) : XhciRing :=
  (new (fun _ => some 1) 3).afterEnqueues (List.replicate calls ⟨0, 0, 0⟩)

theorem enqueue_address_first : ∃ buffer, (threeBlocks 0).buffer = some buffer ∧
    (threeBlocks 0).EntryAt buffer ((threeBlocks 0).enqueuePhysicalAddress buffer) := by
  have allocated := (some_get (show (threeBlocks 0).buffer.isSome by decide +kernel)).symm
  refine ⟨_, allocated, (enqueue_address_iff _ 3 (by decide) (by decide) [] _ _ rfl allocated).mpr
    ?_⟩
  decide +kernel

/-- Two calls take the ring to its link block; the next entry is put into the first block. -/
theorem enqueue_address_link : ∃ buffer after, (threeBlocks 2).buffer = some buffer ∧
    (threeBlocks 2).enqueuePhysicalAddress buffer = buffer.physicalAddress + 32 ∧
    ((threeBlocks 2).enqueue 7 0 0).2.buffer = some after ∧
    (trbAt after 0).parameter = 7 ∧ (trbAt after 32).type = trbLink ∧
    ¬ (threeBlocks 2).EntryAt buffer ((threeBlocks 2).enqueuePhysicalAddress buffer) := by
  have allocated := (some_get (show (threeBlocks 2).buffer.isSome by decide +kernel)).symm
  have stored := (some_get
    (show ((threeBlocks 2).enqueue 7 0 0).2.buffer.isSome by decide +kernel)).symm
  refine ⟨_, _, allocated, by decide +kernel, stored, by decide +kernel,
    by decide +kernel, fun entry => ?_⟩
  obtain ⟨after, same, block⟩ := entry ⟨7, 0, 0⟩
  rw [some.inj (same.symm.trans stored)] at block
  exact absurd (congrArg Trb.parameter block) (by decide +kernel)

end Zapada.Usb.XhciRing
