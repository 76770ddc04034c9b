import Zapada.Storage.BlockDevice

/-! Physically contiguous buffers shared by a driver and its device. Every
access goes through the bounds and alignment check of the native layer; an
access that fails the check changes nothing. -/

namespace Zapada.Hal

open Foundation Storage

def dmaFrameSize : Nat := 4096

def driverHalStatusInvalid : Int := -1

structure DmaBuffer where
  size : Nat
  physicalAddress : BitVec 64
  bytes : Memory

/-- `validate_dma_access`: a non-negative, aligned offset with room for the
whole access. -/
def validateDmaAccess (size : Nat) (offset : Int) (width alignment : Nat) : Bool :=
  if offset < 0 then false
  else if width = 0 then true
  else if 1 < alignment ∧ offset.toNat % alignment ≠ 0 then false
  else !(size < offset.toNat || size - offset.toNat < width)

namespace DmaBuffer

/-- `AllocDmaBuffer` followed by the checks of `DmaBuffer.Allocate`. The
argument `frames` stands for the frame allocator and the handle table: the
number of the first of that many zeroed frames, if there are any. -/
def allocate (frames : Nat → Option (BitVec 52)) (size : Int) : Option DmaBuffer :=
  if size ≤ 0 then none
  else
    let frameCount := (size.toNat + dmaFrameSize - 1) / dmaFrameSize
    match frames frameCount with
    | none => none
    | some frame =>
      let actualSize := frameCount * dmaFrameSize
      let physicalAddress : BitVec 64 := frame ++ 0#12
      if int32 actualSize < size ∨ physicalAddress = 0 then none
      else some { size := actualSize, physicalAddress, bytes := fun _ => 0 }

def write (buffer : DmaBuffer) (width : Nat) (offset : Int) (value : Nat) : DmaBuffer :=
  if validateDmaAccess buffer.size offset width width then
    { buffer with bytes := buffer.bytes.store offset.toNat width value }
  else buffer

def write32 (buffer : DmaBuffer) (offset : Int) (value : BitVec 32) : DmaBuffer :=
  buffer.write 4 offset value.toNat

/-- `Read8`, `Read16` and `Read32`, by width. -/
def read (buffer : DmaBuffer) (width : Nat) (offset : Int) : Int :=
  if validateDmaAccess buffer.size offset width width then
    int32 (buffer.bytes.load offset.toNat width)
  else driverHalStatusInvalid

def validateCopy (buffer : DmaBuffer) (offset : Int) (array : Buffer)
    (arrayOffset count : Int) : Bool :=
  0 ≤ arrayOffset ∧ 0 ≤ count ∧ validateDmaAccess buffer.size offset count.toNat 1 ∧
    arrayOffset + count ≤ array.length

def copyFrom (buffer : DmaBuffer) (offset : Int) (source : Buffer) (sourceOffset count : Int) :
    Option DmaBuffer :=
  if buffer.validateCopy offset source sourceOffset count then
    let bytes := buffer.bytes.copy offset.toNat count.toNat source.bytes sourceOffset.toNat
    some { buffer with bytes }
  else none

def copyTo (buffer : DmaBuffer) (offset : Int) (destination : Buffer)
    (destinationOffset count : Int) :
    Option Buffer :=
  if buffer.validateCopy offset destination destinationOffset count then
    let bytes :=
      destination.bytes.copy destinationOffset.toNat count.toNat buffer.bytes offset.toNat
    some { destination with bytes }
  else none

/-- What the device or the driver finds in one 32-bit word of the buffer. -/
def word (buffer : DmaBuffer) (offset : Nat) : BitVec 32 :=
  BitVec.ofNat 32 (buffer.bytes.load offset 4)

theorem allocate_eq {size : Int} (allocated : allocate frames size = some buffer) : ∃ frame :
    BitVec 52, buffer =
    { size := (size.toNat + dmaFrameSize - 1) / dmaFrameSize * dmaFrameSize
      physicalAddress := frame ++ 0#12, bytes := fun _ => 0 } := by
  simp only [allocate] at allocated
  obtain ⟨-, allocated⟩ := Option.ite_none_left_eq_some.mp allocated
  split at allocated
  · contradiction
  · exact ⟨_, (Option.some.inj (Option.ite_none_left_eq_some.mp allocated).2).symm⟩

section

variable (buffer : DmaBuffer)

include buffer

@[simp] theorem write_size (width : Nat) (offset : Int) (value : Nat) :
    (buffer.write width offset value).size = buffer.size := by
  unfold write
  split <;> rfl

@[simp] theorem write_physicalAddress (width : Nat) (offset : Int)
    (value : Nat) : (buffer.write width offset value).physicalAddress = buffer.physicalAddress := by
  unfold write
  split <;> rfl

@[simp] theorem write32_size (offset : Int) (value : BitVec 32) :
    (buffer.write32 offset value).size = buffer.size := write_size ..

@[simp] theorem write32_physicalAddress (offset : Int) (value : BitVec 32) :
    (buffer.write32 offset value).physicalAddress = buffer.physicalAddress :=
  write_physicalAddress ..

end

theorem validate_aligned {size offset width : Nat} (positive : 0 < width)
    (aligned : offset % width = 0) (room : offset + width ≤ size) :
    validateDmaAccess size offset width width = true := by
  have inside : ¬ size < offset := by omega
  have wide : ¬ size - offset < width := by omega
  have nonzero : width ≠ 0 := by omega
  simp [validateDmaAccess, aligned, inside, wide, nonzero]

section

variable (buffer : DmaBuffer)

include buffer

theorem read_eq {offset width : Nat} (positive : 0 < width)
    (aligned : offset % width = 0) (room : offset + width ≤ buffer.size) :
    buffer.read width offset = int32 (buffer.bytes.load offset width) := by
  rw [read, if_pos (validate_aligned positive aligned room), Int.toNat_natCast]

theorem load_write_same {offset width value : Nat} (positive : 0 < width)
    (aligned : offset % width = 0) (room : offset + width ≤ buffer.size)
    (small : value < 256 ^ width) :
    (buffer.write width offset value).bytes.load offset width = value := by
  rw [write, if_pos (validate_aligned positive aligned room)]
  exact Memory.load_store_of_lt _ _ _ _ small

theorem load_write_other {offset width value other span : Nat}
    (disjoint : other + span ≤ offset ∨ offset + width ≤ other) :
    (buffer.write width offset value).bytes.load other span = buffer.bytes.load other span := by
  rw [write]
  split
  · exact Memory.load_store_disjoint _ _ _ _ _ _ (by omega)
  · rfl

theorem word_write32_same {offset : Nat} (value : BitVec 32) (aligned : offset % 4 = 0)
    (room : offset + 4 ≤ buffer.size) : (buffer.write32 offset value).word offset = value := by
  rw [word, write32, load_write_same _ (by decide) aligned room value.isLt, BitVec.ofNat_toNat,
    BitVec.setWidth_eq]

theorem word_write32_other {offset other : Nat} (value : BitVec 32) (aligned : offset % 4 = 0)
    (otherAligned : other % 4 = 0) (different : other ≠ offset) :
    (buffer.write32 offset value).word other = buffer.word other := by
  rw [word, write32, load_write_other _ (by omega), word]

end

end DmaBuffer

end Zapada.Hal
