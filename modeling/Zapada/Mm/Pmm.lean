import Zapada.Foundation.ArrayFront
import Zapada.Mm.HeapSpec

/-! The physical frame allocator of `mm/pmm.c`: a stack of free frames in an array, filled
from a memory map or from one flat region. Addresses are 64-bit. -/

namespace Zapada.Mm

open Foundation List

def pmmFrameSize : Nat := 4096
def pmmMaxFreeFrames : Nat := 32768
def pmmMinUsableAddr : Nat := 0x00100000

/-- `mm_align_up_u64` and `mm_align_up_uintptr`; the alignment is a power of two. -/
def mmAlignUp (value alignment : Nat) : Nat := u64 (value + alignment - 1) &&& (2 ^ 64 - alignment)

structure Pmm where
  freeFrames : Nat → Nat
  freeFrameCount : Nat
  reservedUntil : Nat

structure Mb2MmapEntry where
  baseAddr : Nat
  length : Nat
  type : Nat

def mb2MemoryAvailable : Nat := 1

/-- A memory map tag, as the bytes from its first field on. -/
structure Mb2TagMmap where
  bytes : Memory

namespace Mb2TagMmap

def size (tag : Mb2TagMmap) : Nat := tag.bytes.load 4 4
def entrySize (tag : Mb2TagMmap) : Nat := tag.bytes.load 8 4
def entryCount (tag : Mb2TagMmap) : Nat := u32 (u64 (tag.size + 2 ^ 64 - 16) / tag.entrySize)

def entry (tag : Mb2TagMmap) (i : Nat) : Mb2MmapEntry where
  baseAddr := tag.bytes.load (16 + i * tag.entrySize) 8
  length := tag.bytes.load (16 + i * tag.entrySize + 8) 8
  type := tag.bytes.load (16 + i * tag.entrySize + 16) 4

def entries (tag : Mb2TagMmap) : List Mb2MmapEntry := (List.range tag.entryCount).map tag.entry

end Mb2TagMmap

namespace Pmm

def pmmReserveUntil (pmm : Pmm) (minAddr : Nat) : Pmm :=
  if pmm.reservedUntil < minAddr then { pmm with reservedUntil := minAddr } else pmm

/-- The first address that both initialisations may use. -/
def reservedEnd (kernelEnd reservedUntil : Nat) : Nat :=
  let reservedEnd := u64 (mmAlignUp kernelEnd pmmFrameSize + earlyHeapSize)
  if reservedEnd < reservedUntil then mmAlignUp reservedUntil pmmFrameSize else reservedEnd

def push (pmm : Pmm) (frame : Nat) : Pmm :=
  { pmm with
    freeFrames := Function.update pmm.freeFrames pmm.freeFrameCount frame
    freeFrameCount := pmm.freeFrameCount + 1 }

/-- The loop over the frames of a region, with `room` places left on the stack. -/
def registerFrames (regionEnd : Nat) : (room frame : Nat) → Pmm → Pmm
  | 0, _, pmm => pmm
  | room + 1, frame, pmm =>
    if u64 (frame + pmmFrameSize) ≤ regionEnd then
      registerFrames regionEnd room (u64 (frame + pmmFrameSize)) (pmm.push frame)
    else pmm

def registerRegion (pmm : Pmm) (regionStart regionEnd : Nat) : Pmm :=
  registerFrames regionEnd (pmmMaxFreeFrames - pmm.freeFrameCount) regionStart pmm

/-- Where the frames of a memory map entry start. -/
def regionStart (reservedEnd baseAddr : Nat) : Nat :=
  max (max (mmAlignUp baseAddr pmmFrameSize) pmmMinUsableAddr) reservedEnd

def registerEntry (reservedEnd : Nat) (pmm : Pmm) (entry : Mb2MmapEntry) : Pmm :=
  if entry.type = mb2MemoryAvailable then
    pmm.registerRegion (regionStart reservedEnd entry.baseAddr)
      (u64 (entry.baseAddr + entry.length))
  else pmm

def pmmInit (pmm : Pmm) (kernelEnd : Nat) (mmapTag : Option Mb2TagMmap) : Pmm :=
  let pmm := { pmm with freeFrameCount := 0 }
  match mmapTag with
  | none => pmm
  | some tag => tag.entries.foldl (registerEntry (reservedEnd kernelEnd pmm.reservedUntil)) pmm

/-- Where the frames of a flat region start. -/
def rangeStart (reservedEnd memBase : Nat) : Nat :=
  mmAlignUp (if memBase < reservedEnd then reservedEnd else memBase) pmmFrameSize

def pmmInitRange (pmm : Pmm) (kernelEnd memBase memSize : Nat) : Pmm :=
  let pmm := { pmm with freeFrameCount := 0 }
  if memSize = 0 then pmm
  else pmm.registerRegion (rangeStart (reservedEnd kernelEnd pmm.reservedUntil) memBase)
    (u64 (memBase + memSize))

/-- `pmm_alloc_frame`; 0 is the null pointer. -/
def pmmAllocFrame (pmm : Pmm) : Nat × Pmm :=
  if pmm.freeFrameCount = 0 then (0, pmm)
  else (pmm.freeFrames (pmm.freeFrameCount - 1),
    { pmm with freeFrameCount := pmm.freeFrameCount - 1 })

/-- The inner loop of `pmm_alloc_contiguous`. -/
def contiguousAt (pmm : Pmm) (count start : Nat) : Bool :=
  (List.range' 1 (count - 1)).all fun i =>
    pmm.freeFrames (start + i) = u64 (pmm.freeFrames start + i * pmmFrameSize)

def pmmAllocContiguous (pmm : Pmm) (count : Nat) : Nat × Pmm :=
  if count = 0 ∨ pmm.freeFrameCount < count then (0, pmm)
  else
    match (List.range (pmm.freeFrameCount - count + 1)).find? (pmm.contiguousAt count) with
    | none => (0, pmm)
    | some start =>
      let rest := pmm.freeFrameCount - (start + count)
      (pmm.freeFrames start, { pmm with
          freeFrames := shiftDown count rest (start + count) pmm.freeFrames
          freeFrameCount := pmm.freeFrameCount - count })

def pmmFreeFrame (pmm : Pmm) (frame : Nat) : Pmm :=
  if frame = 0 ∨ pmmMaxFreeFrames ≤ pmm.freeFrameCount then pmm else pmm.push frame

end Pmm

namespace Pmm

def frames (pmm : Pmm) : List Nat := front pmm.freeFrames pmm.freeFrameCount

@[simp] theorem length_frames (pmm : Pmm) : pmm.frames.length = pmm.freeFrameCount :=
  length_front _ _

theorem frames_push (pmm : Pmm) (frame : Nat) : (pmm.push frame).frames = pmm.frames ++ [frame] :=
  front_push _ _ _

theorem pmmInit_some (pmm : Pmm) (kernelEnd : Nat) (tag : Mb2TagMmap) :
    pmm.pmmInit kernelEnd (some tag) = tag.entries.foldl
      (registerEntry (reservedEnd kernelEnd pmm.reservedUntil))
        { pmm with freeFrameCount := 0 } := by
  rw [pmmInit]

/-- The frames that the loop over a region visits. -/
def framesFrom (regionEnd : Nat) : (room frame : Nat) → List Nat
  | 0, _ => []
  | room + 1, frame =>
    if u64 (frame + pmmFrameSize) ≤ regionEnd then
      frame :: framesFrom regionEnd room (u64 (frame + pmmFrameSize))
    else []

theorem frames_registerFrames (regionEnd room frame : Nat) (pmm : Pmm) :
    (registerFrames regionEnd room frame pmm).frames =
      pmm.frames ++ framesFrom regionEnd room frame := by
  induction room generalizing frame pmm with
  | zero => simp [registerFrames, framesFrom]
  | succ room ih =>
    unfold registerFrames framesFrom
    split
    · rw [ih, frames_push, append_assoc, singleton_append]
    · simp

end Pmm

theorem mmAlignUp_page (value : Nat) :
    mmAlignUp value pmmFrameSize = u64 (value + 4095) / 4096 * 4096 :=
  heapAlignUp_eq value 12 (by decide)

theorem mmAlignUp_of_lt (small : value + 4095 < 2 ^ 64) :
    mmAlignUp value pmmFrameSize = (value + 4095) / 4096 * 4096 := by
  rw [mmAlignUp_page, u64, Nat.mod_eq_of_lt small]

structure Region where
  base : Nat
  length : Nat

namespace Region

def last (region : Region) : Nat := region.base + region.length

def Holds (region : Region) (frame : Nat) : Prop :=
  region.base ≤ frame ∧ frame + pmmFrameSize ≤ region.last

def Apart (one two : Region) : Prop := one.last ≤ two.base ∨ two.last ≤ one.base

/-- The loop over the region's frames never steps over the end of the address space,
where the next address wraps to 0: the region ends before the last frame and starts before
the one in front of it, or it is the end of the address space with a whole frame. -/
def Clear (region : Region) : Prop :=
  (region.last + pmmFrameSize < 2 ^ 64 ∧ region.base + 2 * pmmFrameSize ≤ 2 ^ 64) ∨
    (region.last = 2 ^ 64 ∧ region.base + pmmFrameSize ≤ 2 ^ 64)

end Region

namespace Pmm

structure Visits (region : Region) (start : Nat) (visited : List Nat) : Prop where
  low : ∀ frame ∈ visited, start ≤ frame
  inside : ∀ frame ∈ visited, frame + pmmFrameSize ≤ region.last
  aligned : ∀ frame ∈ visited, frame % pmmFrameSize = 0
  ordered : visited.Pairwise (· < ·)

private theorem framesFrom_below (ends : region.last + pmmFrameSize < 2 ^ 64)
    (room : Nat) (aligned : start % pmmFrameSize = 0) (small : start + pmmFrameSize < 2 ^ 64) :
    Visits region start (framesFrom region.last room start) := by
  induction room generalizing start with
  | zero => constructor <;> simp [framesFrom]
  | succ room ih =>
    simp only [pmmFrameSize] at ends aligned small
    have next : u64 (start + pmmFrameSize) = start + 4096 := Nat.mod_eq_of_lt small
    unfold framesFrom
    rw [next]
    split
    · rename_i fits
      have rest : Visits region (start + 4096) (framesFrom region.last room (start + 4096)) := by
        apply ih
        · simp only [pmmFrameSize]
          omega
        · simp only [pmmFrameSize]
          omega
      constructor
      case low =>
        intro frame member
        rcases mem_cons.mp member with rfl | member
        · exact Nat.le_refl _
        · exact Nat.le_of_add_right_le (rest.low frame member)
      case inside =>
        intro frame member
        rcases mem_cons.mp member with rfl | member
        · exact fits
        · exact rest.inside frame member
      case aligned =>
        intro frame member
        rcases mem_cons.mp member with rfl | member
        · exact aligned
        · exact rest.aligned frame member
      case ordered =>
        refine pairwise_cons.mpr ⟨?_, rest.ordered⟩
        intro frame member
        have low := rest.low frame member
        omega
    · constructor <;> simp

private theorem framesFrom_top (ends : region.last = 2 ^ 64) (room : Nat)
    (aligned : start % pmmFrameSize = 0) (small : start + pmmFrameSize ≤ 2 ^ 64) :
    Visits region start (framesFrom 0 room start) := by
  cases room with
  | zero => constructor <;> simp [framesFrom]
  | succ room =>
    have one : framesFrom 0 room (u64 (start + pmmFrameSize)) = [] ∨
      ¬ u64 (start + pmmFrameSize) ≤ 0 := by
      by_cases wraps : u64 (start + pmmFrameSize) ≤ 0
      · left
        rw [Nat.le_zero.mp wraps]
        cases room <;> rfl
      · exact .inr wraps
    unfold framesFrom
    split
    · rename_i wraps
      rw [one.resolve_right (not_not.mpr wraps)]
      constructor
      · simp
      · simp only [mem_singleton, forall_eq]
        omega
      · simpa using aligned
      · simp
    · constructor <;> simp

theorem framesFrom_visits (clear : region.Clear) (room : Nat) (aligned : start % pmmFrameSize = 0)
    (small : start + pmmFrameSize < 2 ^ 64 ∨ (region.last = 2 ^ 64 ∧
      start + pmmFrameSize ≤ 2 ^ 64)) :
    Visits region start (framesFrom (u64 region.last) room start) := by
  rcases clear with ⟨ends, -⟩ | ⟨ends, -⟩
  · have whole : u64 region.last = region.last := Nat.mod_eq_of_lt (by omega)
    rw [whole]
    exact framesFrom_below ends room aligned (small.resolve_right (by omega))
  · rw [ends]
    exact framesFrom_top ends room aligned (by omega)

end Pmm

end Zapada.Mm
