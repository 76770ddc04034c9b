import Zapada.Mm.FrameRuns

/-! How the two boot paths divide memory between the kernel image, the initramfs, the
kernel heap and the free frames. -/

namespace Zapada.Mm

open Foundation List

def zaclrRootProviderHeapBytes : Nat := 32 * 1024 * 1024

/-- The image starts with the magic of an uncompressed archive. -/
def initramfsIsCpioNewc (image : Memory) (size : Nat) : Bool :=
  6 ≤ size ∧ image 0 = 0x30 ∧ image 1 = 0x37 ∧ image 2 = 0x30 ∧ image 3 = 0x37 ∧ image 4 = 0x30 ∧
    image 5 = 0x31

def initramfsExpectedSize (moduleStart : Nat) (image : Memory) (moduleSize : Nat) : Nat :=
  if moduleStart = 0 ∨ moduleSize < 18 then 0
  else
    let isize := image.load (moduleSize - 4) 4
    if image 0 = 0x1f ∧ image 1 = 0x8b ∧ isize ≠ 0 then isize
    else
      let isize := u32 (moduleSize * 2048)
      let isize := if isize < 64 * 1024 then 64 * 1024 else isize
      if 4 * 1024 * 1024 < isize then 4 * 1024 * 1024 else isize

def initramfsRequiredHeapBytes (memory : Memory) (moduleStart moduleSize : Nat) : Nat :=
  let image := fun i => memory (moduleStart + i)
  if moduleStart = 0 ∨ moduleSize = 0 then 0
  else if initramfsIsCpioNewc image moduleSize then 0
  else
    let expectedSize := initramfsExpectedSize moduleStart image moduleSize
    if expectedSize = 0 then 0
    else
      let requiredSize := u32 (expectedSize + 2 * 1024 * 1024)
      if requiredSize < expectedSize then expectedSize else requiredSize

/-- `boot_get_heap_reservation_bytes`, which the AArch64 path computes in place. -/
def bootGetHeapReservationBytes (memory : Memory) (initramfsStart initramfsSize : Nat) : Nat :=
  let required := earlyHeapSize + zaclrRootProviderHeapBytes
  let extra := initramfsRequiredHeapBytes memory initramfsStart initramfsSize
  if required < extra then extra else required

def bootGetHeapFloor (kernelEnd initramfsStart initramfsSize : Nat) : Nat :=
  let heapFloor := mmAlignUp kernelEnd 4096
  if initramfsSize ≠ 0 then
    let moduleEnd := mmAlignUp (u64 (initramfsStart + initramfsSize)) 4096
    if heapFloor < moduleEnd then moduleEnd else heapFloor
  else heapFloor

/-- The allocators' variables in the zeroed data of the kernel image. -/
def zeroedPmm : Pmm := { freeFrames := fun _ => 0, freeFrameCount := 0, reservedUntil := 0 }

def zeroedHeap (memory : Memory) : Heap :=
  { heapAllocStart := 0, heapCurrent := 0, heapEnd := 0, heapMinStart := 0,
    heapSize := earlyHeapSize, freeBytes :=
      0, freeBuckets := fun _ => 0, overflowList := 0, memory }

/-- A module tag: the first address and the one behind the last. -/
structure Mb2TagModule where
  modStart : Nat
  modEnd : Nat

def bootDiscoverInitramfs : Option Mb2TagModule → Nat × Nat
  | none => (0, 0)
  | some tag => (tag.modStart, u32 (tag.modEnd + 2 ^ 32 - tag.modStart))

def kernelMain (memory : Memory) (kernelEnd : Nat) (mmapTag : Option Mb2TagMmap)
    (moduleTag : Option Mb2TagModule) : Pmm × Heap :=
  let (start, size) := bootDiscoverInitramfs moduleTag
  let floor := bootGetHeapFloor kernelEnd start size
  let reservation := bootGetHeapReservationBytes memory start size
  let pmm := (zeroedPmm.pmmReserveUntil (u64 (floor + reservation))).pmmInit kernelEnd mmapTag
  let heap := kheapReserveUntil (kheapSetSize (zeroedHeap memory) reservation) floor
  (pmm, kheapInit heap kernelEnd)

/-- The memory set-up of `kernel_main_aarch64`. -/
def kernelMainAarch64 (memory : Memory) (kernelEnd memBase memSize initrdStart initrdEnd : Nat) :
    Pmm × Heap :=
  let reservation := bootGetHeapReservationBytes memory initrdStart
    (u32 (initrdEnd + 2 ^ 64 - initrdStart))
  let pmm := (zeroedPmm.pmmReserveUntil (u64 (kernelEnd + reservation))).pmmInitRange kernelEnd
    memBase memSize
  (pmm, kheapInit (kheapSetSize (zeroedHeap memory) reservation) kernelEnd)

/-- What the boot code meets: the kernel image, an initramfs above it, and the rest of memory. -/
structure BootInput where
  memory : Memory
  kernelStart : Nat
  kernelEnd : Nat
  initramfsStart : Nat
  initramfsSize : Nat
  nonempty : kernelStart < kernelEnd
  above : kernelEnd ≤ initramfsStart
  startSmall : initramfsStart < 2 ^ 32
  sizeSmall : initramfsSize < 2 ^ 32

namespace BootInput

def kernel (input : BootInput) : Region := ⟨input.kernelStart, input.kernelEnd - input.kernelStart⟩

def initramfs (input : BootInput) : Region := ⟨input.initramfsStart, input.initramfsSize⟩

def bootX86 (input : BootInput) (mmapTag : Option Mb2TagMmap) : Pmm × Heap :=
  kernelMain input.memory input.kernelEnd mmapTag
    (some ⟨input.initramfsStart, u32 (input.initramfsStart + input.initramfsSize)⟩)

def bootAarch64 (input : BootInput) (memBase memSize : Nat) : Pmm × Heap :=
  kernelMainAarch64 input.memory input.kernelEnd memBase memSize input.initramfsStart
    (input.initramfsStart + input.initramfsSize)

end BootInput

/-- The range of the heap after `kheap_init`. -/
def Heap.region (heap : Heap) : Region := ⟨heap.heapCurrent, heap.heapEnd - heap.heapCurrent⟩

/-- The kernel image, the initramfs, the heap and every free frame are pairwise disjoint. -/
structure MemoryOwned (input : BootInput) (booted : Pmm × Heap) : Prop where
  kernelInitramfs : input.kernel.Disjoint input.initramfs
  kernelHeap : input.kernel.Disjoint booted.2.region
  initramfsHeap : input.initramfs.Disjoint booted.2.region
  kernelFrames : ∀ frame ∈ booted.1.frames, input.kernel.Disjoint (frameRegion frame)
  initramfsFrames : ∀ frame ∈ booted.1.frames, input.initramfs.Disjoint (frameRegion frame)
  heapFrames : ∀ frame ∈ booted.1.frames, booted.2.region.Disjoint (frameRegion frame)
  frames : booted.1.frames.Pairwise fun one two => (frameRegion one).Disjoint (frameRegion two)

theorem initramfsExpectedSize_lt (moduleStart : Nat) (image : Memory) (moduleSize : Nat) :
    initramfsExpectedSize moduleStart image moduleSize < 2 ^ 32 := by
  have word : image.load (moduleSize - 4) 4 < 256 ^ 4 := Memory.load_lt _ _ _
  simp only [initramfsExpectedSize]
  split
  · decide
  split
  · omega
  · split <;> split <;> omega

theorem initramfsRequiredHeapBytes_lt (memory : Memory) (moduleStart moduleSize : Nat) :
    initramfsRequiredHeapBytes memory moduleStart moduleSize < 2 ^ 32 := by
  have expected :=
    initramfsExpectedSize_lt moduleStart (fun i => memory (moduleStart + i)) moduleSize
  simp only [initramfsRequiredHeapBytes]
  split
  · decide
  split
  · decide
  split
  · decide
  split
  · exact expected
  · exact Nat.mod_lt _ (by decide)

theorem reservation_bounds (memory : Memory) (start size : Nat) :
    41943040 ≤ bootGetHeapReservationBytes memory start size ∧
      bootGetHeapReservationBytes memory start size < 2 ^ 32 := by
  have extra := initramfsRequiredHeapBytes_lt memory start size
  have provider : earlyHeapSize + zaclrRootProviderHeapBytes = 41943040 := rfl
  rw [bootGetHeapReservationBytes]
  split <;> omega

theorem mmAlignUp_4096 (small : value + 4095 < 2 ^ 64) :
    mmAlignUp value 4096 = (value + 4095) / 4096 * 4096 := mmAlignUp_of_lt small

theorem heapAlignUp_4096 (small : value + 4095 < 2 ^ 64) :
    heapAlignUp value kheapPageAlign = (value + 4095) / 4096 * 4096 := mmAlignUp_of_lt small

namespace BootInput

def reservation (input : BootInput) : Nat :=
  bootGetHeapReservationBytes input.memory input.initramfsStart input.initramfsSize

/-- The first page boundary behind the kernel image. -/
def kernelLimit (input : BootInput) : Nat := (input.kernelEnd + 4095) / 4096 * 4096

/-- The first page boundary behind the kernel image and the initramfs. -/
def heapFloor (input : BootInput) : Nat :=
  if input.initramfsSize = 0 then input.kernelLimit
  else (input.initramfsStart + input.initramfsSize + 4095) / 4096 * 4096

theorem bootGetHeapFloor_eq (input : BootInput) :
    bootGetHeapFloor input.kernelEnd input.initramfsStart input.initramfsSize =
      input.heapFloor := by
  have above := input.above
  have startSmall := input.startSmall
  have sizeSmall := input.sizeSmall
  have whole : u64 (input.initramfsStart + input.initramfsSize) =
      input.initramfsStart + input.initramfsSize := Nat.mod_eq_of_lt (by omega)
  simp only [bootGetHeapFloor, heapFloor, kernelLimit, whole]
  rw [mmAlignUp_4096 (by omega), mmAlignUp_4096 (by omega)]
  split_ifs <;> omega

theorem discovered (input : BootInput) : bootDiscoverInitramfs (some ⟨input.initramfsStart,
      u32 (input.initramfsStart + input.initramfsSize)⟩) =
        (input.initramfsStart, input.initramfsSize) := by
  have startSmall := input.startSmall
  have sizeSmall := input.sizeSmall
  simp only [bootDiscoverInitramfs, u32, Prod.mk.injEq, true_and]
  omega

/-- Where the kernel image, the initramfs and the heap stand to each other, all of it far
below the end of the address space. -/
structure Layout (input : BootInput) : Prop where
  aligned : input.kernelLimit % 4096 = 0
  kernel : input.kernelEnd ≤ input.kernelLimit
  near : input.kernelLimit < input.kernelEnd + 4096
  floorAligned : input.heapFloor % 4096 = 0
  floor : input.kernelLimit ≤ input.heapFloor
  initramfs : input.initramfsSize = 0 ∨ input.initramfsStart + input.initramfsSize ≤ input.heapFloor
  floorSmall : input.heapFloor < 2 ^ 34
  large : 41943040 ≤ input.reservation
  small : input.reservation < 2 ^ 32

theorem layout (input : BootInput) : input.Layout := by
  have above := input.above
  have startSmall := input.startSmall
  have sizeSmall := input.sizeSmall
  obtain ⟨large, small⟩ := reservation_bounds input.memory input.initramfsStart input.initramfsSize
  have floor : input.initramfsSize = 0 ∧ input.heapFloor = input.kernelLimit ∨
    input.initramfsSize ≠ 0 ∧
      input.heapFloor = (input.initramfsStart + input.initramfsSize + 4095) / 4096 * 4096 := by
    unfold heapFloor
    split <;> omega
  constructor <;> simp only [kernelLimit, reservation] at * <;> omega

theorem kheapInit_region {kernelEnd size floor : Nat}
    (kernelSmall : kernelEnd < 2 ^ 32) (floorSmall : floor < 2 ^ 34) (aligned : floor % 4096 = 0)
    (sizeSmall : size < 2 ^ 32) (heapSize : heap.heapSize = size)
    (minStart : heap.heapMinStart = floor) :
    (kheapInit heap kernelEnd).region = ⟨max ((kernelEnd + 4095) / 4096 * 4096) floor, size⟩ := by
  have start : (if heapAlignUp kernelEnd kheapPageAlign < heap.heapMinStart then
      heapAlignUp heap.heapMinStart kheapPageAlign else heapAlignUp kernelEnd kheapPageAlign) =
      max ((kernelEnd + 4095) / 4096 * 4096) floor := by
    rw [minStart, heapAlignUp_4096 (by omega), heapAlignUp_4096 (by omega)]
    split <;> omega
  simp only [kheapInit, Heap.region, start, heapSize, u64, Region.mk.injEq, true_and]
  omega

/-- The runs of frames that a memory map yields, with `room` places left on the stack. -/
def entryRuns (reservedEnd : Nat) : (room : Nat) → List Mb2MmapEntry → List FrameRun
  | _, [] => []
  | room, entry :: entries =>
    if entry.type = mb2MemoryAvailable then
      let start := Pmm.regionStart reservedEnd entry.baseAddr
      let count := frameCount (u64 (entry.baseAddr + entry.length)) room start
      ⟨start, count⟩ :: entryRuns reservedEnd (room - count) entries
    else entryRuns reservedEnd room entries

section

variable (aligned : reservedEnd % pmmFrameSize = 0) (small : reservedEnd < 2 ^ 64)

include aligned small

theorem regionStart_spec (base : Nat) :
    Pmm.regionStart reservedEnd base % pmmFrameSize = 0 ∧
      Pmm.regionStart reservedEnd base < 2 ^ 64 ∧
      reservedEnd ≤ Pmm.regionStart reservedEnd base := by
  simp only [pmmFrameSize] at aligned
  rw [Pmm.regionStart, mmAlignUp_page]
  simp only [u64, pmmMinUsableAddr, pmmFrameSize]
  omega

theorem frames_entries (entries : List Mb2MmapEntry) (pmm : Pmm) :
    (entries.foldl (Pmm.registerEntry reservedEnd) pmm).frames = pmm.frames ++
      (entryRuns reservedEnd (pmmMaxFreeFrames - pmm.freeFrameCount) entries).flatMap
        FrameRun.frames := by
  induction entries generalizing pmm with
  | nil => simp [entryRuns]
  | cons entry entries ih =>
    rw [foldl_cons, ih, entryRuns, Pmm.registerEntry]
    split
    · obtain ⟨startAligned, startSmall, -⟩ := regionStart_spec aligned small entry.baseAddr
      have bounded : u64 (entry.baseAddr + entry.length) < 2 ^ 64 := Nat.mod_lt _ (by decide)
      have added := frames_registerRegion pmm startAligned startSmall bounded
      have counted := congrArg List.length added
      simp only [Pmm.length_frames, length_append, FrameRun.frames, length_map,
        length_range] at counted
      rw [added, counted, Nat.sub_add_eq, flatMap_cons, append_assoc]
    · rfl

theorem entryRuns_valid (entries : List Mb2MmapEntry) (bounded : room ≤ pmmMaxFreeFrames) :
    ∀ run ∈ entryRuns reservedEnd room entries, run.Valid ∧ reservedEnd ≤ run.start := by
  induction entries generalizing room with
  | nil => simp [entryRuns]
  | cons entry entries ih =>
    intro run member
    rw [entryRuns] at member
    split at member
    · rcases mem_cons.mp member with rfl | member
      · obtain ⟨startAligned, startSmall, above⟩ := regionStart_spec aligned small entry.baseAddr
        have few := frameCount_le (u64 (entry.baseAddr + entry.length)) room
          (Pmm.regionStart reservedEnd entry.baseAddr)
        refine ⟨⟨startAligned, startSmall, ?_⟩, above⟩
        dsimp only
        exact Nat.le_trans few bounded
      · exact ih (Nat.le_trans (Nat.sub_le room _) bounded) run member
    · exact ih bounded run member

end

/-- The frames of both paths start behind the end of this reservation. -/
theorem reservedEnd_eq (input : BootInput)
    (above : input.kernelLimit + earlyHeapSize < reserved) (small : reserved + 4095 < 2 ^ 64) :
    Pmm.reservedEnd input.kernelEnd reserved = (reserved + 4095) / 4096 * 4096 := by
  have kernel := Nat.lt_of_le_of_lt input.above input.startSmall
  have whole :
      u64 (mmAlignUp input.kernelEnd pmmFrameSize + earlyHeapSize) =
        input.kernelLimit + earlyHeapSize := by
    rw [mmAlignUp_of_lt (by omega)]
    exact Nat.mod_eq_of_lt (by simp only [kernelLimit, earlyHeapSize] at above ⊢; omega)
  rw [Pmm.reservedEnd, whole, if_pos above, mmAlignUp_of_lt small]

theorem pmmReserveUntil_zeroed (reserved : Nat) :
    (zeroedPmm.pmmReserveUntil reserved).reservedUntil = reserved := by
  rw [Pmm.pmmReserveUntil]
  split
  · rfl
  · rename_i none
    exact (Nat.le_zero.mp (Nat.not_lt.mp none)).symm

/-- The first frame behind the reservation of the Multiboot path. -/
def frameFloor (input : BootInput) : Nat :=
  (input.heapFloor + input.reservation + 4095) / 4096 * 4096

def runsX86 (input : BootInput) : Option Mb2TagMmap → List FrameRun
  | none => []
  | some tag => entryRuns input.frameFloor pmmMaxFreeFrames tag.entries

theorem kheapSetSize_zeroed (memory : Memory) (positive : size ≠ 0) :
    (kheapSetSize (zeroedHeap memory) size).heapSize = size ∧
      (kheapSetSize (zeroedHeap memory) size).heapCurrent = 0 ∧
      (kheapSetSize (zeroedHeap memory) size).heapMinStart = 0 := by
  rw [kheapSetSize, if_neg]
  · exact ⟨rfl, rfl, rfl⟩
  · rintro (started | empty)
    · exact started rfl
    · exact positive empty

theorem kheapReserveUntil_fresh (fresh : heap.heapCurrent = 0)
    (none : heap.heapMinStart = 0) (floor : Nat) :
    (kheapReserveUntil heap floor).heapSize = heap.heapSize ∧
      (kheapReserveUntil heap floor).heapMinStart = floor := by
  rw [kheapReserveUntil, if_pos fresh]
  split
  · exact ⟨rfl, rfl⟩
  · rename_i low
    exact ⟨rfl, by omega⟩

theorem bootX86_region (input : BootInput) (mmapTag : Option Mb2TagMmap) :
    (input.bootX86 mmapTag).2.region = ⟨input.heapFloor, input.reservation⟩ := by
  have layout := input.layout
  have kernel := Nat.lt_of_le_of_lt input.above input.startSmall
  have large := layout.large
  rw [bootX86, kernelMain, discovered]
  simp only [bootGetHeapFloor_eq]
  rw [← reservation]
  obtain ⟨size, fresh, none⟩ := kheapSetSize_zeroed input.memory (by omega : input.reservation ≠ 0)
  obtain ⟨sameSize, minStart⟩ := kheapReserveUntil_fresh fresh none input.heapFloor
  rw [kheapInit_region kernel layout.floorSmall layout.floorAligned layout.small
    (sameSize.trans size) minStart]
  congr 1
  exact Nat.max_eq_right layout.floor

theorem frames_empty (freeFrames : Nat → Nat) (reservedUntil : Nat) :
    Pmm.frames { freeFrames, freeFrameCount := 0, reservedUntil } = [] := rfl

theorem bootX86_frames (input : BootInput) (mmapTag : Option Mb2TagMmap) :
    (input.bootX86 mmapTag).1.frames = (input.runsX86 mmapTag).flatMap FrameRun.frames := by
  have layout := input.layout
  have floorSmall := layout.floorSmall
  have small := layout.small
  have large := layout.large
  have whole : u64 (input.heapFloor + input.reservation) = input.heapFloor + input.reservation :=
    Nat.mod_eq_of_lt (by omega)
  have reserved :
      Pmm.reservedEnd input.kernelEnd (input.heapFloor + input.reservation) = input.frameFloor := by
    apply reservedEnd_eq
    · have floor := layout.floor
      simp only [earlyHeapSize]
      omega
    · omega
  rw [bootX86, kernelMain, discovered]
  simp only [bootGetHeapFloor_eq]
  rw [← reservation, whole]
  cases mmapTag with
  | none => exact frames_empty _ _
  | some tag =>
    rw [Pmm.pmmInit_some, pmmReserveUntil_zeroed, reserved, runsX86]
    have aligned : input.frameFloor % pmmFrameSize = 0 := Nat.mul_mod_left _ _
    have below : input.frameFloor < 2 ^ 64 := by
      simp only [frameFloor]
      omega
    rw [frames_entries aligned below, frames_empty, nil_append, Nat.sub_zero]

/-- The run of frames of the AArch64 path. -/
def runAarch64 (input : BootInput) (memBase memSize : Nat) : FrameRun :=
  let start := Pmm.rangeStart ((input.kernelEnd + input.reservation + 4095) / 4096 * 4096) memBase
  ⟨start, if memSize = 0 then 0 else frameCount (u64 (memBase + memSize)) pmmMaxFreeFrames start⟩

theorem rangeStart_spec (reservedEnd base : Nat) :
    Pmm.rangeStart reservedEnd base % pmmFrameSize = 0 ∧
      Pmm.rangeStart reservedEnd base < 2 ^ 64 := by
  rw [Pmm.rangeStart, mmAlignUp_page]
  simp only [u64, pmmFrameSize]
  omega

theorem runAarch64_valid (input : BootInput) (memBase memSize : Nat) :
    (input.runAarch64 memBase memSize).Valid := by
  obtain ⟨aligned, small⟩ := rangeStart_spec
    ((input.kernelEnd + input.reservation + 4095) / 4096 * 4096) memBase
  refine ⟨aligned, small, ?_⟩
  simp only [runAarch64]
  split
  · exact Nat.zero_le _
  · exact frameCount_le _ _ _

theorem initrdSize (input : BootInput) :
    u32 (input.initramfsStart + input.initramfsSize + 2 ^ 64 - input.initramfsStart) =
      input.initramfsSize := by
  have sizeSmall := input.sizeSmall
  simp only [u32]
  omega

theorem bootAarch64_region (input : BootInput) (memBase memSize : Nat) :
    (input.bootAarch64 memBase memSize).2.region = ⟨input.kernelLimit, input.reservation⟩ := by
  have layout := input.layout
  have kernel := Nat.lt_of_le_of_lt input.above input.startSmall
  have large := layout.large
  rw [bootAarch64, kernelMainAarch64, initrdSize]
  rw [← reservation]
  obtain ⟨size, -, none⟩ := kheapSetSize_zeroed input.memory (by omega : input.reservation ≠ 0)
  rw [kheapInit_region kernel (by decide : 0 < 2 ^ 34) (by decide) layout.small size none]
  congr 1
  exact Nat.max_eq_left (Nat.zero_le _)

theorem bootAarch64_frames (input : BootInput) (memBase memSize : Nat) :
    (input.bootAarch64 memBase memSize).1.frames = (input.runAarch64 memBase memSize).frames := by
  have layout := input.layout
  have kernel := Nat.lt_of_le_of_lt input.above input.startSmall
  have near := layout.near
  have large := layout.large
  have small := layout.small
  have whole : u64 (input.kernelEnd + input.reservation) = input.kernelEnd + input.reservation :=
    Nat.mod_eq_of_lt (by omega)
  have reserved : Pmm.reservedEnd input.kernelEnd (input.kernelEnd + input.reservation) =
      (input.kernelEnd + input.reservation + 4095) / 4096 * 4096 := by
    apply reservedEnd_eq
    · simp only [earlyHeapSize]
      omega
    · omega
  rw [bootAarch64, kernelMainAarch64, initrdSize]
  rw [← reservation, whole, Pmm.pmmInitRange, pmmReserveUntil_zeroed, reserved, runAarch64]
  split
  · exact frames_empty _ _
  · obtain ⟨aligned, startSmall⟩ := rangeStart_spec
      ((input.kernelEnd + input.reservation + 4095) / 4096 * 4096) memBase
    have bounded : u64 (memBase + memSize) < 2 ^ 64 := Nat.mod_lt _ (by decide)
    rw [frames_registerRegion _ aligned startSmall bounded, frames_empty, nil_append]
    rw [Nat.sub_zero]

end BootInput

end Zapada.Mm
