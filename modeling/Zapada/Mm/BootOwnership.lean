import Zapada.Mm.BootMemory

namespace Zapada.Mm

open Region List

def FrameRun.Disjoint (one two : FrameRun) : Prop :=
  ∀ first ∈ one.ranges, ∀ second ∈ two.ranges, first.Disjoint second

theorem FrameRun.frames_disjoint_iff {one two : FrameRun} (valid : one.Valid)
    (otherValid : two.Valid) :
    (∀ first ∈ one.frames, ∀ second ∈ two.frames,
      (frameRegion first).Disjoint (frameRegion second)) ↔
      one.Disjoint two := by
  constructor
  · intro disjoint first firstMember second secondMember address covers other
    obtain ⟨frame, present, inFirst⟩ := (covers_iff valid address).mpr ⟨first, firstMember, covers⟩
    obtain ⟨frame', present', inSecond⟩ :=
      (covers_iff otherValid address).mpr ⟨second, secondMember, other⟩
    exact disjoint frame present frame' present' address inFirst inSecond
  · intro disjoint first firstMember second secondMember address covers other
    obtain ⟨range, present, inFirst⟩ := (covers_iff valid address).mp ⟨first, firstMember, covers⟩
    obtain ⟨range', present', inSecond⟩ :=
      (covers_iff otherValid address).mp ⟨second, secondMember, other⟩
    exact disjoint range present range' present' address inFirst inSecond

namespace BootInput

/-- On the Multiboot path: no region's frames wrap at the end of the address space as far as
the kernel image, and no two regions yield the same frame. -/
def ClearX86 (input : BootInput) (mmapTag : Option Mb2TagMmap) : Prop :=
  (∀ run ∈ input.runsX86 mmapTag, (run.count - run.top) * pmmFrameSize ≤ input.kernelStart) ∧
    (input.runsX86 mmapTag).Pairwise FrameRun.Disjoint

/-- On the AArch64 path: the initrd lies outside the heap, and the frames lie below the kernel
image, or behind the end of the heap and away from the initrd. -/
def ClearAarch64 (input : BootInput) (memBase memSize : Nat) : Prop :=
  (input.initramfsSize = 0 ∨ input.initramfsStart + input.initramfsSize ≤ input.kernelLimit ∨
    input.kernelLimit + input.reservation ≤ input.initramfsStart) ∧
  ∀ range ∈ (input.runAarch64 memBase memSize).ranges, range.length = 0 ∨
    range.last ≤ input.kernelStart ∨
      (input.kernelLimit + input.reservation ≤ range.base ∧
        (input.initramfsSize = 0 ∨ input.initramfsStart + input.initramfsSize ≤ range.base ∨
          range.last ≤ input.initramfsStart))

theorem kernel_initramfs (input : BootInput) : input.kernel.Disjoint input.initramfs := by
  have above := input.above
  rw [disjoint_iff]
  simp only [Region.Apart, kernel, initramfs, last]
  omega

theorem runsX86_valid (input : BootInput) (mmapTag : Option Mb2TagMmap) :
    ∀ run ∈ input.runsX86 mmapTag, run.Valid ∧ input.frameFloor ≤ run.start := by
  have layout := input.layout
  have floorSmall := layout.floorSmall
  have small := layout.small
  have aligned : input.frameFloor % pmmFrameSize = 0 := Nat.mul_mod_left _ _
  have below : input.frameFloor < 2 ^ 64 := by
    simp only [frameFloor]
    omega
  cases mmapTag with
  | none => simp [runsX86]
  | some tag => exact entryRuns_valid aligned below tag.entries (Nat.le_refl _)

theorem memoryOwned_x86 (input : BootInput) (mmapTag : Option Mb2TagMmap) :
    MemoryOwned input (input.bootX86 mmapTag) ↔ input.ClearX86 mmapTag := by
  have layout := input.layout
  have nonempty := input.nonempty
  have valid := input.runsX86_valid mmapTag
  have pairwise : (input.bootX86 mmapTag).1.frames.Pairwise
      (fun one two => (frameRegion one).Disjoint (frameRegion two)) ↔
      (input.runsX86 mmapTag).Pairwise FrameRun.Disjoint := by
    rw [bootX86_frames, pairwise_flatMap]
    constructor
    · rintro ⟨-, apart⟩
      refine apart.imp_of_mem ?_
      intro one two first second disjoint
      exact (FrameRun.frames_disjoint_iff (valid one first).1 (valid two second).1).mp disjoint
    · intro apart
      refine ⟨fun run member => FrameRun.pairwise (valid run member).1, ?_⟩
      refine apart.imp_of_mem ?_
      intro one two first second disjoint
      exact (FrameRun.frames_disjoint_iff (valid one first).1 (valid two second).1).mpr disjoint
  constructor
  · intro owned
    refine ⟨?_, pairwise.mp owned.frames⟩
    intro run member
    have apart := (FrameRun.disjoint_iff (valid run member).1 input.kernel).mp (by
      intro frame present
      apply owned.kernelFrames
      rw [bootX86_frames]
      exact mem_flatMap.mpr ⟨run, member, present⟩)
    have wrapped := apart ⟨0, (run.count - run.top) * pmmFrameSize⟩ (by simp [FrameRun.ranges])
    rw [disjoint_iff] at wrapped
    simp only [Region.Apart, kernel, last] at wrapped
    omega
  · rintro ⟨wrapped, apart⟩
    have floor := layout.floor
    have kernelBelow := layout.kernel
    have initramfsBelow := layout.initramfs
    have above := input.above
    -- everything below the first frame of the reservation and not below the kernel is safe
    have safe : ∀ region : Region, input.kernelStart ≤ region.base →
        (region.length = 0 ∨ region.last ≤ input.frameFloor) →
        ∀ frame ∈ (input.bootX86 mmapTag).1.frames, region.Disjoint (frameRegion frame) := by
      intro region low high frame present
      rw [bootX86_frames] at present
      obtain ⟨run, member, present⟩ := mem_flatMap.mp present
      obtain ⟨runValid, start⟩ := valid run member
      have below := wrapped run member
      refine (FrameRun.disjoint_iff runValid region).mpr ?_ frame present
      intro range inRun
      rw [disjoint_iff]
      simp only [FrameRun.ranges, mem_cons, not_mem_nil, or_false] at inRun
      simp only [Region.Apart, last] at high ⊢
      rcases inRun with rfl | rfl
      · simp only
        omega
      · simp only
        omega
    have covered : input.heapFloor + input.reservation ≤ input.frameFloor := by
      simp only [frameFloor]
      omega
    constructor
    case kernelInitramfs => exact input.kernel_initramfs
    case kernelHeap =>
      rw [bootX86_region, disjoint_iff]
      simp only [Region.Apart, kernel, last]
      omega
    case initramfsHeap =>
      rw [bootX86_region, disjoint_iff]
      simp only [Region.Apart, initramfs, last]
      omega
    case kernelFrames =>
      apply safe
      · exact Nat.le_refl _
      · simp only [kernel, last]
        omega
    case initramfsFrames =>
      apply safe
      · simp only [initramfs]
        omega
      · simp only [initramfs, last]
        omega
    case heapFrames =>
      rw [bootX86_region]
      apply safe
      · simp only
        omega
      · simp only [last]
        omega
    case frames => exact pairwise.mpr apart

theorem memoryOwned_aarch64 (input : BootInput) (memBase memSize : Nat) :
    MemoryOwned input (input.bootAarch64 memBase memSize) ↔ input.ClearAarch64 memBase memSize := by
  have layout := input.layout
  have nonempty := input.nonempty
  have above := input.above
  have aligned := layout.aligned
  have kernelBelow := layout.kernel
  have near := layout.near
  have large := layout.large
  have valid := input.runAarch64_valid memBase memSize
  have frames : ∀ region : Region,
      (∀ frame ∈ (input.bootAarch64 memBase memSize).1.frames,
        region.Disjoint (frameRegion frame)) ↔
        ∀ range ∈ (input.runAarch64 memBase memSize).ranges,
          region.length = 0 ∨ range.length = 0 ∨ region.Apart range := by
    intro region
    rw [bootAarch64_frames, FrameRun.disjoint_iff valid region]
    simp only [Region.disjoint_iff]
  -- every range consists of whole frames
  have whole : ∀ range ∈ (input.runAarch64 memBase memSize).ranges, range.base % 4096 = 0 := by
    intro range member
    have start := valid.aligned
    simp only [FrameRun.ranges, mem_cons, not_mem_nil, or_false] at member
    rcases member with rfl | rfl
    · exact start
    · rfl
  constructor
  · intro owned
    have heap := owned.initramfsHeap
    have kernelFrames := (frames _).mp owned.kernelFrames
    have initramfsFrames := (frames _).mp owned.initramfsFrames
    have heapFrames := (frames _).mp owned.heapFrames
    rw [bootAarch64_region] at heap heapFrames
    constructor
    · rw [disjoint_iff] at heap
      simp only [Region.Apart, initramfs, last] at heap
      omega
    · intro range member
      have page := whole range member
      have first := kernelFrames range member
      have second := initramfsFrames range member
      have third := heapFrames range member
      simp only [Region.Apart, kernel, initramfs, last] at first second third ⊢
      omega
  · rintro ⟨outside, clear⟩
    constructor
    case kernelInitramfs => exact input.kernel_initramfs
    case kernelHeap =>
      rw [bootAarch64_region, disjoint_iff]
      simp only [Region.Apart, kernel, last]
      omega
    case initramfsHeap =>
      rw [bootAarch64_region, disjoint_iff]
      simp only [Region.Apart, initramfs, last]
      omega
    case kernelFrames =>
      refine (frames _).mpr fun range member => ?_
      have place := clear range member
      simp only [Region.Apart, kernel, last] at place ⊢
      omega
    case initramfsFrames =>
      refine (frames _).mpr fun range member => ?_
      have place := clear range member
      simp only [Region.Apart, initramfs, last] at place ⊢
      omega
    case heapFrames =>
      rw [bootAarch64_region]
      refine (frames _).mpr fun range member => ?_
      have place := clear range member
      simp only [Region.Apart, last] at place ⊢
      omega
    case frames =>
      rw [bootAarch64_frames]
      exact FrameRun.pairwise valid

/-- Both boot paths give every address one owner exactly under these conditions. -/
theorem boot_memory_owned_iff (input : BootInput) :
    (∀ mmapTag, MemoryOwned input (input.bootX86 mmapTag) ↔ input.ClearX86 mmapTag) ∧
      ∀ memBase memSize,
        MemoryOwned input (input.bootAarch64 memBase memSize) ↔
          input.ClearAarch64 memBase memSize :=
  ⟨input.memoryOwned_x86, input.memoryOwned_aarch64⟩

/-- A kernel below 1 MiB with an initrd of one page at 2 MiB. -/
def sample : BootInput where
  memory _ := 0
  kernelStart := 0x80000
  kernelEnd := 0x100000
  initramfsStart := 0x200000
  initramfsSize := 0x1000
  nonempty := by decide
  above := by decide
  startSmall := by decide
  sizeSmall := by decide

theorem initrd_inside_heap : ¬ MemoryOwned sample (sample.bootAarch64 0 0x40000000) := by
  intro owned
  have apart := owned.initramfsHeap
  rw [bootAarch64_region] at apart
  have inHeap : Region.Covers ⟨sample.kernelLimit, sample.reservation⟩ 0x200000 := by
    have limit : sample.kernelLimit = 0x100000 := rfl
    have large := sample.layout.large
    simp only [Region.Covers, last, limit]
    omega
  exact apart 0x200000 (by simp [Region.Covers, last, initramfs, sample]) inHeap

end BootInput

end Zapada.Mm
