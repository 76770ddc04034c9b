import Zapada.Foundation.Machine
import Zapada.Mm.PmmOwnership

namespace Zapada.Mm

open Foundation

def consecutive (base count : Nat) : List Nat :=
  (List.range count).map fun i => base + i * pmmFrameSize

namespace Pmm

theorem pmmAllocFrame_frames (pmm : Pmm) :
    pmm.pmmAllocFrame = (0, pmm) ∨
      pmm.frames = pmm.pmmAllocFrame.2.frames ++ [pmm.pmmAllocFrame.1] := by
  unfold pmmAllocFrame
  split
  · exact .inl rfl
  · right
    rename_i nonempty
    obtain ⟨rest, count⟩ := Nat.exists_eq_succ_of_ne_zero nonempty
    simp only [frames, count, Nat.succ_eq_add_one, Nat.add_sub_cancel]
    exact front_succ _ _

theorem pmmFreeFrame_frames (pmm : Pmm) (frame : Nat) :
    pmm.pmmFreeFrame frame = pmm ∨
      (frame ≠ 0 ∧ (pmm.pmmFreeFrame frame).frames = pmm.frames ++ [frame]) := by
  unfold pmmFreeFrame
  split
  · exact .inl rfl
  · rename_i room
    exact .inr ⟨fun zero => room (.inl zero), frames_push pmm frame⟩

theorem front_contiguous {pmm : Pmm} (contiguous : pmm.contiguousAt count start)
    (positive : 0 < count)
    (small : pmm.freeFrames start < 2 ^ 64) : front (fun i => pmm.freeFrames (start + i)) count =
      (List.range count).map fun i => u64 (pmm.freeFrames start + i * pmmFrameSize) := by
  apply List.map_congr_left
  intro i member
  have below := List.mem_range.mp member
  cases i with
  | zero =>
    simp only [Nat.zero_mul, Nat.add_zero, u64, Nat.mod_eq_of_lt small]
  | succ i =>
    have checked := List.all_eq_true.mp contiguous (i + 1) (by
      rw [List.mem_range'_1]
      omega)
    simpa using checked

theorem pmmAllocContiguous_frames (pmm : Pmm) (count : Nat)
    (small : ∀ frame ∈ pmm.frames, frame < 2 ^ 64) :
    pmm.pmmAllocContiguous count = (0, pmm) ∨
      (0 < count ∧ (pmm.pmmAllocContiguous count).1 ∈ pmm.frames ∧ ∃ earlier later,
        pmm.frames = earlier ++ ((List.range count).map fun i =>
          u64 ((pmm.pmmAllocContiguous count).1 + i * pmmFrameSize)) ++ later ∧
        (pmm.pmmAllocContiguous count).2.frames = earlier ++ later) := by
  unfold pmmAllocContiguous
  split
  · exact .inl rfl
  rename_i enough
  split
  · exact .inl rfl
  · right
    rename_i start found
    have bound := List.mem_range.mp (List.mem_of_find?_eq_some found)
    have contiguous := List.find?_some found
    obtain ⟨rest, total⟩ : ∃ rest, pmm.freeFrameCount = start + count + rest :=
      ⟨pmm.freeFrameCount - (start + count), by omega⟩
    have positive : 0 < count := by omega
    have free : pmm.freeFrames start ∈ pmm.frames :=
      List.mem_map.mpr ⟨start, List.mem_range.mpr (by omega), rfl⟩
    have base := small _ free
    refine ⟨positive, free, front pmm.freeFrames start,
      front (fun i => pmm.freeFrames (start + count + i)) rest, ?_, ?_⟩
    · rw [← front_contiguous contiguous positive base, frames, total, front_add, front_add]
    · simp only [frames, total]
      have left : start + count + rest - count = start + rest := by omega
      have moved : start + count + rest - (start + count) = rest := by omega
      rw [left, moved]
      exact front_shiftDown positive _ _ _

theorem pmmAllocContiguous_of_infix {pmm : Pmm} (ordered : consecutive base count <:+: pmm.frames)
    (positive : 0 < count) (sound : ∀ frame ∈ pmm.frames, frame ≠ 0 ∧ frame < 2 ^ 64) :
    (pmm.pmmAllocContiguous count).1 ≠ 0 := by
  obtain ⟨earlier, later, split⟩ := ordered
  have total : pmm.freeFrameCount = earlier.length + count + later.length := by
    rw [← length_frames, ← split]
    simp [consecutive, Nat.add_assoc]
  have entry : ∀ i < count, pmm.freeFrames (earlier.length + i) = base + i * pmmFrameSize := by
    intro i below
    have here : pmm.frames[earlier.length + i]? = some (pmm.freeFrames (earlier.length + i)) := by
      simp only [frames, front, List.getElem?_map]
      rw [List.getElem?_range (by omega)]
      rfl
    rw [← split, List.append_assoc, List.getElem?_append_right (by omega)] at here
    simpa [consecutive, List.getElem?_append_left, below] using here.symm
  have free : ∀ i < pmm.freeFrameCount, pmm.freeFrames i ∈ pmm.frames := fun i below =>
    List.mem_map.mpr ⟨i, List.mem_range.mpr below, rfl⟩
  have contiguous : pmm.contiguousAt count earlier.length = true := by
    refine List.all_eq_true.mpr fun i member => ?_
    have below := List.mem_range'_1.mp member
    have first := entry 0 positive
    have here := entry i (by omega)
    have small := (sound _ (free (earlier.length + i) (by omega))).2
    simp only [Nat.add_zero, Nat.zero_mul] at first
    rw [decide_eq_true_iff, first, here, u64, Nat.mod_eq_of_lt (here ▸ small)]
  unfold pmmAllocContiguous
  rw [if_neg (by omega)]
  split
  · rename_i missing
    exact absurd contiguous (List.find?_eq_none.mp missing _ (List.mem_range.mpr (by omega)))
  · rename_i start found
    have below := List.mem_range.mp (List.mem_of_find?_eq_some found)
    exact (sound _ (free start (by omega))).1

end Pmm

/-- The allocator and the frames that callers hold. -/
structure PmmSystem where
  pmm : Pmm
  allocated : List Nat

inductive PmmCall where
  | pmmAllocFrame
  | pmmAllocContiguous (count : Nat)
  | pmmFreeFrame (frame : Nat)

namespace PmmSystem

def hold (frame count : Nat) (allocated : List Nat) : List Nat :=
  if frame = 0 then allocated else consecutive frame count ++ allocated

def call (system : PmmSystem) : PmmCall → PmmSystem
  | .pmmAllocFrame =>
    let (frame, pmm) := system.pmm.pmmAllocFrame
    { pmm, allocated := hold frame 1 system.allocated }
  | .pmmAllocContiguous count =>
    let (frame, pmm) := system.pmm.pmmAllocContiguous count
    { pmm, allocated := hold frame count system.allocated }
  | .pmmFreeFrame frame =>
    { pmm := system.pmm.pmmFreeFrame frame, allocated := system.allocated.erase frame }

end PmmSystem

/-- After an initialisation, with nothing handed out; callers free only what they hold. -/
def pmmMachine (boot : Boot) : Machine PmmSystem PmmCall where
  initial system := ∃ pmm : Pmm, pmm.reservedUntil = boot.reservedUntil ∧
    system = { pmm := boot.initialise pmm, allocated := [] }
  step before call after := (∀ frame, call = .pmmFreeFrame frame → frame ∈ before.allocated) ∧
    after = before.call call

/-- Free and held frames are distinct and usable. -/
def PmmSystem.Owned (boot : Boot) (system : PmmSystem) : Prop :=
  Registered boot.reservedEnd boot.description.regions (system.pmm.frames ++ system.allocated)

theorem Registered.perm (registered : Registered reservedEnd regions frames)
    (same : frames.Perm others) : Registered reservedEnd regions others where
  distinct := same.nodup_iff.mp registered.distinct
  usable frame member := registered.usable frame (same.mem_iff.mpr member)

theorem Registered.sublist (registered : Registered reservedEnd regions frames)
    (fewer : others.Sublist frames) : Registered reservedEnd regions others where
  distinct := registered.distinct.sublist fewer
  usable frame member := registered.usable frame (fewer.subset member)

section Preservation

variable {boot : Boot} (wellFormed : boot.WellFormed) (clear : boot.Clear)

include wellFormed in
theorem Usable.small (usable : Usable boot.reservedEnd boot.description.regions frame) :
    frame + pmmFrameSize ≤ 2 ^ 64 := by
  obtain ⟨region, member, -, last⟩ := usable.inside
  exact Nat.le_trans last (wellFormed.bounded region member)

include clear in
theorem Usable.nonzero (usable : Usable boot.reservedEnd boot.description.regions frame) :
    frame ≠ 0 := by
  obtain ⟨-, -, low⟩ := Boot.reservedEnd_spec clear
  have reserved := usable.reserved
  simp only [earlyHeapSize] at low
  omega

include clear in
/-- A group of usable frames does not run over the end of the address space. -/
theorem group_eq_consecutive (positive : 0 < count)
    (usable : ∀ frame ∈ (List.range count).map fun i => u64 (base + i * pmmFrameSize),
      Usable boot.reservedEnd boot.description.regions frame) (small : base < 2 ^ 64) :
    ((List.range count).map fun i => u64 (base + i * pmmFrameSize)) = consecutive base count := by
  have member : ∀ i < count, u64 (base + i * pmmFrameSize) ∈
      (List.range count).map fun i => u64 (base + i * pmmFrameSize) := by
    intro i below
    exact List.mem_map.mpr ⟨i, List.mem_range.mpr below, rfl⟩
  have first := usable _ (member 0 positive)
  rw [Nat.zero_mul, Nat.add_zero, u64, Nat.mod_eq_of_lt small] at first
  have aligned := first.aligned
  simp only [pmmFrameSize] at aligned
  apply List.map_congr_left
  intro i inside
  have below := List.mem_range.mp inside
  apply Nat.mod_eq_of_lt
  by_contra wraps
  simp only [pmmFrameSize] at wraps
  -- the group would contain address 0
  have top : u64 (base + (2 ^ 64 - base) / 4096 * pmmFrameSize) = 0 := by
    simp only [u64, pmmFrameSize]
    omega
  have bottom := usable _ (member ((2 ^ 64 - base) / 4096) (by omega))
  exact bottom.nonzero clear top

include wellFormed clear in
theorem allocContiguous_consecutive {pmm : Pmm}
    (usable : ∀ frame ∈ pmm.frames, Usable boot.reservedEnd boot.description.regions frame)
    (count : Nat) :
    pmm.pmmAllocContiguous count = (0, pmm) ∨
      ((pmm.pmmAllocContiguous count).1 ≠ 0 ∧ ∃ earlier later,
        pmm.frames = earlier ++ consecutive (pmm.pmmAllocContiguous count).1 count ++ later ∧
        (pmm.pmmAllocContiguous count).2.frames = earlier ++ later) := by
  have small : ∀ frame ∈ pmm.frames, frame < 2 ^ 64 := by
    intro frame member
    have bound := (usable frame member).small wellFormed
    simp only [pmmFrameSize] at bound
    omega
  rcases pmm.pmmAllocContiguous_frames count small with
    failed | ⟨positive, free, earlier, later, cut, rest⟩
  · exact .inl failed
  · right
    have group := group_eq_consecutive clear positive (fun frame member => usable frame (by
      rw [cut]
      exact List.mem_append_left _ (List.mem_append_right _ member))) (small _ free)
    refine ⟨(usable _ free).nonzero clear, earlier, later, ?_, rest⟩
    rw [← group]
    exact cut

include wellFormed clear in
theorem owned_call {before : PmmSystem} (owned : before.Owned boot)
    (held : ∀ frame, call = .pmmFreeFrame frame → frame ∈ before.allocated) :
    (before.call call).Owned boot := by
  have usable :
      ∀ frame ∈ before.pmm.frames, Usable boot.reservedEnd boot.description.regions frame :=
    fun frame member => owned.usable frame (List.mem_append_left _ member)
  cases call with
  | pmmAllocFrame =>
    simp only [PmmSystem.call, PmmSystem.hold]
    rcases before.pmm.pmmAllocFrame_frames with failed | popped
    · rw [failed]
      exact owned
    · have free : before.pmm.pmmAllocFrame.1 ∈ before.pmm.frames := by
        rw [popped]
        simp
      rw [if_neg ((usable _ free).nonzero clear)]
      apply owned.perm
      rw [popped]
      simp [consecutive]
  | pmmAllocContiguous count =>
    simp only [PmmSystem.call, PmmSystem.hold]
    rcases allocContiguous_consecutive wellFormed clear usable count with
      failed | ⟨nonzero, earlier, later, cut, rest⟩
    · rw [failed]
      exact owned
    · rw [if_neg nonzero]
      apply owned.perm
      simp only [rest, cut, List.append_assoc]
      apply List.Perm.append_left
      rw [← List.append_assoc, ← List.append_assoc]
      exact List.perm_append_comm.append_right _
  | pmmFreeFrame frame =>
    have member := held frame rfl
    simp only [PmmSystem.call]
    rcases before.pmm.pmmFreeFrame_frames frame with dropped | ⟨-, pushed⟩
    · rw [dropped]
      exact owned.sublist (List.Sublist.append_left List.erase_sublist _)
    · apply owned.perm
      simp only [pushed, List.append_assoc, List.singleton_append]
      exact (List.perm_cons_erase member).append_left _

include wellFormed clear in
theorem owned_inductive : (pmmMachine boot).Inductive (PmmSystem.Owned boot) where
  initially := by
    rintro system ⟨pmm, reservation, rfl⟩
    simp only [PmmSystem.Owned, List.append_nil]
    exact boot.registered wellFormed clear reservation
  preserved := by
    rintro before call after owned ⟨held, rfl⟩
    exact owned_call wellFormed clear owned held

end Preservation

/-- Who owns the frames: the free stack holds distinct frames above the reserved end, each
inside an available region and held by no caller, and a contiguous allocation cuts a group out
of it or changes nothing. -/
structure FrameOwnership (boot : Boot) (system : PmmSystem) : Prop where
  distinct : system.pmm.frames.Nodup
  aligned : ∀ frame ∈ system.pmm.frames, frame % pmmFrameSize = 0
  reserved : ∀ frame ∈ system.pmm.frames, boot.reservedEnd ≤ frame
  inside : ∀ frame ∈ system.pmm.frames, ∃ region ∈ boot.description.regions, region.Holds frame
  apart : ∀ frame ∈ system.pmm.frames, frame ∉ system.allocated
  contiguous : ∀ count, system.pmm.pmmAllocContiguous count = (0, system.pmm) ∨
    ((system.pmm.pmmAllocContiguous count).1 ≠ 0 ∧ ∃ earlier later,
      system.pmm.frames = earlier ++ consecutive (system.pmm.pmmAllocContiguous count).1
        count ++ later ∧
      (system.pmm.pmmAllocContiguous count).2.frames = earlier ++ later)

/-- In every run after a clear initialisation every frame has one owner. -/
theorem frames_have_one_owner {boot : Boot} (wellFormed : boot.WellFormed) (clear : boot.Clear)
    (run : (pmmMachine boot).Run calls system) : FrameOwnership boot system := by
  have owned := (owned_inductive wellFormed clear).reached run
  have usable :
      ∀ frame ∈ system.pmm.frames, Usable boot.reservedEnd boot.description.regions frame :=
    fun frame member => owned.usable frame (List.mem_append_left _ member)
  have disjoint := List.nodup_append.mp owned.distinct
  constructor
  case distinct => exact disjoint.1
  case aligned => exact fun frame member => (usable frame member).aligned
  case reserved => exact fun frame member => (usable frame member).reserved
  case inside => exact fun frame member => (usable frame member).inside
  case apart => exact fun frame member held => disjoint.2.2 frame member frame held rfl
  case contiguous => exact allocContiguous_consecutive wellFormed clear usable

private def emptyPmm : Pmm := { freeFrames := fun _ => 0, freeFrameCount := 0, reservedUntil := 0 }

/-- A kernel that ends at 512 KiB, with three frames above its heap. -/
def sampleBoot : Boot :=
  { kernelEnd := 0x80000, reservedUntil := 0, description := .range 0 0x883000 }

def sampleSystem : PmmSystem := { pmm := sampleBoot.initialise emptyPmm, allocated := [] }

theorem sampleBoot_clear : sampleBoot.WellFormed ∧ sampleBoot.Clear := by
  refine ⟨⟨?_, ?_⟩, ?_, by decide, by decide⟩
  · simp [sampleBoot, MemoryDescription.regions]
  · simp [sampleBoot, MemoryDescription.regions, Region.last]
  · simp [sampleBoot, MemoryDescription.regions, Region.Clear, Region.last, pmmFrameSize]

theorem sampleBoot_start : (pmmMachine sampleBoot).Run [] sampleSystem :=
  .start ⟨emptyPmm, rfl, rfl⟩

theorem PmmSystem.freed {system : PmmSystem} (run : (pmmMachine boot).Run calls system)
    (held : frame ∈ system.allocated) :
    (pmmMachine boot).Run (calls ++ [.pmmFreeFrame frame]) (system.call (.pmmFreeFrame frame)) := by
  refine run.next ⟨?_, rfl⟩
  rintro other ⟨⟩
  exact held

theorem frames_have_one_owner_after_group :
    ∃ system, (pmmMachine sampleBoot).Run [.pmmAllocContiguous 2, .pmmFreeFrame 0x880000] system ∧
      FrameOwnership sampleBoot system := by
  have taken : (pmmMachine sampleBoot).Run [.pmmAllocContiguous 2] _ :=
    sampleBoot_start.next ⟨by simp, rfl⟩
  have run := PmmSystem.freed taken (show 0x880000 ∈ _ by decide +kernel)
  exact ⟨_, run, frames_have_one_owner sampleBoot_clear.1 sampleBoot_clear.2 run⟩

/-- In every run a contiguous allocation succeeds whenever there are that many consecutive
free frames exactly if some such group lies in rising order on the stack. -/
theorem contiguous_complete_iff {boot : Boot} (wellFormed : boot.WellFormed) (clear : boot.Clear)
    (run : (pmmMachine boot).Run calls system) (count : Nat) :
    ((∃ base, consecutive base count ⊆ system.pmm.frames) →
      (system.pmm.pmmAllocContiguous count).1 ≠ 0) ↔
      ((∃ base, consecutive base count ⊆ system.pmm.frames) →
        0 < count ∧ ∃ base, consecutive base count <:+: system.pmm.frames) := by
  have owned := (owned_inductive wellFormed clear).reached run
  have usable :
      ∀ frame ∈ system.pmm.frames, Usable boot.reservedEnd boot.description.regions frame :=
    fun frame member => owned.usable frame (List.mem_append_left _ member)
  refine imp_congr_right fun _ => ⟨fun nonzero => ?_, fun ⟨positive, base, ordered⟩ => ?_⟩
  · rcases allocContiguous_consecutive wellFormed clear usable count with
      failed | ⟨-, earlier, later, cut, -⟩
    · rw [failed] at nonzero
      contradiction
    · refine ⟨Nat.pos_of_ne_zero ?_, _, earlier, later, cut.symm⟩
      rintro rfl
      exact nonzero rfl
  · refine Pmm.pmmAllocContiguous_of_infix ordered positive fun frame member => ?_
    have small := (usable frame member).small wellFormed
    exact ⟨(usable frame member).nonzero clear, by simp only [pmmFrameSize] at small; omega⟩

theorem contiguous_complete_iff_start : ((∃ base, consecutive base 3 ⊆ sampleSystem.pmm.frames) →
      (sampleSystem.pmm.pmmAllocContiguous 3).1 ≠ 0) ↔
        ((∃ base, consecutive base 3 ⊆ sampleSystem.pmm.frames) →
        0 < 3 ∧ ∃ base, consecutive base 3 <:+: sampleSystem.pmm.frames) :=
  contiguous_complete_iff sampleBoot_clear.1 sampleBoot_clear.2 sampleBoot_start 3

/-- Two of the three frames come back in falling order. -/
theorem contiguous_misses_scattered :
    ∃ system, (pmmMachine sampleBoot).Run [.pmmAllocFrame, .pmmAllocFrame,
      .pmmFreeFrame 0x882000, .pmmFreeFrame 0x881000] system ∧
    consecutive 0x880000 3 ⊆ system.pmm.frames ∧ (system.pmm.pmmAllocContiguous 3).1 = 0 := by
  have taken : (pmmMachine sampleBoot).Run [.pmmAllocFrame, .pmmAllocFrame] _ :=
    (sampleBoot_start.next ⟨by simp, rfl⟩).next ⟨by simp, rfl⟩
  have first := PmmSystem.freed taken (show 0x882000 ∈ _ by decide +kernel)
  exact ⟨_, PmmSystem.freed first (by decide +kernel), by decide +kernel, by decide +kernel⟩

/-- A region that ends one byte below the end of the address space. -/
def wrappingBoot : Boot :=
  { kernelEnd := 0x80000, reservedUntil := 0, description := .range (2 ^ 64 - 8192) 8191 }

theorem frames_wrap_to_reserved : wrappingBoot.WellFormed ∧
      ∃ system, (pmmMachine wrappingBoot).Run [] system ∧
      0 ∈ system.pmm.frames ∧ 0 < wrappingBoot.reservedEnd ∧
        ¬ FrameOwnership wrappingBoot system := by
  have reserved : 0 < wrappingBoot.reservedEnd := by decide +kernel
  let system : PmmSystem := { pmm := wrappingBoot.initialise emptyPmm, allocated := [] }
  have free : 0 ∈ system.pmm.frames := by
    have third : ∀ room, 0 ∈ Pmm.framesFrom (2 ^ 64 - 1) (room + 3) (2 ^ 64 - 8192) := by
      intro room
      rw [Pmm.framesFrom, if_pos (by decide +kernel), Pmm.framesFrom, if_pos (by decide +kernel),
        Pmm.framesFrom, if_pos (by decide +kernel)]
      simp [u64, pmmFrameSize]
    simp only [system]
    rw [Boot.initialise_range rfl, Pmm.pmmInitRange, if_neg (by decide), Pmm.registerRegion,
      Pmm.frames_registerFrames]
    exact List.mem_append_right _ (third 32765)
  refine ⟨?_, system, .start ⟨emptyPmm, rfl, rfl⟩, free, reserved, ?_⟩
  · constructor
    · simp [wrappingBoot, MemoryDescription.regions]
    · simp [wrappingBoot, MemoryDescription.regions, Region.last]
  · intro ownership
    exact absurd (ownership.reserved 0 free) (Nat.not_le.mpr reserved)

end Zapada.Mm
