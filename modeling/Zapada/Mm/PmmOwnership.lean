import Zapada.Mm.Pmm

namespace Zapada.Mm

open Foundation List

/-- The memory that the boot code finds: a memory map or one flat region. -/
inductive MemoryDescription where
  | memoryMap (mmapTag : Option Mb2TagMmap)
  | range (memBase memSize : Nat)

def Mb2MmapEntry.region (entry : Mb2MmapEntry) : Region := ⟨entry.baseAddr, entry.length⟩

def availableRegions (entries : List Mb2MmapEntry) : List Region :=
  (entries.filter fun entry => entry.type = mb2MemoryAvailable).map Mb2MmapEntry.region

def MemoryDescription.regions : MemoryDescription → List Region
  | .memoryMap none => []
  | .memoryMap (some tag) => availableRegions tag.entries
  | .range memBase memSize => [⟨memBase, memSize⟩]

/-- All that an initialisation of the allocator depends on. -/
structure Boot where
  kernelEnd : Nat
  reservedUntil : Nat
  description : MemoryDescription

namespace Boot

def reservedEnd (boot : Boot) : Nat := Pmm.reservedEnd boot.kernelEnd boot.reservedUntil

def initialise (boot : Boot) (pmm : Pmm) : Pmm :=
  match boot.description with
  | .memoryMap mmapTag => pmm.pmmInit boot.kernelEnd mmapTag
  | .range memBase memSize => pmm.pmmInitRange boot.kernelEnd memBase memSize

theorem initialise_memoryMap {boot : Boot} (description : boot.description = .memoryMap mmapTag)
    (pmm : Pmm) : boot.initialise pmm = pmm.pmmInit boot.kernelEnd mmapTag := by
  rw [initialise, description]

theorem initialise_range {boot : Boot} (description : boot.description = .range memBase memSize)
    (pmm : Pmm) : boot.initialise pmm = pmm.pmmInitRange boot.kernelEnd memBase memSize := by
  rw [initialise, description]

/-- No two available regions overlap, and all lie in the address space. -/
structure WellFormed (boot : Boot) : Prop where
  apart : boot.description.regions.Pairwise Region.Apart
  bounded : ∀ region ∈ boot.description.regions, region.last ≤ 2 ^ 64

/-- No computation of an address steps over the end of the address space. -/
structure Clear (boot : Boot) : Prop where
  regions : ∀ region ∈ boot.description.regions, region.Clear
  kernel : boot.kernelEnd + earlyHeapSize + 2 * pmmFrameSize ≤ 2 ^ 64
  reserved : boot.reservedUntil + 2 * pmmFrameSize ≤ 2 ^ 64

theorem reservedEnd_spec {boot : Boot} (clear : boot.Clear) :
    boot.reservedEnd % pmmFrameSize = 0 ∧ boot.reservedEnd + pmmFrameSize < 2 ^ 64 ∧
      earlyHeapSize ≤ boot.reservedEnd := by
  have kernel := clear.kernel
  have reserved := clear.reserved
  simp only [earlyHeapSize, pmmFrameSize] at kernel reserved
  have whole : u64 ((boot.kernelEnd + 4095) / 4096 * 4096 + earlyHeapSize) =
      (boot.kernelEnd + 4095) / 4096 * 4096 + 8 * 1024 * 1024 :=
    Nat.mod_eq_of_lt (by simp only [earlyHeapSize]; omega)
  rw [reservedEnd, Pmm.reservedEnd, mmAlignUp_of_lt (by omega), mmAlignUp_of_lt (by omega), whole]
  simp only [earlyHeapSize, pmmFrameSize]
  by_cases further : (boot.kernelEnd + 4095) / 4096 * 4096 + 8 * 1024 * 1024 < boot.reservedUntil
  · rw [if_pos further]
    omega
  · rw [if_neg further]
    omega

end Boot

/-- A frame that the allocator may hand out. -/
structure Usable (reservedEnd : Nat) (regions : List Region) (frame : Nat) : Prop where
  aligned : frame % pmmFrameSize = 0
  reserved : reservedEnd ≤ frame
  inside : ∃ region ∈ regions, region.Holds frame

structure Registered (reservedEnd : Nat) (regions : List Region) (frames : List Nat) : Prop where
  distinct : frames.Nodup
  usable : ∀ frame ∈ frames, Usable reservedEnd regions frame

theorem Region.Apart.no_common {one two : Region} (apart : one.Apart two) (first : one.Holds frame)
    (second : two.Holds frame) : False := by
  simp only [Region.Apart, Region.Holds, pmmFrameSize] at apart first second
  omega

/-- One more region, apart from those before it. -/
theorem Registered.register {pmm : Pmm} (start : Nat)
    (registered : Registered reservedEnd regions pmm.frames) (clear : region.Clear)
    (apart : ∀ earlier ∈ regions, earlier.Apart region) (aligned : start % pmmFrameSize = 0)
    (small : start + pmmFrameSize < 2 ^ 64 ∨ (region.last = 2 ^ 64 ∧ start + pmmFrameSize ≤ 2 ^ 64))
    (low : region.base ≤ start) (reserved : reservedEnd ≤ start) :
    Registered reservedEnd (regions ++ [region])
      (pmm.registerRegion start (u64 region.last)).frames := by
  rw [Pmm.registerRegion, Pmm.frames_registerFrames]
  have visits := Pmm.framesFrom_visits clear (pmmMaxFreeFrames - pmm.freeFrameCount) aligned small
  have held :
      ∀ frame ∈ Pmm.framesFrom (u64 region.last) (pmmMaxFreeFrames - pmm.freeFrameCount) start,
      region.Holds frame := by
    intro frame member
    exact ⟨Nat.le_trans low (visits.low frame member), visits.inside frame member⟩
  constructor
  case distinct =>
    rw [nodup_append]
    refine ⟨registered.distinct, visits.ordered.imp (fun below => Nat.ne_of_lt below), ?_⟩
    rintro frame earlier _ later rfl
    obtain ⟨other, member, holds⟩ := (registered.usable frame earlier).inside
    exact (apart other member).no_common holds (held frame later)
  case usable =>
    intro frame member
    rcases mem_append.mp member with earlier | later
    · obtain ⟨aligned, reserved, other, member, holds⟩ := registered.usable frame earlier
      exact ⟨aligned, reserved, other, mem_append_left _ member, holds⟩
    · refine ⟨visits.aligned frame later, Nat.le_trans reserved (visits.low frame later), region,
        ?_,
        held frame later⟩
      simp

theorem Registered.entry {entry : Mb2MmapEntry}
    (registered : Registered reservedEnd regions pmm.frames)
    (clear : entry.type = mb2MemoryAvailable → entry.region.Clear)
    (apart : entry.type = mb2MemoryAvailable → ∀ earlier ∈ regions, earlier.Apart entry.region)
    (aligned : reservedEnd % pmmFrameSize = 0) (small : reservedEnd + pmmFrameSize < 2 ^ 64) :
    Registered reservedEnd (regions ++ availableRegions [entry])
      (Pmm.registerEntry reservedEnd pmm entry).frames := by
  by_cases available : entry.type = mb2MemoryAvailable
  · have added : availableRegions [entry] = [entry.region] := by simp [availableRegions, available]
    rw [added, Pmm.registerEntry, if_pos available]
    have clear := clear available
    have base : mmAlignUp entry.baseAddr pmmFrameSize = (entry.baseAddr + 4095) / 4096 * 4096 := by
      apply mmAlignUp_of_lt
      simp only [Region.Clear, Mb2MmapEntry.region, Region.last, pmmFrameSize] at clear
      omega
    have start : Pmm.regionStart reservedEnd entry.baseAddr =
        max (max ((entry.baseAddr + 4095) / 4096 * 4096) pmmMinUsableAddr) reservedEnd := by
      rw [Pmm.regionStart, base]
    simp only [pmmFrameSize] at aligned small
    apply Registered.register (Pmm.regionStart reservedEnd entry.baseAddr) registered clear
      (apart available)
    all_goals
      rw [start]
      simp only [pmmMinUsableAddr, pmmFrameSize]
    · omega
    · simp only [Region.Clear, Mb2MmapEntry.region, Region.last, pmmFrameSize] at clear ⊢
      omega
    · simp only [Mb2MmapEntry.region]
      omega
    · omega
  · have none : availableRegions [entry] = [] := by simp [availableRegions, available]
    rw [none, append_nil, Pmm.registerEntry, if_neg available]
    exact registered

theorem availableRegions_cons (entry : Mb2MmapEntry) (entries : List Mb2MmapEntry) :
    availableRegions (entry :: entries) = availableRegions [entry] ++ availableRegions entries := by
  simp only [availableRegions, filter_cons, filter_nil]
  split <;> rfl

theorem mem_availableRegions {entry : Mb2MmapEntry} (available : entry.type = mb2MemoryAvailable) :
    entry.region ∈ availableRegions [entry] := by
  simp [availableRegions, available]

/-- The whole memory map, one entry after the other. -/
theorem Registered.entries {entries : List Mb2MmapEntry}
    (registered : Registered reservedEnd regions pmm.frames)
    (clear : ∀ region ∈ availableRegions entries, region.Clear)
    (apart : (regions ++ availableRegions entries).Pairwise Region.Apart)
    (aligned : reservedEnd % pmmFrameSize = 0) (small : reservedEnd + pmmFrameSize < 2 ^ 64) :
    Registered reservedEnd (regions ++ availableRegions entries)
      (entries.foldl (Pmm.registerEntry reservedEnd) pmm).frames := by
  induction entries generalizing pmm regions with
  | nil =>
    have none : availableRegions [] = [] := rfl
    rw [none, append_nil]
    exact registered
  | cons entry entries ih =>
    rw [availableRegions_cons] at clear apart ⊢
    rw [← append_assoc] at apart ⊢
    have before := (pairwise_append.mp (pairwise_append.mp apart).1).2.2
    have first := registered.entry
      (fun available => clear _ (mem_append_left _ (mem_availableRegions available)))
      (fun available earlier member => before earlier member _ (mem_availableRegions available))
      aligned small
    exact ih first (fun region member => clear region (mem_append_right _ member)) apart

theorem Registered.range {pmm : Pmm}
    (registered : Registered reservedEnd [] pmm.frames) (clear : region.Clear)
    (aligned : reservedEnd % pmmFrameSize = 0) (small : reservedEnd + pmmFrameSize < 2 ^ 64) :
    Registered reservedEnd [region]
      (pmm.registerRegion (Pmm.rangeStart reservedEnd region.base) (u64 region.last)).frames := by
  have start : Pmm.rangeStart reservedEnd region.base =
      ((if region.base < reservedEnd then reservedEnd else region.base) + 4095) / 4096 * 4096 := by
    rw [Pmm.rangeStart, mmAlignUp_of_lt]
    simp only [Region.Clear, Region.last, pmmFrameSize] at clear small
    split <;> omega
  simp only [pmmFrameSize] at aligned small
  apply Registered.register (Pmm.rangeStart reservedEnd region.base) registered clear
  · simp
  all_goals rw [start]
  · simp only [pmmFrameSize]
    omega
  · simp only [Region.Clear, Region.last, pmmFrameSize] at clear ⊢
    split <;> omega
  · split <;> omega
  · split <;> omega

/-- Every initialisation of a clear description registers distinct usable frames. -/
theorem Boot.registered {boot : Boot} (wellFormed : boot.WellFormed) (clear : boot.Clear)
    (reservation : pmm.reservedUntil = boot.reservedUntil) :
    Registered boot.reservedEnd boot.description.regions (boot.initialise pmm).frames := by
  obtain ⟨aligned, small, -⟩ := reservedEnd_spec clear
  have empty : ∀ regions, Registered boot.reservedEnd regions
      (Pmm.frames { pmm with freeFrameCount := 0 }) := by
    intro regions
    constructor <;> simp [Pmm.frames]
  have same : Pmm.reservedEnd boot.kernelEnd pmm.reservedUntil = boot.reservedEnd := by
    rw [reservation, reservedEnd]
  have apart := wellFormed.apart
  have regionsClear := clear.regions
  cases description : boot.description with
  | memoryMap mmapTag =>
    rw [description] at apart regionsClear
    rw [initialise_memoryMap description]
    cases mmapTag with
    | none => exact empty _
    | some tag =>
      rw [MemoryDescription.regions] at apart regionsClear ⊢
      rw [← nil_append (availableRegions _)] at apart ⊢
      rw [Pmm.pmmInit_some, same]
      exact (empty []).entries regionsClear apart aligned small
  | range memBase memSize =>
    rw [description] at regionsClear
    rw [initialise_range description]
    simp only [Pmm.pmmInitRange, same]
    split
    · exact empty _
    · exact (empty []).range (regionsClear ⟨memBase, memSize⟩ mem_cons_self) aligned small

end Zapada.Mm
