import Zapada.Mm.Pmm

namespace Zapada.Mm

open Foundation List

namespace Region

def Covers (region : Region) (address : Nat) : Prop := region.base ≤ address ∧ address < region.last

def Disjoint (one two : Region) : Prop := ∀ address, one.Covers address → ¬ two.Covers address

theorem disjoint_iff (one two : Region) : one.Disjoint two ↔ one.length = 0 ∨ two.length = 0 ∨
      one.Apart two := by
  simp only [Disjoint, Covers, Apart, last]
  constructor
  · intro disjoint
    have first := disjoint one.base
    have second := disjoint two.base
    omega
  · intro apart address
    omega

end Region

def frameRegion (frame : Nat) : Region := ⟨frame, pmmFrameSize⟩

/-- Frames that follow each other, from 0 again after the last one of the address space. -/
structure FrameRun where
  start : Nat
  count : Nat

namespace FrameRun

def frames (run : FrameRun) : List Nat :=
  (range run.count).map fun j => u64 (run.start + j * pmmFrameSize)

/-- The number of frames up to the end of the address space. -/
def top (run : FrameRun) : Nat := (2 ^ 64 - run.start) / pmmFrameSize

/-- The addresses from the start up, and those that are reached after wrapping. -/
def ranges (run : FrameRun) : List Region :=
  [⟨run.start, min run.count run.top * pmmFrameSize⟩, ⟨0, (run.count - run.top) * pmmFrameSize⟩]

structure Valid (run : FrameRun) : Prop where
  aligned : run.start % pmmFrameSize = 0
  small : run.start < 2 ^ 64
  few : run.count ≤ pmmMaxFreeFrames

theorem covers_iff {run : FrameRun} (valid : run.Valid) (address : Nat) :
    (∃ frame ∈ run.frames, (frameRegion frame).Covers address) ↔
      ∃ range ∈ run.ranges, range.Covers address := by
  obtain ⟨aligned, small, few⟩ := valid
  have whole : run.start + run.top * 4096 = 2 ^ 64 := by
    simp only [top, pmmFrameSize] at aligned ⊢
    omega
  simp only [pmmFrameSize, pmmMaxFreeFrames] at aligned few
  simp only [frames, ranges, mem_map, mem_range, mem_cons, not_mem_nil, or_false,
    frameRegion, Region.Covers, Region.last, pmmFrameSize]
  constructor
  · rintro ⟨_, ⟨j, below, rfl⟩, low, high⟩
    simp only [u64] at low high
    by_cases wraps : run.top ≤ j
    · exact ⟨_, .inr rfl, by simp only; omega⟩
    · exact ⟨_, .inl rfl, by simp only; omega⟩
  · rintro ⟨range, rfl | rfl, low, high⟩
    · simp only at low high
      refine ⟨_, ⟨(address - run.start) / 4096, by omega, rfl⟩, ?_⟩
      simp only [u64]
      omega
    · simp only at low high
      refine ⟨_, ⟨run.top + address / 4096, by omega, rfl⟩, ?_⟩
      simp only [u64]
      omega

/-- The frames of a run keep clear of a region exactly if its ranges do. -/
theorem disjoint_iff {run : FrameRun} (valid : run.Valid) (region : Region) :
    (∀ frame ∈ run.frames, region.Disjoint (frameRegion frame)) ↔
      ∀ range ∈ run.ranges, region.Disjoint range := by
  constructor
  · intro disjoint range member address first second
    obtain ⟨frame, present, covers⟩ := (covers_iff valid address).mpr ⟨range, member, second⟩
    exact disjoint frame present address first covers
  · intro disjoint frame member address first second
    obtain ⟨range, present, covers⟩ := (covers_iff valid address).mp ⟨frame, member, second⟩
    exact disjoint range present address first covers

theorem pairwise {run : FrameRun} (valid : run.Valid) :
    run.frames.Pairwise fun one two => (frameRegion one).Disjoint (frameRegion two) := by
  obtain ⟨aligned, small, few⟩ := valid
  simp only [pmmFrameSize, pmmMaxFreeFrames] at aligned few
  rw [frames, pairwise_map]
  apply List.Pairwise.imp_of_mem _ pairwise_lt_range
  intro one two first second below address
  have bound := mem_range.mp second
  simp only [frameRegion, Region.Covers, Region.last, pmmFrameSize, u64]
  omega

end FrameRun

/-- How many frames the loop over a region registers. -/
def frameCount (regionEnd room start : Nat) : Nat :=
  if 2 ^ 64 ≤ regionEnd + pmmFrameSize then room
  else if start + pmmFrameSize = 2 ^ 64 then min room (1 + regionEnd / pmmFrameSize)
  else min room ((regionEnd - start) / pmmFrameSize)

theorem frameCount_le (regionEnd room start : Nat) : frameCount regionEnd room start ≤ room := by
  unfold frameCount
  split
  · exact Nat.le_refl _
  · split <;> exact Nat.min_le_left _ _

theorem frameCount_step (aligned : start % pmmFrameSize = 0) (small : start < 2 ^ 64)
    (bounded : regionEnd < 2 ^ 64) (room : Nat) : frameCount regionEnd (room + 1) start =
      if u64 (start + pmmFrameSize) ≤ regionEnd then
        frameCount regionEnd room (u64 (start + pmmFrameSize)) + 1 else 0 := by
  have size : pmmFrameSize = 4096 := rfl
  rw [size] at aligned
  rw [frameCount, frameCount]
  by_cases full : 2 ^ 64 ≤ regionEnd + pmmFrameSize
  · rw [if_pos full, if_pos full, if_pos]
    simp only [u64]
    omega
  · rw [if_neg full, if_neg full]
    by_cases last : start + pmmFrameSize = 2 ^ 64
    · have zero : u64 (start + pmmFrameSize) = 0 := by rw [last, u64, Nat.mod_self]
      rw [if_pos last, zero, if_pos (Nat.zero_le _), if_neg (by omega), size]
      omega
    · have next : u64 (start + pmmFrameSize) = start + 4096 := Nat.mod_eq_of_lt (by omega)
      rw [if_neg last, next]
      by_cases fits : start + 4096 ≤ regionEnd
      · rw [if_pos fits, if_neg (by omega), size]
        omega
      · rw [if_neg fits, size]
        omega

theorem framesFrom_eq (aligned : start % pmmFrameSize = 0) (small : start < 2 ^ 64)
    (bounded : regionEnd < 2 ^ 64) (room : Nat) :
    Pmm.framesFrom regionEnd room start = FrameRun.frames ⟨start,
      frameCount regionEnd room start⟩ := by
  induction room generalizing start with
  | zero =>
    have none : frameCount regionEnd 0 start = 0 := Nat.le_zero.mp (frameCount_le _ _ _)
    rw [none]
    rfl
  | succ room ih =>
    have next : u64 (start + pmmFrameSize) % pmmFrameSize = 0 ∧
      u64 (start + pmmFrameSize) < 2 ^ 64 := by
      simp only [pmmFrameSize] at aligned
      simp only [u64, pmmFrameSize]
      omega
    rw [frameCount_step aligned small bounded, Pmm.framesFrom]
    split
    · rw [ih next.1 next.2]
      have first : u64 (start + 0 * pmmFrameSize) = start := by
        rw [Nat.zero_mul, Nat.add_zero, u64, Nat.mod_eq_of_lt small]
      simp only [FrameRun.frames, range_succ_eq_map, map_cons, map_map, first]
      apply congrArg (cons start)
      apply map_congr_left
      simp only [Function.comp_apply, u64, pmmFrameSize]
      omega
    · rfl

theorem frames_registerRegion (pmm : Pmm) (aligned : start % pmmFrameSize = 0)
    (small : start < 2 ^ 64) (bounded : regionEnd < 2 ^ 64) :
    (pmm.registerRegion start regionEnd).frames = pmm.frames ++ FrameRun.frames
      ⟨start, frameCount regionEnd (pmmMaxFreeFrames - pmm.freeFrameCount) start⟩ := by
  rw [Pmm.registerRegion, Pmm.frames_registerFrames, framesFrom_eq aligned small bounded]

end Zapada.Mm
