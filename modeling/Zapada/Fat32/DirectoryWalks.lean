import Zapada.Fat32.DirectoryEntries
import Zapada.Fat32.Reading

namespace Zapada.Fat32

open Foundation Storage Image List

namespace Image

variable (image : Memory)

/-- A chain of data clusters that can hold a directory. FAT32 numbers sectors with 32 bits. -/
structure Chain (sectors : Nat) (clusters : List Nat) : Prop where
  linked : Linked image clusters
  cluster : ∀ c ∈ clusters, 2 ≤ c ∧ c < 0x0FFFFFF8 ∧ 4 * c + 4 ≤ 512 * fatSize image ∧
    clusterSector image c + sectorsPerCluster image ≤ sectors
  numbered : ∀ c ∈ clusters, clusterSector image c + sectorsPerCluster image ≤ 2 ^ 32

def clusterSectors (cluster : Nat) : List Nat :=
  (range (sectorsPerCluster image)).map (clusterSector image cluster + ·)

def dirSectors (clusters : List Nat) : List Nat := clusters.flatMap (clusterSectors image)

def sectorRecords (sector : Nat) : List Record :=
  (range dirEntriesPerSector).map fun ent =>
    recordAt (fun i => image (512 * sector + i)) (ent * dirEntrySize)

def records (sectors : List Nat) : List Record := sectors.flatMap (sectorRecords image)

/-- The records of a directory before the end mark. -/
def entries (clusters : List Nat) : List Record :=
  (records image (dirSectors image clusters)).takeWhile (!·.isEnd)

/-- The sectors that a walk gets to: it follows 128 clusters and cannot address a
sector beyond 2^31. -/
def scannedSectors (clusters : List Nat) : List Nat :=
  (dirSectors image (clusters.take maxClusterChain)).takeWhile (· < 2 ^ 31)

end Image

/-- A mounted volume, with the start of its data as the driver computes it. -/
structure MountedAt (volume : Fat32Volume) (image : Memory) :
    Prop extends Mounted volume image where
  wrapped : volume.dataStart = int32 (Image.dataStart image)

theorem readSector_unreachable (view : PartitionView) {sector : Nat} (beyond : 2 ^ 31 ≤ sector)
    (numbered : sector < 2 ^ 32) :
    readSector view (int32 sector) = .error StorageStatus.invalidArgument := by
  have negative : int32 (sector : Int) < 0 := by
    unfold int32
    rw [Int.bmod_def]
    split <;> omega
  rw [readSector, if_pos negative]

theorem MountedAt.lba_eq (mounted : MountedAt volume image) {c : Nat} (low : 2 ≤ c) (sec : Nat) :
    int32 (volume.clusterToLba c + sec) = int32 (clusterSector image c + sec : Nat) := by
  have index : (c : Int) - 2 = (c - 2 : Nat) := by omega
  rw [Fat32Volume.clusterToLba, mounted.wrapped, mounted.spc, index, clusterSector]
  simp only [int32, Int.bmod_add_bmod, Int.add_bmod_bmod]
  rfl

namespace DirectoryWalk

variable {σ ρ : Type} (walk : DirectoryWalk σ ρ)

/-- The walk over given sectors of a partition. -/
def overSectors (partition : PartitionView) (sectors : List Nat) (state : σ) : Except ρ σ :=
  sectors.foldlM (fun state (sector : Nat) => walk.overLba partition (int32 sector) state) state

theorem overSectors_append (partition : PartitionView) (front back : List Nat) (state : σ) :
    walk.overSectors partition (front ++ back) state =
      walk.overSectors partition front state >>= walk.overSectors partition back :=
  foldlM_append

theorem overCluster_eq (mounted : MountedAt volume image) {c : Nat} (low : 2 ≤ c) (state : σ) :
    walk.overCluster volume (volume.clusterToLba c) state =
      walk.overSectors volume.partition (clusterSectors image c) state := by
  simp [overCluster, overSectors, clusterSectors, foldlM_map, mounted.spc, mounted.lba_eq low]

theorem overChain_eq (mounted : MountedAt volume image)
    (chain : Image.Chain image volume.partition.sectorCount.toNat clusters)
    (start : clusters.head? = some c) (depth : Nat) (state : σ) :
    walk.overChain volume depth c state =
      walk.overSectors volume.partition (dirSectors image (clusters.take depth)) state := by
  induction depth generalizing clusters c state with
  | zero => rfl
  | succ depth ih =>
    cases clusters with
    | nil => cases start
    | cons first rest =>
      cases start
      obtain ⟨low, high, inFat, inside⟩ := chain.cluster c (by simp)
      have goesOn : ¬ (isEoc (c : Int) = true ∨ (c : Int) < 2) := by
        rw [isEoc_cluster high]
        simp
        omega
      have small : fatEntry image c < 2 ^ 28 := Nat.mod_lt _ (by decide)
      have positive : ¬ ((fatEntry image c : Nat) : Int) < 0 := by omega
      rw [overChain, if_neg goesOn, walk.overCluster_eq mounted low,
        mounted.readFatEntry_eq high inFat inside]
      simp only [if_neg positive, take_succ_cons, dirSectors, flatMap_cons]
      rw [overSectors_append]
      congr 1
      funext state
      cases rest with
      | nil =>
        rw [if_pos ((isEoc_iff small).mpr chain.linked)]
        simp [overSectors]
        rfl
      | cons next rest =>
        obtain ⟨link, linked⟩ := chain.linked
        have bound := (chain.cluster next (by simp)).2.1
        rw [link, isEoc_cluster bound, if_neg (by simp)]
        exact ih ⟨linked, fun d member => chain.cluster d (by simp [member]),
          fun d member => chain.numbered d (by simp [member])⟩ rfl state

/-- What the walk does with a record of the directory. -/
def Respects (step : σ → Record → Except ρ σ) : Prop :=
  ∀ state sector entOff, entOff + 31 < 512 →
    walk.visit state (packSector sector) entOff = step state (recordAt sector entOff)

variable {walk} {step : σ → Record → Except ρ σ}

theorem Respects.overSector_eq (respects : walk.Respects step) (image : Memory) (sector : Nat)
    (state : σ) :
    walk.overSector (packSector fun i => image (512 * sector + i)) state =
      (sectorRecords image sector).foldlM step state := by
  have along : ∀ (ents : List Nat) (state : σ), (∀ ent ∈ ents, ent < dirEntriesPerSector) →
      ents.foldlM (fun state (ent : Nat) => walk.visit state
        (packSector fun i => image (512 * sector + i)) (ent * dirEntrySize)) state =
      (ents.map fun ent => recordAt (fun i => image (512 * sector + i)) (ent * dirEntrySize)).foldlM
        step state := by
    intro ents
    induction ents with
    | nil => intros; rfl
    | cons ent rest ih =>
      intro state low
      have inside : ent * dirEntrySize + 31 < 512 := by
        have := low ent (by simp)
        simp only [dirEntriesPerSector, dirEntrySize] at *
        omega
      rw [foldlM_cons, map_cons, foldlM_cons, respects _ _ _ inside]
      congr 1
      funext state
      exact ih state fun ent member => low ent (by simp [member])
  exact along _ state fun ent member => mem_range.mp member

/-- A walk that got to the end, or that was cut off by a sector it cannot address. -/
def finish (walk : DirectoryWalk σ ρ) (complete : Bool) : Except ρ σ → Except ρ σ
  | .error result => .error result
  | .ok state => if complete then .ok state else .error (walk.failed state)

theorem Respects.overSectors_eq (respects : walk.Respects step) (holds : view.Holds image)
    (inside : ∀ sector ∈ sectors, sector < view.sectorCount.toNat ∧ sector < 2 ^ 32) (state : σ) :
    walk.overSectors view sectors state = walk.finish (sectors.all (· < 2 ^ 31))
      ((records image (sectors.takeWhile (· < 2 ^ 31))).foldlM step state) := by
  induction sectors generalizing state with
  | nil => rfl
  | cons sector rest ih =>
    obtain ⟨inPartition, numbered⟩ := inside sector (by simp)
    rw [overSectors, foldlM_cons]
    by_cases reachable : sector < 2 ^ 31
    · have exact : int32 (sector : Int) = sector := int32_of_range (by omega) (by omega)
      rw [overLba, exact, readSector_holds holds (by omega) (by omega), Int.toNat_natCast]
      simp only [respects.overSector_eq, takeWhile_cons, reachable, decide_true, if_true,
        records, flatMap_cons, foldlM_append, all_cons, Bool.true_and]
      cases (sectorRecords image sector).foldlM step state with
      | error result => rfl
      | ok state => exact ih (fun sector member => inside sector (by simp [member])) state
    · rw [overLba, readSector_unreachable view (by omega) numbered]
      simp only [takeWhile_cons, reachable, decide_false, all_cons, Bool.false_and]
      rfl

end DirectoryWalk

theorem Image.Chain.sectors_inside {clusters : List Nat}
    (chain : Image.Chain image sectors clusters)
    (depth : Nat) : ∀ sector ∈ dirSectors image (clusters.take depth), sector < sectors ∧
      sector < 2 ^ 32 := by
  intro sector member
  simp only [dirSectors, mem_flatMap, clusterSectors, mem_map, mem_range] at member
  obtain ⟨c, taken, sec, low, rfl⟩ := member
  have present := mem_of_mem_take taken
  have bound := (chain.cluster c present).2.2.2
  have numbered := chain.numbered c present
  omega

def Image.scanned (image : Memory) (clusters : List Nat) : List Record :=
  Image.records image (Image.scannedSectors image clusters)

/-- A walk goes over the records it can get to, one after the other. -/
theorem DirectoryWalk.Respects.overChain_eq {walk : DirectoryWalk σ ρ}
    (respects : walk.Respects step) (mounted : MountedAt volume image)
    (chain : Image.Chain image volume.partition.sectorCount.toNat clusters)
    (start : clusters.head? = some c) (state : σ) :
    ∃ complete, walk.overChain volume maxClusterChain c state =
      walk.finish complete ((scanned image clusters).foldlM step state) := by
  rw [walk.overChain_eq mounted chain start,
    respects.overSectors_eq mounted.holds (chain.sectors_inside maxClusterChain)]
  exact ⟨_, rfl⟩

end Zapada.Fat32
