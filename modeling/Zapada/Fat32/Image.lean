import Zapada.Fat32.Fat32Volume

/-! FAT32 images: the geometry in the boot sector, the chains in the first FAT and
the bytes of a file. -/

namespace Zapada.Fat32

open Foundation Storage BufHelper

namespace Image

variable (image : Memory)

def sectorsPerCluster : Nat := (image 13).toNat
def reserved : Nat := image.load 14 2
def fatCount : Nat := (image 16).toNat
def fatSize : Nat := if image.load 22 2 = 0 then image.load 36 4 else image.load 22 2
def dataStart : Nat := reserved image + fatCount image * fatSize image
def clusterSize : Nat := 512 * sectorsPerCluster image

def fatEntry (cluster : Nat) : Nat := image.load (512 * reserved image + 4 * cluster) 4 % 2 ^ 28

def clusterSector (cluster : Nat) : Nat :=
  dataStart image + (cluster - 2) * sectorsPerCluster image

/-- Each cluster's FAT entry names the next one; the last is an end mark. -/
def Linked : List Nat → Prop
  | [] => True
  | [last] => 0x0FFFFFF8 ≤ fatEntry image last
  | cluster :: next :: rest => fatEntry image cluster = next ∧ Linked (next :: rest)

/-- A byte of the file that occupies the clusters. -/
def fileByte (clusters : List Nat) (position : Nat) : UInt8 :=
  match clusters[position / clusterSize image]? with
  | none => 0
  | some cluster => image (512 * clusterSector image cluster + position % clusterSize image)

/-- A regular file of an image of so many sectors: its directory entry's first
cluster and size agree with a chain of data clusters. -/
structure FileOn (sectors : Nat) (firstCluster size : Int) (clusters : List Nat) : Prop where
  linked : Linked image clusters
  start : size ≠ 0 → clusters.head?.map Int.ofNat = some firstCluster
  positive : 0 ≤ size
  enough : size ≤ clusters.length * clusterSize image
  cluster : ∀ c ∈ clusters, 2 ≤ c ∧ c < 0x0FFFFFF8 ∧ 4 * c + 4 ≤ 512 * fatSize image ∧
    clusterSector image c + sectorsPerCluster image ≤ sectors

/-- The file's data sectors have numbers below 2^31. -/
def Reachable (clusters : List Nat) : Prop :=
  ∀ c ∈ clusters, clusterSector image c + sectorsPerCluster image ≤ 2 ^ 31

end Image

/-- The volume was mounted from the image. -/
structure Mounted (volume : Fat32Volume) (image : Memory) : Prop where
  bps : volume.bps = 512
  spc : volume.spc = Image.sectorsPerCluster image
  spcPositive : 0 < Image.sectorsPerCluster image
  fatStart : volume.fatStart = Image.reserved image
  fatCount : 0 < Image.fatCount image
  dataStart : Image.dataStart image < 2 ^ 31 → volume.dataStart = Image.dataStart image
  holds : volume.partition.Holds image

theorem toInt_ofNat_small (small : value < 2 ^ 31) : (BitVec.ofNat 32 value).toInt = value := by
  have low : value % 2 ^ 32 = value := Nat.mod_eq_of_lt (by omega)
  rw [BitVec.toInt_eq_toNat_of_lt] <;> rw [BitVec.toNat_ofNat, low]
  omega

theorem toInt_ofNat_positive (inWord : value < 2 ^ 32)
    (positive : 0 < (BitVec.ofNat 32 value).toInt) :
    (BitVec.ofNat 32 value).toInt = value := by
  rw [BitVec.toInt_eq_toNat_cond, BitVec.toNat_ofNat, Nat.mod_eq_of_lt inWord] at *
  split at positive
  · rw [if_pos ‹_›]
  · omega

theorem int32_sum {base count size : Nat} (small : base + count * size < 2 ^ 31) :
    int32 ((base : Int) + int32 ((count : Int) * size)) = (base + count * size : Nat) := by
  have product : (count : Int) * size = (count * size : Nat) := by push_cast; rfl
  have inner : int32 ((count * size : Nat) : Int) = (count * size : Nat) :=
    int32_of_range (by omega) (by omega)
  rw [product, inner, int32_of_range (by omega) (by omega)]
  omega

theorem readSector_holds (holds : view.Holds image)
    (low : 0 ≤ lba) (high : lba < view.sectorCount) :
    readSector view lba = .ok (packSector fun i => image (512 * lba.toNat + i)) := by
  have served := holds.readSectors low (show (0 : Int) < 1 by omega) (by omega)
  simp only [readSector, served]
  rw [if_neg (by omega), if_neg (by omega), if_neg (by omega)]

theorem sectors_of_mount (mounts : initializeVolume (some view) = .ok volume) :
    0 < view.sectorCount := by
  by_contra none_left
  have failed : ∃ memory, view.readSectors 0 1 = (StorageStatus.invalidArgument, memory) := by
    have beyond : (0 : Int) < 0 ∨ view.sectorCount < int64 (0 + 1) := by
      rw [int64_of_range (by decide) (by decide)]
      omega
    simp only [PartitionView.readSectors]
    split
    · exact ⟨_, rfl⟩
    · rw [if_neg (by decide), if_pos beyond]
      exact ⟨_, rfl⟩
  obtain ⟨memory, failed⟩ := failed
  have negative : StorageStatus.invalidArgument < 0 := by decide
  simp [initializeVolume, readSector, failed, negative] at mounts

theorem mounted_initializeVolume {view : PartitionView} (holds : view.Holds image)
    (mounts : initializeVolume (some view) = .ok volume) :
    Mounted volume image ∧ volume.partition = view ∧ (∀ t, volume.tokens t = .closed) ∧
      volume.dataStart = int32 (Image.dataStart image) := by
  have some_sector := sectors_of_mount mounts
  have boot := readSector_holds holds (Int.le_refl 0) some_sector
  have sector : (fun i => image (512 * (0 : Int).toNat + i)) = image := by
    simp
  rw [sector] at boot
  have word : ∀ off, off + 1 < 512 → (getWord (packSector image) off).toInt = image.load off 2 := by
    intro off inside
    have small := image.load_lt off 2
    rw [getWord_packSector image inside, toInt_ofNat_small (by omega)]
  have byte : ∀ off, off < 512 → (getByte (packSector image) off).toInt = (image off).toNat := by
    intro off inside
    have small := (image off).toNat_lt
    rw [getByte_packSector image inside, toInt_ofNat_small (by omega)]
  have spcByte := byte 13 (by omega)
  have spcNat : (getByte (packSector image) 13).toNat = (image 13).toNat := by
    have small := (image 13).toNat_lt
    rw [getByte_packSector image (by omega), BitVec.toNat_ofNat, Nat.mod_eq_of_lt (by omega)]
  simp only [initializeVolume, boot, word 11 (by omega), word 14 (by omega), byte 16 (by omega),
    word 22 (by omega), spcNat] at mounts
  generalize isSize : (if (image.load 22 2 : Int) ≠ 0 then (image.load 22 2 : Int)
    else (getDword (packSector image) 36).toInt) = size at mounts
  split at mounts
  · contradiction
  · rename_i bps
    split at mounts
    · contradiction
    · rename_i valid
      simp only [not_or, isPowerOfTwo, not_not, decide_eq_true_eq, spcByte] at valid
      split at mounts
      · contradiction
      · rename_i positive
        obtain rfl : size = Image.fatSize image := by
          simp only [Image.fatSize]
          split at isSize
          · rw [if_neg (by omega), ← isSize]
          · rw [getDword_packSector image (by omega)] at isSize
            rw [if_pos (by omega), ← isSize]
            exact toInt_ofNat_positive (image.load_lt 36 4) (by omega)
        simp only [Except.ok.injEq] at mounts
        subst mounts
        refine ⟨⟨?_, rfl, ?_, rfl, ?_, fun small => ?_, holds⟩, rfl, fun _ => rfl, ?_⟩
        · simp only
          omega
        · simp only [Image.sectorsPerCluster]
          omega
        · simp only [Image.fatCount]
          omega
        · simp only [Image.dataStart, Image.reserved, Image.fatCount] at small ⊢
          exact int32_sum small
        · simp only [Image.dataStart, Image.reserved, Image.fatCount, int32, Int.add_bmod_bmod]
          rfl

theorem nodes_initializeVolume
    (mounts : initializeVolume partition = .ok volume) (i : Fin maxNodes) :
    volume.nodes i = if i.val = 0 then ⟨true, volume.rootCluster, 0, 2⟩ else ⟨false, 0, 0, 0⟩ := by
  unfold initializeVolume at mounts
  split at mounts
  · cases mounts
  split at mounts
  · cases mounts
  dsimp only at mounts
  split at mounts
  · cases mounts
  split at mounts
  · cases mounts
  generalize (if (getWord _ 22).toInt ≠ 0 then (getWord _ 22).toInt else _) = fatSize at mounts
  split at mounts
  · cases mounts
  · cases mounts
    rfl

end Zapada.Fat32
