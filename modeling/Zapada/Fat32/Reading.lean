import Zapada.Fat32.Image

namespace Zapada.Fat32

open Foundation Storage Image BitVec List

/-- A mounted volume with one of its files, whose sectors the driver can address. -/
structure FileAt (volume : Fat32Volume) (image : Memory) (firstCluster size : Int)
    (clusters : List Nat) : Prop where
  mounted : Mounted volume image
  file : Image.FileOn image volume.partition.sectorCount.toNat firstCluster size clusters
  reachable : Image.Reachable image clusters

theorem toInt_and_mask (value : Nat) :
    (BitVec.ofNat 32 value &&& 0x0FFFFFFF#32).toInt = (value % 2 ^ 28 : Nat) := by
  have masked : (BitVec.ofNat 32 value &&& 0x0FFFFFFF#32).toNat = value % 2 ^ 28 := by
    rw [BitVec.toNat_and, BitVec.toNat_ofNat]
    have mask : (0x0FFFFFFF#32).toNat = 2 ^ 28 - 1 := by decide
    rw [mask, Nat.and_two_pow_sub_one_eq_mod, Nat.mod_mod_of_dvd _ (by decide)]
  rw [toInt_eq_toNat_of_lt] <;> rw [masked]
  omega

theorem isEoc_iff {entry : Nat} (small : entry < 2 ^ 28) : isEoc (entry : Int) = true ↔
      0x0FFFFFF8 ≤ entry := by
  have masked : (BitVec.ofInt 32 (entry : Int) &&& 0x0FFFFFFF#32).toNat = entry := by
    have mask : (0x0FFFFFFF#32).toNat = 2 ^ 28 - 1 := by decide
    rw [ofInt_natCast, toNat_and, toNat_ofNat, mask, Nat.and_two_pow_sub_one_eq_mod]
    omega
  rw [isEoc, decide_eq_true_eq, le_def, masked]
  rfl

theorem isEoc_cluster {cluster : Nat} (small : cluster < 0x0FFFFFF8) :
    isEoc (cluster : Int) = false := by
  rw [Bool.eq_false_iff, ne_eq, isEoc_iff (by omega)]
  omega

theorem Mounted.readFatEntry_eq (mounted : Mounted volume image)
    (high : c < 0x0FFFFFF8) (inFat : 4 * c + 4 ≤ 512 * Image.fatSize image)
    (inside : Image.clusterSector image c + sectorsPerCluster image ≤
      volume.partition.sectorCount.toNat) : volume.readFatEntry c = fatEntry image c := by
  have reserved : Image.reserved image < 256 ^ 2 := image.load_lt 14 2
  have oneFat : Image.fatSize image ≤ Image.fatCount image * Image.fatSize image :=
    Nat.le_mul_of_pos_left _ mounted.fatCount
  have byteOff : int32 ((c : Int) * 4) = (4 * c : Nat) := by
    rw [int32_of_range (by omega) (by omega)]
    omega
  have sector : int32 (volume.fatStart + ((4 * c : Nat) : Int).tdiv volume.bps) =
      (Image.reserved image + 4 * c / 512 : Nat) := by
    rw [mounted.fatStart, mounted.bps, Int.tdiv_eq_ediv_of_nonneg (by omega)]
    rw [int32_of_range (by omega) (by omega)]
    omega
  have place : (((4 * c : Nat) : Int).tmod volume.bps).toNat = 4 * c % 512 := by
    rw [mounted.bps, Int.tmod_eq_emod_of_nonneg (by omega)]
    omega
  have inPartition :
      ((Image.reserved image + 4 * c / 512 : Nat) : Int) < volume.partition.sectorCount := by
    simp only [Image.clusterSector, Image.dataStart] at inside
    omega
  simp only [Fat32Volume.readFatEntry, byteOff, sector, place]
  rw [readSector_holds mounted.holds (by omega) inPartition]
  simp only [Int.toNat_natCast]
  rw [BufHelper.getDword_packSector _ (by omega), toInt_and_mask, Memory.load_window, fatEntry]
  have address : 512 * (Image.reserved image + 4 * c / 512) + 4 * c % 512 =
      512 * Image.reserved image + 4 * c := by omega
  rw [address]

namespace FileAt

variable {volume : Fat32Volume} {image : Memory} {clusters : List Nat} {c d j : Nat}

section

variable (fileAt : FileAt volume image firstCluster size clusters)

include fileAt

theorem readFatEntry_eq (member : c ∈ clusters) : volume.readFatEntry c = fatEntry image c := by
  obtain ⟨-, high, inFat, inside⟩ := fileAt.file.cluster c member
  exact fileAt.mounted.readFatEntry_eq high inFat inside

theorem clusterToLba_eq
    (member : c ∈ clusters) : volume.clusterToLba c = clusterSector image c := by
  obtain ⟨low, -, -, -⟩ := fileAt.file.cluster c member
  have reach := fileAt.reachable c member
  have spc := fileAt.mounted.spcPositive
  simp only [clusterSector] at *
  have start := fileAt.mounted.dataStart (by omega)
  have index : (c : Int) - 2 = (c - 2 : Nat) := by omega
  rw [Fat32Volume.clusterToLba, start, fileAt.mounted.spc, index]
  exact int32_sum (by omega)

theorem next_cluster (here : clusters[j]? = some c) (there : clusters[j + 1]? = some d) :
    volume.readFatEntry c = d := by
  rw [fileAt.readFatEntry_eq (mem_of_getElem? here)]
  have linked := fileAt.file.linked
  have along : ∀ (clusters : List Nat) (j : Nat), Image.Linked image clusters →
      clusters[j]? = some c → clusters[j + 1]? = some d → fatEntry image c = d := by
    intro clusters
    induction clusters with
    | nil => simp
    | cons first rest ih =>
      intro j linked here there
      cases rest with
      | nil => simp at there
      | cons second rest =>
        obtain ⟨link, linked⟩ := linked
        cases j with
        | zero =>
          simp only [List.getElem?_cons_zero, Option.some.injEq] at here
          simp only [Nat.zero_add, List.getElem?_cons_succ, List.getElem?_cons_zero,
            Option.some.injEq] at there
          rw [← here, link, there]
        | succ j => exact ih j linked (by simpa using here) (by simpa using there)
  rw [along clusters j linked here there]

theorem walkFat_eq (here : clusters[j]? = some c) (there : clusters[j + steps]? = some d) :
    volume.walkFat steps c = some (d : Int) := by
  induction steps generalizing j c with
  | zero =>
    rw [Nat.add_zero, here, Option.some.injEq] at there
    rw [Fat32Volume.walkFat, there]
  | succ steps ih =>
    have inside : j + 1 < clusters.length := by
      have := (List.getElem?_eq_some_iff.mp there).1
      omega
    obtain ⟨e, next⟩ : ∃ e, clusters[j + 1]? = some e := ⟨_, List.getElem?_eq_getElem inside⟩
    obtain ⟨low, high, -, -⟩ := fileAt.file.cluster e (mem_of_getElem? next)
    have good : ¬ ((e : Int) < 0 ∨ isEoc (e : Int) = true ∨ (e : Int) < 2) := by
      rw [isEoc_cluster high]
      simp
      omega
    rw [Fat32Volume.walkFat, fileAt.next_cluster here next, if_neg good]
    exact ih next (by rw [← there]; congr 1; omega)

end

end FileAt

theorem fileByte_at (here : clusters[j]? = some c)
    (inside : r < clusterSize image) : fileByte image clusters (j * clusterSize image + r) =
      image (512 * clusterSector image c + r) := by
  have index : (j * clusterSize image + r) / clusterSize image = j := by
    rw [Nat.mul_comm, Nat.mul_add_div (by omega), Nat.div_eq_of_lt inside, Nat.add_zero]
  have place : (j * clusterSize image + r) % clusterSize image = r := by
    rw [Nat.mul_comm, Nat.mul_add_mod, Nat.mod_eq_of_lt inside]
  simp [fileByte, index, place, here]

theorem copySector_spec (sector : Memory) (byteInSector target wanted : Nat) (buffer : Buffer)
    (inside : byteInSector + wanted ≤ 512) :
    (Fat32Volume.copySector (packSector sector) byteInSector target wanted buffer).length =
      buffer.length ∧
      ∀ i, (Fat32Volume.copySector (packSector sector) byteInSector target wanted buffer).bytes i =
        if target ≤ i ∧
          i < target + wanted then sector (byteInSector + (i - target)) else buffer.bytes i := by
  induction wanted with
  | zero =>
    refine ⟨rfl, fun i => ?_⟩
    rw [if_neg (by omega)]
    rfl
  | succ wanted ih =>
    obtain ⟨length, bytes⟩ := ih (by omega)
    simp only [Fat32Volume.copySector, range_succ, foldl_append, foldl_cons,
      foldl_nil] at length bytes ⊢
    refine ⟨length, fun i => ?_⟩
    have byte := BufHelper.getByte_packSector sector (show byteInSector + wanted < 512 by omega)
    have small := (sector (byteInSector + wanted)).toNat_lt
    rw [byte, toNat_ofNat, Nat.mod_eq_of_lt (by omega), UInt8.ofNat_toNat]
    rw [Buffer.bytes_set]
    by_cases last : i = target + wanted
    · subst last
      rw [Function.update_self, if_pos (by omega), Nat.add_sub_cancel_left]
    · rw [Function.update_of_ne last, bytes]
      have same : (target ≤ i ∧ i < target + wanted) ↔
        (target ≤ i ∧ i < target + (wanted + 1)) := by
        omega
      simp [same]

/-- The cached pair of a token stands for its logical offset; the offset in the
cluster may be the cluster's end. -/
def Cached (image : Memory) (clusters : List Nat) (token : Token) : Prop :=
  ∃ (j c : Nat), clusters[j]? = some c ∧ token.currentCluster = c ∧
    token.offset = j * Image.clusterSize image + token.offsetInCluster ∧
    token.offsetInCluster ≤ Image.clusterSize image

structure SameFile (token token' : Token) : Prop where
  isOpen : token'.isOpen = token.isOpen
  nodeHandle : token'.nodeHandle = token.nodeHandle
  firstCluster : token'.firstCluster = token.firstCluster
  fileSize : token'.fileSize = token.fileSize

/-- What a read of `got` bytes does to the token and the caller's buffer. -/
structure Delivers (image : Memory) (clusters : List Nat) (token token' : Token)
    (buffer buffer' : Buffer) (target got : Nat) : Prop where
  same : SameFile token token'
  offset : token'.offset = token.offset + got
  length : buffer'.length = buffer.length
  bytes : ∀ i, buffer'.bytes i = if target ≤ i ∧ i < target + got then
    Image.fileByte image clusters (token.offset + (i - target)) else buffer.bytes i

theorem Delivers.refl (token : Token) (buffer : Buffer) (target : Nat) :
    Delivers image clusters token token buffer buffer target 0 := by
  refine ⟨⟨rfl, rfl, rfl, rfl⟩, rfl, rfl, fun i => ?_⟩
  rw [if_neg (by omega)]

theorem Delivers.trans (one : Delivers image clusters token middle buffer between target first)
    (two : Delivers image clusters middle token' between buffer' (target + first) second) :
    Delivers image clusters token token' buffer buffer' target (first + second) := by
  refine ⟨⟨?_, ?_, ?_, ?_⟩, ?_, two.length.trans one.length, fun i => ?_⟩
  · exact two.same.isOpen.trans one.same.isOpen
  · exact two.same.nodeHandle.trans one.same.nodeHandle
  · exact two.same.firstCluster.trans one.same.firstCluster
  · exact two.same.fileSize.trans one.same.fileSize
  · rw [two.offset, one.offset]
    omega
  · rw [two.bytes, one.offset, one.bytes]
    by_cases later : target + first ≤ i ∧ i < target + first + second
    · have position :
          token.offset + first + (i - (target + first)) = token.offset + (i - target) := by
        omega
      rw [if_pos later, if_pos (by omega), position]
    · rw [if_neg later]
      have same : (target ≤ i ∧ i < target + first) ↔
        (target ≤ i ∧ i < target + (first + second)) := by omega
      simp [same]

/-- What the loop does that has `missing` bytes to go: it delivers them and leaves a
good cache. -/
structure Copies (image : Memory) (clusters : List Nat) (token token' : Token)
    (buffer buffer' : Buffer) (target missing : Nat) : Prop where
  delivers : Delivers image clusters token token' buffer buffer' target missing
  cached : Cached image clusters token'

namespace FileAt

variable {volume : Fat32Volume} {image : Memory} {clusters : List Nat} {token : Token} {c j : Nat}

theorem copies_sector (fileAt : FileAt volume image firstCluster size clusters)
    (here : clusters[j]? = some c) (cluster : token.currentCluster = c)
    (position : token.offset = j * clusterSize image + token.offsetInCluster)
    (inCluster : token.offsetInCluster < clusterSize image)
    (inSector : token.offsetInCluster % 512 + wanted ≤ 512) (buffer : Buffer) (target : Nat) :
    ∃ secBuf, readSector volume.partition
        (int32 (volume.clusterToLba token.currentCluster + (token.offsetInCluster / 512 : Nat))) =
          .ok secBuf ∧ Copies image clusters token
        { token with
          offset := token.offset + wanted
          offsetInCluster := token.offsetInCluster + wanted }
        buffer
        (Fat32Volume.copySector secBuf (token.offsetInCluster % 512) target wanted buffer)
        target wanted := by
  have member := mem_of_getElem? here
  obtain ⟨-, -, -, inside⟩ := fileAt.file.cluster c member
  have reach := fileAt.reachable c member
  simp only [clusterSize] at inCluster position
  have lba :
      int32 (volume.clusterToLba token.currentCluster + (token.offsetInCluster / 512 : Nat)) =
      (clusterSector image c + token.offsetInCluster / 512 : Nat) := by
    rw [cluster, fileAt.clusterToLba_eq member, int32_of_range (by omega) (by omega)]
    omega
  rw [lba]
  refine ⟨_, readSector_holds fileAt.mounted.holds (by omega) (by omega), ?_⟩
  obtain ⟨length, bytes⟩ := copySector_spec
    (fun i => image (512 * (clusterSector image c + token.offsetInCluster / 512) + i))
    (token.offsetInCluster % 512) target wanted buffer inSector
  refine ⟨⟨⟨rfl, rfl, rfl, rfl⟩, rfl, length, fun i => ?_⟩, ⟨j, c, here, cluster, ?_, ?_⟩⟩
  · simp only [Int.toNat_natCast]
    rw [bytes]
    by_cases copied : target ≤ i ∧ i < target + wanted
    · have within : token.offsetInCluster + (i - target) < clusterSize image := by
        simp only [clusterSize]
        omega
      have offset :
          token.offset + (i - target) = j * clusterSize image +
            (token.offsetInCluster + (i - target)) := by
        simp only [clusterSize]
        omega
      rw [if_pos copied, if_pos copied, offset, fileByte_at here within]
      congr 1
      omega
    · rw [if_neg copied, if_neg copied]
  · simp only [clusterSize]
    omega
  · simp only [clusterSize]
    omega

end FileAt

end Zapada.Fat32
