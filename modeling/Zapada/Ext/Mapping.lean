import Zapada.Ext.ExtVolumeReader

namespace Zapada.Ext

open Foundation Storage ExtLittleEndian Option

namespace ExtentTree

/-- What the reader makes of the extent that covers a block: it masks the length
field with 0x7FFF. -/
def reported (extents : List Extent) (logicalBlock : Nat) : Nat :=
  match find logicalBlock extents with
  | none => 0
  | some extent =>
    if extent.lengthField = 32768 then 0
    else extent.physicalStart + (logicalBlock - extent.firstLogical)

theorem find_some (found : find logicalBlock extents = some extent) : extent ∈ extents ∧
      Covers logicalBlock extent :=
  ⟨List.mem_of_find?_eq_some found, by simpa using List.find?_some found⟩

/-- The reader is right about a block unless a long or unwritten extent covers it. -/
theorem reported_eq_assigned (wellFormed : ∀ e ∈ extents, e.WellFormed) :
    reported extents logicalBlock = assigned extents logicalBlock ↔
      ∀ extent ∈ find logicalBlock extents, extent.lengthField < 32768 := by
  unfold reported assigned
  cases found : find logicalBlock extents with
  | none => simp
  | some extent =>
    have physical := (wellFormed extent (find_some found).1).physical
    simp only [mem_def, some.injEq, forall_eq', Extent.unwritten, decide_eq_true_eq]
    split <;> split <;> omega

theorem assigned_eq_zero (wellFormed : ∀ e ∈ extents, e.WellFormed) :
    assigned extents logicalBlock = 0 ↔ ∀ extent ∈ find logicalBlock extents, extent.unwritten := by
  unfold assigned
  cases found : find logicalBlock extents with
  | none => simp
  | some extent =>
    have physical := (wellFormed extent (find_some found).1).physical
    simp only [mem_def, some.injEq, forall_eq']
    cases extent.unwritten with
    | true => simp
    | false =>
      simp only [Bool.false_eq_true, if_false, iff_false]
      omega

theorem Encoded.wellFormed : {depth : Nat} → {node : Memory} → {nodeLength : Nat} →
    {tree : ExtentTree depth} → Encoded image view superBlock depth node nodeLength tree →
    ∀ extent ∈ RangeTree.entries depth tree, extent.WellFormed
  | 0, _, _, _, encoded => by
    intro extent member
    obtain ⟨i, found⟩ := List.mem_iff_getElem?.mp member
    exact (EncodedLeaf.entry encoded i extent found).2
  | depth + 1, _, _, _, encoded => by
    intro extent member
    obtain ⟨child, isChild, member⟩ := List.mem_flatMap.mp member
    exact (EncodedIndex.child encoded child isChild).2.wellFormed extent member

end ExtentTree

open ExtentTree

namespace ExtVolumeReader

theorem scanLeaf_cons (entry : LeafEntry nodeBytes.bytes i extent)
    (wellFormed : extent.WellFormed) (inside : 12 + i * 12 + 12 ≤ nodeBytes.length)
    (rest : List Nat) (logicalBlock : Nat) : scanLeaf nodeBytes 0 logicalBlock (i :: rest) =
      if Covers logicalBlock extent ∧ extent.lengthField ≠ 32768 then
        some ((extent.physicalStart + (logicalBlock - extent.firstLogical) : Nat) : Int)
      else scanLeaf nodeBytes 0 logicalBlock rest := by
  have mask : extent.lengthField &&& 0x7FFF = extent.lengthField % 2 ^ 15 :=
    Nat.and_two_pow_sub_one_eq_mod _ 15
  have inField := wellFormed.inField
  simp only [scanLeaf, Nat.zero_add, Nat.add_zero]
  rw [readUInt32_eq (by omega), readUInt16_eq (by omega), readUInt16_eq (by omega),
    readUInt32_eq (by omega), entry.firstLogical, entry.lengthField, entry.physicalHigh,
      entry.physicalLow]
  simp only [bind_eq_bind, bind_some, mask, two_parts]
  have same : ((extent.firstLogical : Int) ≤ logicalBlock ∧
      (logicalBlock : Int) < extent.firstLogical + (extent.lengthField % 2 ^ 15 : Nat)) ↔
      Covers logicalBlock extent ∧ extent.lengthField ≠ 32768 := by
    simp only [RangeTree.Covers, Extent.blockCount, Extent.unwritten, decide_eq_true_eq]
    split <;> omega
  by_cases covered : Covers logicalBlock extent ∧ extent.lengthField ≠ 32768
  · have start := covered.1.1
    rw [if_pos covered, if_pos (same.mpr covered)]
    simp only [pure_def, some.injEq]
    omega
  · rw [if_neg covered, if_neg fun both => covered (same.mp both)]

theorem scanLeaf_eq
    (ordered : RangeTree.OrderedLeaf Extent.firstLogical Extent.blockCount low high extents)
    (entry : ∀ j extent, extents[j]? = some extent → LeafEntry nodeBytes.bytes (i + j) extent ∧
      extent.WellFormed)
    (inside : 12 + (i + extents.length) * 12 ≤ nodeBytes.length) (logicalBlock : Nat) :
    scanLeaf nodeBytes 0 logicalBlock (List.range' i extents.length) =
      some ((reported extents logicalBlock : Nat) : Int) := by
  induction extents generalizing i low with
  | nil => rfl
  | cons extent rest ih =>
    obtain ⟨start, later⟩ := ordered
    obtain ⟨decoded, wellFormed⟩ := entry 0 extent rfl
    rw [Nat.add_zero] at decoded
    rw [List.length_cons] at inside
    have tail := ih later (i := i + 1) (fun j other found => by
      rw [Nat.add_right_comm, Nat.add_assoc]
      exact entry (j + 1) other (by simpa using found)) (by omega)
    rw [List.length_cons, List.range'_succ, scanLeaf_cons decoded wellFormed (by omega), tail]
    by_cases covered : Covers logicalBlock extent
    · have found : find logicalBlock (extent :: rest) = some extent := by
        simp [find, RangeTree.find, covered]
      have notLater : find logicalBlock rest = none := by
        refine RangeTree.find_eq_none fun other member covers => ?_
        have bounds := later.bounds other member
        have stop := covered.2
        have begin := covers.1
        omega
      simp only [reported, found, notLater, covered, true_and]
      by_cases long : extent.lengthField = 32768 <;> simp [long]
    · have skipped : find logicalBlock (extent :: rest) = find logicalBlock rest := by
        simp [find, RangeTree.find, covered]
      rw [if_neg fun both => covered both.1]
      simp [reported, skipped]

theorem foldlM_selectEntry {children : List (Nat × Nat × τ)}
    (entry : ∀ j child, children[j]? = some child → IndexEntry nodeBytes.bytes (i + j)
      child.1 child.2.1)
    (inside : 12 + (i + children.length) * 12 ≤ nodeBytes.length) (logicalBlock : Nat)
    (selectedLeaf : Option Nat) :
    (List.range' i children.length).foldlM (selectEntry nodeBytes 0 logicalBlock) selectedLeaf =
      some (((RangeTree.lastBelow logicalBlock children).map Prod.fst).or selectedLeaf) := by
  induction children generalizing i selectedLeaf with
  | nil => rfl
  | cons child rest ih =>
    have decoded := entry 0 child rfl
    rw [Nat.add_zero] at decoded
    rw [List.length_cons] at inside
    have tail := ih (i := i + 1) (fun j other found => by
      rw [Nat.add_right_comm, Nat.add_assoc]
      exact entry (j + 1) other (by simpa using found)) (by omega)
    have round : selectEntry nodeBytes 0 logicalBlock selectedLeaf i =
        some (if child.1 ≤ logicalBlock then some child.2.1 else selectedLeaf) := by
      simp only [selectEntry, Nat.zero_add, Nat.add_zero]
      rw [readUInt32_eq (by omega), readUInt32_eq (by omega), readUInt16_eq (by omega),
        decoded.start, decoded.leafLow, decoded.leafHigh]
      simp only [bind_eq_bind, bind_some, two_parts, Nat.cast_le]
      split <;> rfl
    rw [List.length_cons, List.range'_succ, List.foldlM_cons, round, bind_eq_bind,
      bind_some, tail, RangeTree.lastBelow]
    cases RangeTree.lastBelow logicalBlock rest with
    | none =>
      split <;> rfl
    | some chosen => rfl

theorem selectLeaf_eq {children : List (Nat × Nat × τ)}
    (index : EncodedIndex encoded nodeBytes.bytes nodeBytes.length level children)
    (logicalBlock : Nat) :
    selectLeaf nodeBytes 0 children.length logicalBlock =
      some ((RangeTree.lastBelow logicalBlock children).map Prod.fst) := by
  have fits := index.header.fits
  rw [selectLeaf, List.range_eq_range', foldlM_selectEntry (fun j child found => by
    rw [Nat.zero_add]
    exact index.entry j child found) (by omega), or_none]

theorem mapExtentNode_eq (reader : ExtVolumeReader) (logicalBlock : Int)
    (levels : Nat) (header : Header nodeBytes.bytes nodeBytes.length count level) :
    mapExtentNode reader nodeBytes 0 logicalBlock (levels + 1) = if 340 < count then
      some StorageStatus.corruptedData
      else if level = 0 then mapExtentLeaf nodeBytes 0 count logicalBlock
      else (selectLeaf nodeBytes 0 count logicalBlock).bind fun selectedLeaf =>
        match selectedLeaf with
        | none => some 0
        | some selectedLeaf =>
          match reader.readBlock selectedLeaf with
          | .error readRc => some readRc
          | .ok child => mapExtentNode reader child 0 logicalBlock levels := by
  have fits := header.fits
  simp only [mapExtentNode, Nat.zero_add]
  rw [readUInt16_eq (by omega), readUInt16_eq (by omega), readUInt16_eq (by omega), header.magic,
    header.entries, header.depth]
  rfl

variable {reader : ExtVolumeReader} {image : Memory}

theorem sectors_per_block (superBlock : ExtSuperBlock) (block : Nat) :
    ∃ sectors, 0 < sectors ∧ sectors ≤ 128 ∧ superBlock.blockSize = 512 * sectors ∧
      superBlock.blockSize * block = 512 * (sectors * block) ∧
      (block : Int) * superBlock.blockSize = (512 * (sectors * block) : Nat) := by
  obtain ⟨power, small, size⟩ := superBlock.blockSize_cases
  have low : 1 ≤ 2 ^ power := Nat.one_le_two_pow
  have high : 2 ^ power ≤ 2 ^ 6 := Nat.pow_le_pow_right (by decide) small
  have sectors : superBlock.blockSize = 512 * (2 * 2 ^ power) := by omega
  have place : superBlock.blockSize * block = 512 * (2 * 2 ^ power * block) := by
    rw [sectors, Nat.mul_assoc]
  refine ⟨2 * 2 ^ power, by omega, by omega, sectors, place, ?_⟩
  rw [← place, Nat.mul_comm, Nat.cast_mul]

theorem readBlock_eq (holds : reader.partition.Holds image)
    (inside : ((reader.superBlock.blockSize * (block + 1) : Nat) : Int) ≤ 512 *
      reader.partition.sectorCount)
    (addressable : reader.superBlock.blockSize * block < 2 ^ 63) :
    ∃ child, reader.readBlock block = .ok child ∧
      child.bytes = blockBytes image reader.superBlock block ∧
      child.length = reader.superBlock.blockSize := by
  obtain ⟨sectors, positive, -, size, place, product⟩ := sectors_per_block reader.superBlock block
  have next :
      reader.superBlock.blockSize * (block + 1) = 512 * (sectors * block) + 512 * sectors := by
    rw [Nat.mul_succ, place, size]
  have lba :
      (int64 ((block : Int) * reader.superBlock.blockSize)).tdiv 512 = (sectors * block : Nat) := by
    rw [product, int64_of_range (by omega) (by omega), Int.tdiv_eq_ediv_of_nonneg (by omega)]
    omega
  have count : reader.superBlock.blockSize / 512 = sectors := by omega
  simp only [readBlock, lba, count]
  rw [if_neg (by omega), holds.readSectors (by omega) (by omega) (by omega)]
  refine ⟨_, rfl, ?_, rfl⟩
  funext i
  simp only [blockBytes, Int.toNat_natCast, place]

/-- The byte offset of a block beyond 2^63 overflows and the read fails. -/
theorem readBlock_overflow (holds : reader.partition.Holds image) (inWord : block < 2 ^ 48)
    (beyond : 2 ^ 63 ≤ reader.superBlock.blockSize * block) :
    reader.readBlock block = .error StorageStatus.ioError := by
  obtain ⟨sectors, positive, few, size, place, product⟩ := sectors_per_block reader.superBlock block
  have bound : sectors * block ≤ 128 * (2 ^ 48 - 1) := Nat.mul_le_mul few (by omega)
  have wrapped : int64 ((block : Int) * reader.superBlock.blockSize) =
      512 * (((sectors * block : Nat) : Int) - 2 ^ 55) := by
    rw [product, int64_of_overflow (by omega) (by omega)]
    omega
  have negative : (int64 ((block : Int) * reader.superBlock.blockSize)).tdiv 512 < 0 := by
    rw [wrapped, Int.mul_tdiv_cancel_left _ (by decide)]
    omega
  obtain ⟨device, disk, count, isDevice, -⟩ := holds.served
  have some_sectors : ¬ ((reader.superBlock.blockSize / 512 : Nat) : Int) ≤ 0 := by omega
  have failed : StorageStatus.invalidArgument < 0 := by decide
  simp only [readBlock, PartitionView.readSectors, isDevice, if_neg some_sectors,
    if_pos (Or.inl negative), if_pos failed]
  rw [if_neg (by omega)]

/-- The search finds what the tree's extents say, as the reader understands them; a node that it
cannot use ends it with an error. -/
theorem mapExtentNode_spec (holds : reader.partition.Holds image) (logicalBlock : Nat) :
    (depth : Nat) → {nodeBytes : Buffer} → {low high levels : Nat} → {tree : ExtentTree depth} →
    Encoded image reader.partition reader.superBlock depth nodeBytes.bytes nodeBytes.length tree →
    Ordered depth low high tree → depth < levels →
    (Searchable reader.superBlock logicalBlock depth tree → mapExtentNode reader nodeBytes 0
      logicalBlock levels =
      some ((reported (RangeTree.entries depth tree) logicalBlock : Nat) : Int)) ∧
    (¬ Searchable reader.superBlock logicalBlock depth tree →
      ∃ status < 0, mapExtentNode reader nodeBytes 0 logicalBlock levels = some status)
  | 0, nodeBytes, low, high, levels + 1, extents, encoded, ordered, _ => by
    have leaf : EncodedLeaf nodeBytes.bytes nodeBytes.length extents := encoded
    have fits := leaf.header.fits
    rw [mapExtentNode_eq reader _ _ leaf.header]
    constructor
    · intro few
      rw [if_neg (Nat.not_lt.mpr few), if_pos rfl, mapExtentLeaf, List.range_eq_range']
      exact scanLeaf_eq ordered (fun j extent found => by
        rw [Nat.zero_add]
        exact leaf.entry j extent found) (by omega) logicalBlock
    · intro refused
      rw [if_pos (Nat.lt_of_not_le refused)]
      exact ⟨_, by decide, rfl⟩
  | depth + 1, nodeBytes, low, high, levels + 1, children, encoded, ordered, deep => by
    rw [mapExtentNode_eq reader _ _ encoded.header]
    by_cases few : List.length children ≤ 340
    case neg =>
      rw [if_pos (Nat.lt_of_not_le few)]
      exact ⟨fun searchable => absurd searchable.1 few, fun _ => ⟨_, by decide, rfl⟩⟩
    rw [if_neg (Nat.not_lt.mpr few), if_neg (Nat.succ_ne_zero _), selectLeaf_eq encoded,
      bind_some]
    have descent : find logicalBlock (RangeTree.entries (depth + 1) children) = _ := ordered.find_eq
    cases chosen : RangeTree.lastBelow logicalBlock children with
    | none =>
      rw [chosen] at descent
      simp only [Searchable, few, chosen, map_none, reported, descent, bind_none]
      simp
    | some child =>
      obtain ⟨start, member⟩ := RangeTree.mem_of_lastBelow chosen
      obtain ⟨inside, below⟩ := encoded.child _ member
      obtain ⟨_, _, inner⟩ := RangeTree.OrderedChildren.child ordered _ member
      rw [chosen] at descent
      simp only [Searchable, few, chosen, some.injEq, forall_eq', true_and, map_some]
      by_cases addressable : reader.superBlock.blockSize * child.1 < 2 ^ 63
      · obtain ⟨bytes, isRead, isBlock, length⟩ := readBlock_eq holds inside addressable
        rw [← isBlock, ← length] at below
        simp only [addressable, true_and, isRead, reported, descent, bind_some]
        exact mapExtentNode_spec holds logicalBlock depth below inner (by omega)
      · obtain ⟨i, found⟩ := List.mem_iff_getElem?.mp member
        have high : child.1 / 2 ^ 32 < 256 ^ 2 := by
          rw [← (encoded.entry i _ found).leafHigh]
          exact Memory.load_lt _ _ _
        rw [readBlock_overflow holds (by omega) (Nat.not_lt.mp addressable)]
        exact ⟨fun searchable => absurd searchable.1 addressable, fun _ => ⟨_, by decide, rfl⟩⟩

theorem partition_initializeReader (mounts : initializeReader (some view) = some (.ok reader)) :
    reader.partition = view := by
  simp only [initializeReader] at mounts
  split at mounts
  · simp at mounts
  rw [bind_eq_bind, bind_eq_some_iff] at mounts
  obtain ⟨parsed, -, mounts⟩ := mounts
  cases parsed with
  | none => simp at mounts
  | some superBlock =>
    simp only at mounts
    split at mounts
    · simp at mounts
    · simp only [pure_def, some.injEq, Except.ok.injEq] at mounts
      rw [← mounts]

end ExtVolumeReader

open ExtVolumeReader

/-- On a mounted volume the reader maps a block of an extent-mapped file as the format
says, exactly if it can use the nodes on the way and no long or unwritten extent covers
the block. The format's answer is 0 exactly in holes and in unwritten extents. -/
theorem mapLogicalBlock_eq_assigned (mounts : initializeReader (some view) = some (.ok reader))
    (holds : view.Holds image) (extentMapped : inode.hasExtents) (shallow : depth ≤ 5)
    {tree : ExtentTree depth}
    (encoded : Encoded image view reader.superBlock depth inode.blockMap 60 tree)
    (ordered : Ordered depth 0 high tree) (logicalBlock : Nat) :
    (reader.mapLogicalBlock (some inode) logicalBlock =
        some ((assigned (RangeTree.entries depth tree) logicalBlock : Nat) : Int) ↔
      Searchable reader.superBlock logicalBlock depth tree ∧
        ∀ extent ∈ find logicalBlock (RangeTree.entries depth tree), extent.lengthField < 32768) ∧
    (assigned (RangeTree.entries depth tree) logicalBlock = 0 ↔
      ∀ extent ∈ find logicalBlock (RangeTree.entries depth tree), extent.unwritten) := by
  obtain rfl := partition_initializeReader mounts
  refine ⟨?_, assigned_eq_zero encoded.wellFormed⟩
  have root : Encoded image reader.partition reader.superBlock depth inode.blockMapBytes.bytes
    inode.blockMapBytes.length tree := encoded
  have nonnegative : ¬ (logicalBlock : Int) < 0 := by omega
  rw [mapLogicalBlock]
  simp only [if_neg nonnegative, extentMapped, if_true]
  obtain ⟨found, fails⟩ :=
    mapExtentNode_spec holds logicalBlock depth root ordered (show depth < 6 by omega)
  by_cases searchable : Searchable reader.superBlock logicalBlock depth tree
  · rw [found searchable, some.injEq, Nat.cast_inj, reported_eq_assigned encoded.wellFormed]
    exact (and_iff_right searchable).symm
  · obtain ⟨status, negative, refused⟩ := fails searchable
    rw [refused, some.injEq]
    refine ⟨fun same => ?_, fun both => absurd both.1 searchable⟩
    omega

/-- A memory that is 0 except for some bytes. -/
def bytesAt (bytes : List (Nat × UInt8)) : Memory := fun i => (bytes.lookup i).getD 0

/-- A volume with blocks of 1 KiB; block 5 is a leaf with the extents 0..9 and 20..24. -/
def sampleImage : Memory := bytesAt [(1024, 1), (1028, 64), (1056, 64), (1064, 1), (1080, 0x53),
  (1081, 0xEF), (1120, 0x40), (5120, 0x0A), (5121, 0xF3), (5122, 2), (5136, 10), (5140, 100),
  (5144, 20), (5148, 5), (5152, 200)]

def samplePartition : PartitionView where
  device := some ⟨fun lba sectorCount => (sectorCount, fun i => sampleImage (512 * lba.toNat + i))⟩
  startLba := 0
  sectorCount := 128

def sampleReader : ExtVolumeReader where
  partition := samplePartition
  superBlock :=
    { logBlockSize := 0, featureIncompat := 0x40, featureReadOnlyCompat := 0, small := by decide }

private theorem sampleReader_mounts :
    initializeReader (some samplePartition) = some (.ok sampleReader) := by
  rfl

private theorem samplePartition_holds : samplePartition.Holds sampleImage :=
  .ofImage sampleImage 128 (by decide)

def sampleInode : ExtInode where
  flags := 0x00080000
  blockMap := bytesAt [(0, 0x0A), (1, 0xF3), (2, 1), (6, 1), (16, 5)]

def sampleExtents : List Extent := [⟨0, 10, 100⟩, ⟨20, 5, 200⟩]

def sampleTree : ExtentTree 1 := [(0, 5, sampleExtents)]

private theorem encodedLeaf_two (header : Header node nodeLength 2 0)
    (first : LeafEntry node 0 extent ∧ extent.WellFormed)
    (second : LeafEntry node 1 extent' ∧ extent'.WellFormed) :
    EncodedLeaf node nodeLength [extent, extent'] := by
  refine ⟨header, fun i other found => ?_⟩
  match i with
  | 0 => exact some.inj found ▸ first
  | 1 => exact some.inj found ▸ second
  | i + 2 => cases found

private theorem sampleLeaf_encoded : EncodedLeaf
    (blockBytes sampleImage sampleReader.superBlock 5) 1024 sampleExtents := by
  apply encodedLeaf_two
  · constructor <;> decide +kernel
  · exact ⟨by constructor <;> decide +kernel, by constructor <;> decide⟩
  · exact ⟨by constructor <;> decide +kernel, by constructor <;> decide⟩

theorem mapLogicalBlock_two_levels :
    sampleReader.mapLogicalBlock (some sampleInode) 22 = some 202 := by
  have encoded :
      Encoded sampleImage samplePartition sampleReader.superBlock 1 sampleInode.blockMap 60
      sampleTree := by
    refine ⟨by constructor <;> decide +kernel, fun i child found => ?_, fun child member => ?_⟩
    · match i with
      | 0 =>
        cases found
        constructor <;> decide +kernel
      | i + 1 => simp [sampleTree] at found
    · obtain rfl := List.mem_singleton.mp member
      exact ⟨by decide, sampleLeaf_encoded⟩
  have ordered : Ordered 1 0 100 sampleTree :=
    ⟨by decide, by decide, by decide, show (25 : Nat) ≤ 100 by decide⟩
  have searchable : Searchable sampleReader.superBlock 22 1 sampleTree := by
    refine ⟨by decide, fun child chosen => ?_⟩
    cases chosen
    exact ⟨by decide, show (2 : Nat) ≤ 340 by decide⟩
  have mapped := (mapLogicalBlock_eq_assigned sampleReader_mounts samplePartition_holds (by decide)
    (by decide) encoded ordered 22).1.mpr ⟨searchable, by
      decide⟩
  exact mapped

/-- The root node is a leaf with a full extent and an unwritten one. -/
def longInode : ExtInode where
  flags := 0x00080000
  blockMap := bytesAt [(0, 0x0A), (1, 0xF3), (2, 2), (17, 0x80), (20, 0xE8), (21, 3), (24, 0x40),
    (25, 0x9C), (28, 0x10), (29, 0x80), (32, 0x50), (33, 0xC3)]

def longExtents : List Extent := [⟨0, 32768, 1000⟩, ⟨40000, 32784, 50000⟩]

/-- An extent of 32768 blocks reads as a hole, and an unwritten one as its old data. -/
theorem mapLogicalBlock_long_extents :
    initializeReader (some samplePartition) = some (.ok sampleReader) ∧
      samplePartition.Holds sampleImage ∧ longInode.hasExtents ∧
      Encoded sampleImage samplePartition sampleReader.superBlock 0 longInode.blockMap 60
        longExtents ∧
      Ordered 0 0 40016 longExtents ∧
      (sampleReader.mapLogicalBlock (some longInode) 5 = some 0 ∧ assigned longExtents 5 = 1005) ∧
      (sampleReader.mapLogicalBlock (some longInode) 40000 = some 50000 ∧
        assigned longExtents 40000 = 0) := by
  refine ⟨sampleReader_mounts, samplePartition_holds, by decide, ?_, ?_,
    ⟨by decide +kernel, by decide⟩,
    ⟨by decide +kernel, by decide⟩⟩
  · apply encodedLeaf_two
    · constructor <;> decide +kernel
    · exact ⟨by constructor <;> decide +kernel, by constructor <;> decide⟩
    · exact ⟨by constructor <;> decide +kernel, by constructor <;> decide⟩
  · exact ⟨by decide, by decide, show (40016 : Nat) ≤ 40016 by decide⟩

end Zapada.Ext
