import Zapada.Storage.BlockDevice
import Zapada.Foundation.RangeTree

/-! The ext volume reader: mounting, block reads and the mapping of a file's logical
blocks. An access outside a byte array is an exception, here `none`. -/

namespace Zapada.Ext

open Foundation Storage StorageStatus Option

namespace ExtLittleEndian

def readByte (buffer : Buffer) (offset : Nat) : Option Nat :=
  if offset < buffer.length then some (buffer.bytes offset).toNat else none

def readUInt16 (buffer : Buffer) (offset : Nat) : Option Nat := do
  let low ← readByte buffer offset
  let high ← readByte buffer (offset + 1)
  return low ||| high <<< 8

def readInt32 (buffer : Buffer) (offset : Nat) : Option (BitVec 32) := do
  let byte0 ← readByte buffer offset
  let byte1 ← readByte buffer (offset + 1)
  let byte2 ← readByte buffer (offset + 2)
  let byte3 ← readByte buffer (offset + 3)
  return BitVec.ofNat 32 byte0 ||| BitVec.ofNat 32 byte1 <<< 8 ||| BitVec.ofNat 32 byte2 <<< 16 |||
    BitVec.ofNat 32 byte3 <<< 24

def readUInt32 (buffer : Buffer) (offset : Nat) : Option Nat :=
  (readInt32 buffer offset).map BitVec.toNat

end ExtLittleEndian

open ExtLittleEndian

namespace ExtFeatureFlags

def incompatFileType : BitVec 32 := 0x0002
def incompatExtents : BitVec 32 := 0x0040
def incompatSixtyFourBit : BitVec 32 := 0x0080
def incompatFlexBlockGroups : BitVec 32 := 0x0200

def incompatSupportedReadOnly : BitVec 32 :=
  incompatFileType ||| incompatExtents ||| incompatSixtyFourBit ||| incompatFlexBlockGroups

def readOnlyCompatBigAlloc : BitVec 32 := 0x0200

def inodeFlagExtents : BitVec 32 := 0x00080000

def hasUnsupportedIncompat (features : BitVec 32) : Bool :=
  features &&& ~~~incompatSupportedReadOnly ≠ 0

def hasUnsupportedReadOnlyCompat (features : BitVec 32) : Bool :=
  features &&& readOnlyCompatBigAlloc ≠ 0

end ExtFeatureFlags

structure ExtSuperBlock where
  logBlockSize : Nat
  featureIncompat : BitVec 32
  featureReadOnlyCompat : BitVec 32
  small : logBlockSize ≤ 6
deriving DecidableEq

namespace ExtSuperBlock

def magicValue : Nat := 0xEF53

def blockSize (superBlock : ExtSuperBlock) : Nat := 1024 <<< superBlock.logBlockSize

/-- `ReadFrom`; the inner `none` stands for `false`. -/
def readFrom (buffer : Buffer) (offset : Nat) : Option (Option ExtSuperBlock) := do
  let magic ← readUInt16 buffer (offset + 56)
  if magic ≠ magicValue then return none
  let inodesCount ← readInt32 buffer (offset + 0)
  let blocksLow ← readUInt32 buffer (offset + 4)
  let blocksHigh ← readUInt32 buffer (offset + 336)
  let blocksCount := int64 (blocksLow ||| blocksHigh <<< 32 : Nat)
  let logBlockSize ← readInt32 buffer (offset + 24)
  let blocksPerGroup ← readInt32 buffer (offset + 32)
  let inodesPerGroup ← readInt32 buffer (offset + 40)
  let featureIncompat ← readInt32 buffer (offset + 96)
  let featureReadOnlyCompat ← readInt32 buffer (offset + 100)
  if supported : 0 ≤ logBlockSize.toInt ∧ logBlockSize.toInt ≤ 6 then
    if 0 < inodesCount.toInt ∧ 0 < blocksCount ∧ 0 < blocksPerGroup.toInt ∧
        0 < inodesPerGroup.toInt then
      return some {
        logBlockSize := logBlockSize.toInt.toNat
        featureIncompat
        featureReadOnlyCompat
        small := by omega }
    else return none
  else return none

def hasUnsupportedReadOnlyFeatures (superBlock : ExtSuperBlock) : Bool :=
  ExtFeatureFlags.hasUnsupportedIncompat superBlock.featureIncompat ||
    ExtFeatureFlags.hasUnsupportedReadOnlyCompat superBlock.featureReadOnlyCompat

theorem blockSize_cases (superBlock : ExtSuperBlock) :
    ∃ power ≤ 6, superBlock.blockSize = 1024 * 2 ^ power :=
  ⟨_, superBlock.small, Nat.shiftLeft_eq _ _⟩

end ExtSuperBlock

structure ExtVolumeReader where
  partition : PartitionView
  superBlock : ExtSuperBlock

/-- An inode's flags and its block map of 60 bytes. -/
structure ExtInode where
  flags : BitVec 32
  blockMap : Memory

namespace ExtInode

def blockMapBytes (inode : ExtInode) : Buffer where
  length := 60
  bytes := inode.blockMap
  bounded := by decide

def hasExtents (inode : ExtInode) : Bool := inode.flags &&& ExtFeatureFlags.inodeFlagExtents ≠ 0

def readBlockPointer (inode : ExtInode) (index : Nat) : Option Nat :=
  readUInt32 inode.blockMapBytes (index * 4)

end ExtInode

def initializeReader (partition : Option PartitionView) : Option (Except Int ExtVolumeReader) :=
  match partition with
  | none => some (.error invalidArgument)
  | some partition => do
    let (rc, bytes) := partition.readSectors 2 2
    if rc < 0 then return .error ioError
    match ← ExtSuperBlock.readFrom ⟨1024, bytes, by decide⟩ 0 with
    | none => return .error corruptedData
    | some superBlock =>
      if superBlock.hasUnsupportedReadOnlyFeatures then return .error notSupported
      else return .ok { partition, superBlock }

namespace ExtVolumeReader

theorem blockSize_lt (reader : ExtVolumeReader) : reader.superBlock.blockSize < 2 ^ 31 := by
  obtain ⟨power, small, size⟩ := reader.superBlock.blockSize_cases
  have bound : 2 ^ power ≤ 2 ^ 6 := Nat.pow_le_pow_right (by decide) small
  omega

/-- `ReadBlock` into a new array of one block. -/
def readBlock (reader : ExtVolumeReader) (blockNumber : Int) : Except Int Buffer :=
  if blockNumber < 0 then .error invalidArgument
  else
    let byteOffset := int64 (blockNumber * reader.superBlock.blockSize)
    let lba := byteOffset.tdiv 512
    let sectorCount := reader.superBlock.blockSize / 512
    let (rc, bytes) := reader.partition.readSectors lba sectorCount
    if rc < 0 then .error ioError
    else .ok ⟨reader.superBlock.blockSize, bytes, reader.blockSize_lt⟩

/-- The loop of `MapExtentLeaf` over the entries that are left. -/
def scanLeaf (nodeBytes : Buffer) (nodeOffset : Nat) (logicalBlock : Int) : List Nat → Option Int
  | [] => some 0
  | i :: rest => do
    let entryOffset := nodeOffset + 12 + i * 12
    let firstLogical ← readUInt32 nodeBytes (entryOffset + 0)
    let blockCount := (← readUInt16 nodeBytes (entryOffset + 4)) &&& 0x7FFF
    let physicalHigh ← readUInt16 nodeBytes (entryOffset + 6)
    let physicalLow ← readUInt32 nodeBytes (entryOffset + 8)
    let physicalStart := physicalLow ||| physicalHigh <<< 32
    if firstLogical ≤ logicalBlock ∧ logicalBlock < firstLogical + blockCount then
      return physicalStart + (logicalBlock - firstLogical)
    else scanLeaf nodeBytes nodeOffset logicalBlock rest

def mapExtentLeaf (nodeBytes : Buffer) (nodeOffset entries : Nat) (logicalBlock : Int) :
    Option Int :=
  scanLeaf nodeBytes nodeOffset logicalBlock (List.range entries)

/-- One round of the loop of `MapExtentNode` over the entries of an index node. -/
def selectEntry (nodeBytes : Buffer) (nodeOffset : Nat) (logicalBlock : Int)
    (selectedLeaf : Option Nat) (i : Nat) : Option (Option Nat) := do
  let entryOffset := nodeOffset + 12 + i * 12
  let firstLogical ← readUInt32 nodeBytes (entryOffset + 0)
  if firstLogical ≤ logicalBlock then
    let leafLow ← readUInt32 nodeBytes (entryOffset + 4)
    let leafHigh ← readUInt16 nodeBytes (entryOffset + 8)
    return some (leafLow ||| leafHigh <<< 32)
  else return selectedLeaf

def selectLeaf (nodeBytes : Buffer) (nodeOffset entries : Nat) (logicalBlock : Int) :
    Option (Option Nat) :=
  (List.range entries).foldlM (selectEntry nodeBytes nodeOffset logicalBlock) none

/-- `MapExtentNode`; `levels` is what `depthGuard` leaves of the six levels. -/
def mapExtentNode (reader : ExtVolumeReader) (nodeBytes : Buffer) (nodeOffset : Nat)
    (logicalBlock : Int) : (levels : Nat) → Option Int
  | 0 => some notSupported
  | levels + 1 => do
    let magic ← readUInt16 nodeBytes (nodeOffset + 0)
    if magic ≠ 0xF30A then return corruptedData
    let entries ← readUInt16 nodeBytes (nodeOffset + 2)
    let depth ← readUInt16 nodeBytes (nodeOffset + 6)
    if entries > 340 then return corruptedData
    if depth = 0 then mapExtentLeaf nodeBytes nodeOffset entries logicalBlock
    else
      match ← selectLeaf nodeBytes nodeOffset entries logicalBlock with
      | none => return 0
      | some selectedLeaf =>
        match reader.readBlock selectedLeaf with
        | .error readRc => return readRc
        | .ok child => mapExtentNode reader child 0 logicalBlock levels

def mapClassicBlock (reader : ExtVolumeReader) (inode : ExtInode) (logicalBlock : Int) :
    Option Int :=
  if logicalBlock < 12 then (inode.readBlockPointer logicalBlock.toNat).map Int.ofNat
  else
    let pointersPerBlock := reader.superBlock.blockSize / 4
    let singleIndex := logicalBlock - 12
    if 0 ≤ singleIndex ∧ singleIndex < pointersPerBlock then do
      let indirectBlock ← inode.readBlockPointer 12
      if indirectBlock = 0 then return 0
      match reader.readBlock indirectBlock with
      | .error readRc => return readRc
      | .ok block => (readUInt32 block (singleIndex.toNat * 4)).map Int.ofNat
    else some notSupported

def mapLogicalBlock (reader : ExtVolumeReader) (inode : Option ExtInode) (logicalBlock : Int) :
    Option Int :=
  match inode with
  | none => some invalidArgument
  | some inode =>
    if logicalBlock < 0 then some invalidArgument
    else if inode.hasExtents then mapExtentNode reader inode.blockMapBytes 0 logicalBlock 6
    else mapClassicBlock reader inode logicalBlock

end ExtVolumeReader

/-- A leaf entry; the length field also says whether the extent is unwritten. -/
structure Extent where
  firstLogical : Nat
  lengthField : Nat
  physicalStart : Nat

namespace Extent

def unwritten (extent : Extent) : Bool := 32768 < extent.lengthField

def blockCount (extent : Extent) : Nat :=
  if extent.unwritten then extent.lengthField - 32768 else extent.lengthField

/-- A nonempty extent; block 0 is never part of one. -/
structure WellFormed (extent : Extent) : Prop where
  firstLogical : extent.firstLogical < 2 ^ 32
  nonempty : 0 < extent.lengthField
  inField : extent.lengthField < 2 ^ 16
  physical : 0 < extent.physicalStart
  inWord : extent.physicalStart < 2 ^ 48

end Extent

/-- The extents below a node of some depth, with the block of every child node. -/
abbrev ExtentTree := RangeTree Nat Extent

namespace ExtentTree

abbrev Covers := RangeTree.Covers Extent.firstLogical Extent.blockCount
abbrev find := RangeTree.find Extent.firstLogical Extent.blockCount
abbrev Ordered (depth low high : Nat) (tree : ExtentTree depth) : Prop :=
  RangeTree.Ordered Extent.firstLogical Extent.blockCount depth low high tree

/-- The physical block that the format assigns to a logical block, 0 in a hole and in
an unwritten extent. -/
def assigned (extents : List Extent) (logicalBlock : Nat) : Nat :=
  match find logicalBlock extents with
  | none => 0
  | some extent =>
    if extent.unwritten then 0 else extent.physicalStart + (logicalBlock - extent.firstLogical)

def blockBytes (image : Memory) (superBlock : ExtSuperBlock) (block : Nat) : Memory :=
  fun i => image (superBlock.blockSize * block + i)

/-- A node header; the entries fit into the node. -/
structure Header (node : Memory) (nodeLength count level : Nat) : Prop where
  magic : node.load 0 2 = 0xF30A
  entries : node.load 2 2 = count
  depth : node.load 6 2 = level
  fits : 12 + 12 * count ≤ nodeLength

structure LeafEntry (node : Memory) (i : Nat) (extent : Extent) : Prop where
  firstLogical : node.load (12 + i * 12) 4 = extent.firstLogical
  lengthField : node.load (12 + i * 12 + 4) 2 = extent.lengthField
  physicalHigh : node.load (12 + i * 12 + 6) 2 = extent.physicalStart / 2 ^ 32
  physicalLow : node.load (12 + i * 12 + 8) 4 = extent.physicalStart % 2 ^ 32

structure IndexEntry (node : Memory) (i firstLogical block : Nat) : Prop where
  start : node.load (12 + i * 12) 4 = firstLogical
  leafLow : node.load (12 + i * 12 + 4) 4 = block % 2 ^ 32
  leafHigh : node.load (12 + i * 12 + 8) 2 = block / 2 ^ 32

structure EncodedLeaf (node : Memory) (nodeLength : Nat) (extents : List Extent) : Prop where
  header : Header node nodeLength extents.length 0
  entry : ∀ i extent, extents[i]? = some extent → LeafEntry node i extent ∧ extent.WellFormed

structure EncodedIndex (encoded : (block : Nat) → τ → Prop) (node : Memory)
    (nodeLength level : Nat) (children : List (Nat × Nat × τ)) : Prop where
  header : Header node nodeLength children.length level
  entry : ∀ i child, children[i]? = some child → IndexEntry node i child.1 child.2.1
  child : ∀ child ∈ children, encoded child.2.1 child.2.2

/-- The bytes of a node, and of the blocks below it, hold a tree. -/
def Encoded (image : Memory) (view : PartitionView) (superBlock : ExtSuperBlock) :
    (depth : Nat) → (node : Memory) → (nodeLength : Nat) → ExtentTree depth → Prop
  | 0, node, nodeLength, extents => EncodedLeaf node nodeLength extents
  | depth + 1, node, nodeLength, children =>
    EncodedIndex (fun block child =>
      ((superBlock.blockSize * (block + 1) : Nat) : Int) ≤ 512 * view.sectorCount ∧
        Encoded image view superBlock depth (blockBytes image superBlock block)
          superBlock.blockSize child)
      node nodeLength (depth + 1) children

/-- The nodes that the search for a logical block visits are small enough for the
reader, and lie at byte offsets below 2^63. -/
def Searchable (superBlock : ExtSuperBlock) (logicalBlock : Nat) : (depth : Nat) →
      ExtentTree depth → Prop
  | 0, extents => List.length extents ≤ 340
  | depth + 1, children => List.length children ≤ 340 ∧
      ∀ child, RangeTree.lastBelow logicalBlock children = some child →
        superBlock.blockSize * child.1 < 2 ^ 63 ∧ Searchable superBlock logicalBlock depth child.2

end ExtentTree

namespace ExtLittleEndian

theorem readByte_eq (inside : offset < buffer.length) :
    readByte buffer offset = some (buffer.bytes offset).toNat := by
  rw [readByte, if_pos inside]

theorem readUInt16_eq (inside : offset + 1 < buffer.length) :
    readUInt16 buffer offset = some (buffer.bytes.load offset 2) := by
  have low := (buffer.bytes offset).toNat_lt
  simp only [readUInt16, readByte_eq inside, readByte_eq (Nat.lt_of_succ_lt inside), Memory.load,
    bind_eq_bind, bind_some, or_shift _ _ 8 low]
  rfl

theorem readUInt32_eq (inside : offset + 3 < buffer.length) :
    readUInt32 buffer offset = some (buffer.bytes.load offset 4) := by
  have byte0 := (buffer.bytes offset).toNat_lt
  have byte1 := (buffer.bytes (offset + 1)).toNat_lt
  have byte2 := (buffer.bytes (offset + 2)).toNat_lt
  have byte3 := (buffer.bytes (offset + 3)).toNat_lt
  simp only [readUInt32, readInt32, readByte_eq inside,
    readByte_eq (show offset + 2 < buffer.length by omega),
    readByte_eq (show offset + 1 < buffer.length by omega),
    readByte_eq (show offset < buffer.length by omega), bind_eq_bind, bind_some,
    pure_def, map_some, some.injEq, Memory.load]
  rw [ofNat_or_shift _ _ _ _ byte0, ofNat_or_shift _ _ _ _ (by omega),
    ofNat_or_shift _ _ _ _ (by omega),
    BitVec.toNat_ofNat, Nat.mod_eq_of_lt (by omega)]
  simp only [Nat.add_assoc, Nat.reduceAdd]
  omega

theorem two_parts (value : Nat) : value % 2 ^ 32 ||| (value / 2 ^ 32) <<< 32 = value := by
  rw [or_shift _ _ 32 (Nat.mod_lt _ (by decide)), Nat.mod_add_div]

end ExtLittleEndian

end Zapada.Ext
