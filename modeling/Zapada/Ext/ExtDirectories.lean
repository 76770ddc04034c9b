import Zapada.Ext.ExtVolumeReader
import Zapada.Fs.MountPaths

namespace Zapada.Ext

open Foundation Storage ExtLittleEndian ExtFeatureFlags StorageStatus

/-- How a call ends: it returns a status, or it leaves with the exception of an access
outside an array. -/
inductive Ending where
  | returned (rc : Int)
  | fault
deriving DecidableEq

def accessed : Option α → Except Ending α
  | none => .error .fault
  | some value => .ok value

/-- A reading that says `false` ends the call with `CorruptedData`. -/
def accepted : Option (Option α) → Except Ending α
  | none => .error .fault
  | some none => .error (.returned corruptedData)
  | some (some value) => .ok value

namespace ExtText

/-- The bytes that `ByteToString` maps to themselves. -/
def inByteTable (value : Nat) : Bool :=
  value = 0x20 || value = 0x21 || (0x23 ≤ value && value ≤ 0x29) ||
    (0x2D ≤ value && value ≤ 0x39) || (0x40 ≤ value && value ≤ 0x5A) || value = 0x5F ||
    (0x61 ≤ value && value ≤ 0x7A)

def byteToString (value : Nat) : Char := if inByteTable value then Char.ofNat value else '?'

end ExtText

namespace ExtFeatureFlags

def modeFileTypeMask : Nat := 0xF000
def modeDirectory : Nat := 0x4000
def modeRegularFile : Nat := 0x8000
def modeSymlink : Nat := 0xA000

end ExtFeatureFlags

namespace ExtSuperBlock

def has64Bit (superBlock : ExtSuperBlock) : Bool :=
  superBlock.featureIncompat &&& incompatSixtyFourBit ≠ 0

def groupDescriptorTableBlock (superBlock : ExtSuperBlock) : Nat :=
  if superBlock.blockSize = 1024 then 2 else 1

end ExtSuperBlock

/-- The fields of the superblock that tell where inodes lie. -/
structure ExtInodeLayout where
  inodesPerGroup : Nat
  inodeSize : Nat
  descriptorSize : Nat
  positive : 0 < inodesPerGroup
deriving DecidableEq

/-- The part of the superblock's `ReadFrom` that sets the layout. -/
def ExtInodeLayout.readFrom (buffer : Buffer) (offset : Nat) (has64Bit : Bool) :
    Option (Option ExtInodeLayout) := do
  let inodesPerGroup ← readInt32 buffer (offset + 40)
  let inodeSize ← readUInt16 buffer (offset + 88)
  let descriptorSize ← readUInt16 buffer (offset + 254)
  if positive : 0 < inodesPerGroup.toInt then
    return some {
      inodesPerGroup := inodesPerGroup.toInt.toNat
      inodeSize := if inodeSize ≤ 0 then 128 else inodeSize
      descriptorSize := if descriptorSize < 32 ∨ !has64Bit then 32 else descriptorSize
      positive := by omega }
  else return none

structure ExtInodeReader extends ExtVolumeReader where
  layout : ExtInodeLayout

theorem sectors_bounded : 1024 < 2 ^ 31 := by
  decide

/-- `Initialize`; the layout is read from the superblock's bytes. -/
def initializeInodeReader (partition : Option PartitionView) : Except Ending ExtInodeReader := do
  match ← accessed (initializeReader partition) with
  | .error rc => .error (.returned rc)
  | .ok reader =>
    let bytes := (reader.partition.readSectors 2 2).2
    let layout ← accepted
      (ExtInodeLayout.readFrom ⟨1024, bytes, sectors_bounded⟩ 0 reader.superBlock.has64Bit)
    return { reader with layout }

/-- `ExtBlockGroupDescriptor.ReadFrom`: the block where the inode table starts. -/
def readInodeTableBlock (buffer : Buffer) (offset : Nat) (has64Bit : Bool) :
    Option (Option Int) := do
  let inodeTableLow ← readUInt32 buffer (offset + 8)
  let inodeTableHigh ← if has64Bit then readUInt32 buffer (offset + 0x28) else some 0
  let inodeTableBlock := int64 (inodeTableLow ||| inodeTableHigh <<< 32 : Nat)
  return if 0 < inodeTableBlock then some inodeTableBlock else none

structure ExtNodeInode extends ExtInode where
  mode : Nat
  size : Int
  modificationTime : Int

namespace ExtNodeInode

def fileType (mode : Nat) : Nat := mode &&& modeFileTypeMask

def isDirectory (inode : ExtNodeInode) : Bool := fileType inode.mode = modeDirectory

def isRegularFile (inode : ExtNodeInode) : Bool :=
  fileType inode.mode = modeRegularFile

def isSymlink (inode : ExtNodeInode) : Bool := fileType inode.mode = modeSymlink

def readFrom (buffer : Buffer) (offset : Nat) : Option (Option ExtNodeInode) := do
  let mode ← readUInt16 buffer (offset + 0)
  let sizeLow ← readUInt32 buffer (offset + 4)
  let modificationTime ← readInt32 buffer (offset + 16)
  let _linksCount ← readUInt16 buffer (offset + 26)
  let flags ← readInt32 buffer (offset + 32)
  let sizeHigh ← if fileType mode = modeRegularFile then
    readUInt32 buffer (offset + 108) else some 0
  -- The copy of the block map touches every byte of it.
  let _last ← readByte buffer (offset + 40 + 59)
  if mode = 0 then return none
  return some {
    flags
    blockMap := fun i => buffer.bytes (offset + 40 + i)
    mode
    size := int64 (sizeLow ||| sizeHigh <<< 32 : Nat)
    modificationTime := modificationTime.toInt }

end ExtNodeInode

structure ExtDirectoryRecord where
  inodeNumber : BitVec 32
  recordLength : Nat
  nameLength : Nat
  fileType : Nat
deriving DecidableEq

namespace ExtDirectoryRecord

def fileTypeRegularFile : Nat := 1
def fileTypeDirectory : Nat := 2
def fileTypeSymlink : Nat := 7

def readFrom (buffer : Buffer) (offset limit : Nat) : Option (Option ExtDirectoryRecord) :=
  if limit < offset + 8 then some none
  else do
    let inodeNumber ← readInt32 buffer (offset + 0)
    let recordLength ← readUInt16 buffer (offset + 4)
    let nameLength ← readByte buffer (offset + 6)
    let fileType ← readByte buffer (offset + 7)
    if recordLength < 8 ∨ limit < offset + recordLength then return none
    if nameLength ≤ recordLength - 8 then
      return some { inodeNumber, recordLength, nameLength, fileType }
    else return none

def isDotName (record : ExtDirectoryRecord) (buffer : Buffer) (offset : Nat) : Option Bool :=
  if record.nameLength = 1 then do
    return (← readByte buffer (offset + 8)) = '.'.toNat
  else if record.nameLength = 2 then do
    if (← readByte buffer (offset + 8)) = '.'.toNat then
      return (← readByte buffer (offset + 9)) = '.'.toNat
    else return false
  else some false

/-- The loop of `NameMatches` over the characters that are left. -/
def nameMatchesFrom (buffer : Buffer) : (offset : Nat) → List Char → Option Bool
  | _, [] => some true
  | offset, char :: rest => do
    let diskByte ← readByte buffer offset
    if char.toNat ≠ diskByte then return false
    nameMatchesFrom buffer (offset + 1) rest

def nameMatches (record : ExtDirectoryRecord) (component : List Char) (buffer : Buffer)
    (offset : Nat) : Option Bool :=
  if component.length ≠ record.nameLength then some false
  else nameMatchesFrom buffer (offset + 8) component

def readName (record : ExtDirectoryRecord) (buffer : Buffer) (offset : Nat) : Option (List Char) :=
  (List.range record.nameLength).mapM fun i =>
    (readByte buffer (offset + 8 + i)).map ExtText.byteToString

end ExtDirectoryRecord

namespace ExtInodeReader

def readGroupDescriptor (reader : ExtInodeReader) (group : Nat) : Except Ending Int :=
  let blockSize := reader.superBlock.blockSize
  let descriptorOffset := group * reader.layout.descriptorSize
  let block := reader.superBlock.groupDescriptorTableBlock + descriptorOffset / blockSize
  let offset := descriptorOffset % blockSize
  if blockSize < offset + reader.layout.descriptorSize then
    .error (.returned notSupported)
  else
    match reader.readBlock block with
    | .error readRc => .error (.returned readRc)
    | .ok blockBytes => accepted (readInodeTableBlock blockBytes offset reader.superBlock.has64Bit)

def readInode (reader : ExtInodeReader) (inodeNumber : BitVec 32) : Except Ending ExtNodeInode :=
  if inodeNumber.toInt ≤ 0 then .error (.returned invalidArgument)
  else
    let blockSize := reader.superBlock.blockSize
    let group := (inodeNumber.toInt - 1).toNat / reader.layout.inodesPerGroup
    let indexInGroup := (inodeNumber.toInt - 1).toNat % reader.layout.inodesPerGroup
    match reader.readGroupDescriptor group with
    | .error ending => .error ending
    | .ok inodeTableBlock =>
      let inodeOffset := indexInGroup * reader.layout.inodeSize
      let inodeBlock := int64 (inodeTableBlock + (inodeOffset / blockSize : Nat))
      let offsetInBlock := inodeOffset % blockSize
      if blockSize < offsetInBlock + reader.layout.inodeSize then
        .error (.returned notSupported)
      else
        match reader.readBlock inodeBlock with
        | .error readRc => .error (.returned readRc)
        | .ok block => accepted (ExtNodeInode.readFrom block offsetInBlock)

def zeroBlock (reader : ExtInodeReader) : Buffer :=
  ⟨reader.superBlock.blockSize, fun _ => 0, reader.blockSize_lt⟩

def readMappedBlock (reader : ExtInodeReader) (inode : ExtNodeInode) (logicalBlock : Int) :
    Except Ending Buffer := do
  let physicalBlock ← accessed (reader.mapLogicalBlock (some inode.toExtInode) logicalBlock)
  if physicalBlock < 0 then .error (.returned (int32 physicalBlock))
  else if physicalBlock = 0 then .ok reader.zeroBlock
  else
    match reader.readBlock physicalBlock with
    | .error readRc => .error (.returned readRc)
    | .ok block => .ok block

end ExtInodeReader

/-- The walk over a directory that listing and lookup share: `visit` sees one record
after the other and may end the call, `halted` is how the call ends otherwise. -/
structure RecordWalk (σ ρ : Type) where
  visit : σ → (block : Buffer) → (pos : Nat) → ExtDirectoryRecord → Except ρ σ
  halted : σ → Ending → ρ

namespace RecordWalk

variable {σ ρ : Type} (walk : RecordWalk σ ρ)

/-- The loop over the records of a block. A record takes eight bytes or more, so that
`records` bounds the rounds that are left. -/
def overRecords (block : Buffer) (limit : Nat) : (records pos : Nat) → σ → Except ρ σ
  | 0, _, state => .ok state
  | records + 1, pos, state =>
    if pos + 8 ≤ limit then
      match accepted (ExtDirectoryRecord.readFrom block pos limit) with
      | .error ending => .error (walk.halted state ending)
      | .ok record =>
        if record.recordLength = 0 then
          .error (walk.halted state (.returned corruptedData))
        else
          match walk.visit state block pos record with
          | .error result => .error result
          | .ok state => overRecords block limit records (pos + record.recordLength) state
    else .ok state

/-- The loop over the blocks of a directory, `blocks` of which are left. -/
def overBlocks (reader : ExtInodeReader) (directory : ExtNodeInode) :
    (blocks : Nat) → (logicalBlock bytesRemaining : Int) → σ → Except ρ σ
  | 0, _, _, state => .ok state
  | blocks + 1, logicalBlock, bytesRemaining, state =>
    match reader.readMappedBlock directory logicalBlock with
    | .error ending => .error (walk.halted state ending)
    | .ok block =>
      let blockSize := reader.superBlock.blockSize
      let limit := if bytesRemaining < blockSize then bytesRemaining.toNat else blockSize
      match walk.overRecords block limit (limit / 8) 0 state with
      | .error result => .error result
      | .ok state =>
        overBlocks reader directory blocks (logicalBlock + 1) (bytesRemaining - blockSize) state

def overDirectory (reader : ExtInodeReader) (directory : ExtNodeInode) (state : σ) : Except ρ σ :=
  let blockSize := reader.superBlock.blockSize
  walk.overBlocks reader directory ((directory.size.toNat + blockSize - 1) / blockSize) 0
    directory.size state

end RecordWalk

/-- The body of the loop of `FindEntryInDirectory`. -/
def findWalk (component : List Char) : RecordWalk Unit (Except Ending ExtDirectoryRecord) where
  visit _ block pos record :=
    if record.inodeNumber = 0 then .ok ()
    else
      match record.nameMatches component block pos with
      | none => .error (.error .fault)
      | some true => .error (.ok record)
      | some false => .ok ()
  halted _ ending := .error ending

def ExtInodeReader.findEntryInDirectory (reader : ExtInodeReader) (directory : ExtNodeInode)
    (component : List Char) : Except Ending ExtDirectoryRecord :=
  if !directory.isDirectory then .error (.returned notDirectory)
  else
    match (findWalk component).overDirectory reader directory () with
    | .error result => result
    | .ok () => .error (.returned notFound)

end Zapada.Ext
