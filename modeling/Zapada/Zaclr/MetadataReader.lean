import Zapada.Foundation.Bytes

/-! The reader of the metadata tables: the stream headers, the placing of the tables in
the `#~` stream, the row getters and the string and blob heaps. Addresses count from the
metadata root. -/

namespace Zapada.Zaclr

open Foundation

inductive MetadataFailure where
  | invalidArgument
  | badMetadata
  /-- A scan for a terminating zero leaves the address space. -/
  | fault
deriving DecidableEq

structure Slice where
  data : Nat
  size : Nat
deriving DecidableEq

def readU16 (memory : Memory) (p : Nat) : Nat := memory.load p 2

def readU32 (memory : Memory) (p : Nat) : Nat := memory.load p 4

/-- The loop of `kernel_strlen` over the bytes that are left of the address space. -/
def strlenFrom (memory : Memory) : (left p : Nat) → Option Nat
  | 0, _ => none
  | left + 1, p => if memory p = 0 then some 0 else (strlenFrom memory left (p + 1)).map (· + 1)

def kernelStrlen (memory : Memory) (text : Nat) : Option Nat := strlenFrom memory (2 ^ 64) text

def maxTables : Nat := 64

/-- What the widths of the columns depend on. -/
@[ext] structure MetadataShape where
  heapSizes : BitVec 8
  rowCounts : Nat → Nat

namespace MetadataShape

def heapIndexSize (shape : MetadataShape) (heapBit : BitVec 8) : Nat :=
  if shape.heapSizes &&& heapBit ≠ 0 then 4 else 2

def tableIndexSize (shape : MetadataShape) (table : Nat) : Nat :=
  if maxTables ≤ table then 2 else if 0xFFFF < shape.rowCounts table then 4 else 2

def maxRowsForTables (shape : MetadataShape) (tables : List Nat) : Nat :=
  tables.foldl (fun maxRows table =>
    if table < maxTables ∧ maxRows < shape.rowCounts table then
      shape.rowCounts table else maxRows) 0

def codedIndexSize (shape : MetadataShape) (tables : List Nat) (tagBits : Nat) : Nat :=
  if 1 <<< (16 - tagBits) ≤ shape.maxRowsForTables tables then 4 else 2

end MetadataShape

inductive Column where
  | u16
  | u32
  | string
  | guid
  | blob
  | table (id : Nat)
  | coded (tables : List Nat) (tagBits : Nat)
deriving DecidableEq

def Column.width (shape : MetadataShape) : Column → Nat
  | .u16 => 2
  | .u32 => 4
  | .string => shape.heapIndexSize 0x01
  | .guid => shape.heapIndexSize 0x02
  | .blob => shape.heapIndexSize 0x04
  | .table id => shape.tableIndexSize id
  | .coded tables tagBits => shape.codedIndexSize tables tagBits

-- the coded indices, with the tables in the order of their tags

def resolutionScope : Column := .coded [0x00, 0x1A, 0x23, 0x01] 2
def typedefOrRef : Column := .coded [0x02, 0x01, 0x1B] 2
def hasConstant : Column := .coded [0x04, 0x08, 0x17] 2
def hasCustomAttribute : Column :=
  .coded [0x06, 0x04, 0x01, 0x02, 0x08, 0x09, 0x0A, 0x00, 0x0E, 0x17, 0x14, 0x11, 0x1A, 0x1B, 0x20,
    0x23, 0x26, 0x27, 0x2A, 0x2C, 0x2B] 5
def customAttributeType : Column := .coded [0x06, 0x0A] 3
def hasFieldMarshal : Column := .coded [0x04, 0x08] 1
def hasDeclSecurity : Column := .coded [0x02, 0x06, 0x20] 2
def memberRefParent : Column := .coded [0x02, 0x01, 0x1A, 0x06, 0x1B] 3
def hasSemantics : Column := .coded [0x14, 0x17] 1
def methodDefOrRef : Column := .coded [0x06, 0x0A] 1
def memberForwarded : Column := .coded [0x04, 0x06] 1
def implementation : Column := .coded [0x26, 0x27, 0x23] 2
def typeOrMethodDef : Column := .coded [0x02, 0x06] 1

/-- The columns whose widths `table_row_size` adds up. -/
def tableColumns : (table : Nat) → List Column
  | 0x00 => [.u16, .string, .guid, .guid, .guid]
  | 0x01 => [resolutionScope, .string, .string]
  | 0x02 => [.u32, .string, .string, typedefOrRef, .table 0x04, .table 0x06]
  | 0x03 => [.table 0x04]
  | 0x04 => [.u16, .string, .blob]
  | 0x05 => [.table 0x06]
  | 0x06 => [.u32, .u16, .u16, .string, .blob, .table 0x08]
  | 0x07 => [.table 0x08]
  | 0x08 => [.u16, .u16, .string]
  | 0x09 => [.table 0x02, typedefOrRef]
  | 0x0A => [memberRefParent, .string, .blob]
  | 0x0B => [.u16, hasConstant, .blob]
  | 0x0C => [hasCustomAttribute, customAttributeType, .blob]
  | 0x0D => [hasFieldMarshal, .blob]
  | 0x0E => [.u16, hasDeclSecurity, .blob]
  | 0x0F => [.u16, .u32, .table 0x02]
  | 0x10 => [.u32, .table 0x04]
  | 0x11 => [.blob]
  | 0x12 => [.table 0x02, .table 0x14]
  | 0x13 => [.table 0x14]
  | 0x14 => [.u16, .string, typedefOrRef]
  | 0x15 => [.table 0x02, .table 0x17]
  | 0x16 => [.table 0x17]
  | 0x17 => [.u16, .string, .blob]
  | 0x18 => [.u16, .table 0x06, hasSemantics]
  | 0x19 => [.table 0x02, methodDefOrRef, methodDefOrRef]
  | 0x1A => [.string]
  | 0x1B => [.blob]
  | 0x1C => [.u16, memberForwarded, .string, .table 0x1A]
  | 0x1D => [.u32, .table 0x04]
  | 0x1E => [.u32, .table 0x14]
  | 0x20 => [.u32, .u16, .u16, .u16, .u16, .u32, .blob, .string, .string]
  | 0x21 => [.u32]
  | 0x22 => [.u32, .u32, .string, .blob]
  | 0x23 => [.u16, .u16, .u16, .u16, .u32, .blob, .string, .string, .blob]
  | 0x24 => [.u32, .table 0x26, .table 0x23]
  | 0x25 => [.u32, .table 0x23, .table 0x23]
  | 0x26 => [.u32, .string, .blob]
  | 0x27 => [.u32, .u32, .string, .string, implementation]
  | 0x28 => [.u32, .u32, .string, implementation]
  | 0x29 => [.table 0x02, .table 0x02]
  | 0x2A => [.u16, .u16, typeOrMethodDef, .string]
  | 0x2B => [methodDefOrRef, .blob]
  | 0x2C => [.table 0x2A, typedefOrRef]
  | _ => []

def columnsWidth (shape : MetadataShape) (columns : List Column) : Nat :=
  (columns.map (Column.width shape)).sum

def tableRowSize (shape : MetadataShape) (table : Nat) : Nat :=
  columnsWidth shape (tableColumns table)

structure TableView where
  rows : Nat
  rowSize : Nat
  rowCount : Nat
deriving DecidableEq

/-- A reader after `initialize`; a table that is not there has no view, a heap that is
not there no slice. -/
structure MetadataReader extends MetadataShape where
  stringsHeap : Option Slice
  blobHeap : Option Slice
  userStringHeap : Option Slice
  tildeStream : Slice
  tables : Nat → Option TableView
  assemblyNameIndex : Nat

/-- One field after the other, from `p` on. -/
def readColumns (memory : Memory) (shape : MetadataShape) : (p : Nat) → List Column → List Nat
  | _, [] => []
  | p, column :: rest =>
    memory.load p (column.width shape) :: readColumns memory shape (p + column.width shape) rest

structure RowGetter where
  table : Nat
  columns : List Column
deriving DecidableEq

namespace RowGetter

def start (getter : RowGetter) (tables : Nat → Option TableView) (row : Nat) :
    Except MetadataFailure Nat :=
  match tables getter.table with
  | none => .error .badMetadata
  | some view =>
    if row = 0 ∨ view.rowCount < row then .error .badMetadata
    else .ok (view.rows + (row - 1) * view.rowSize % 2 ^ 32)

def get (getter : RowGetter) (memory : Memory) (shape : MetadataShape)
    (tables : Nat → Option TableView) (row : Nat) : Except MetadataFailure (List Nat) :=
  (getter.start tables row).map fun p => readColumns memory shape p getter.columns

end RowGetter

def assemblyRow : RowGetter := ⟨0x20, [.u32, .u16, .u16, .u16, .u16, .u32, .blob, .string, .string]⟩
def moduleRow : RowGetter := ⟨0x00, [.u16, .string, .guid, .guid, .guid]⟩
def typedefRow : RowGetter :=
  ⟨0x02, [.u32, .string, .string, typedefOrRef, .table 0x04, .table 0x06]⟩
def fieldRow : RowGetter := ⟨0x04, [.u16, .string, .blob]⟩
def methoddefRow : RowGetter := ⟨0x06, [.u32, .u16, .u16, .string, .blob, .table 0x08]⟩
def paramRow : RowGetter := ⟨0x08, [.u16, .u16, .string]⟩
def memberrefRow : RowGetter := ⟨0x0A, [memberRefParent, .string, .blob]⟩
def constantRow : RowGetter := ⟨0x0B, [.u16, hasConstant, .blob]⟩
def customattributeRow : RowGetter := ⟨0x0C, [hasCustomAttribute, customAttributeType, .blob]⟩
def fieldmarshalRow : RowGetter := ⟨0x0D, [hasFieldMarshal, .blob]⟩
def classlayoutRow : RowGetter := ⟨0x0F, [.u16, .u32, .table 0x02]⟩
def fieldlayoutRow : RowGetter := ⟨0x10, [.u32, .table 0x04]⟩
def eventRow : RowGetter := ⟨0x14, [.u16, .string, typedefOrRef]⟩
def propertyRow : RowGetter := ⟨0x17, [.u16, .string, .blob]⟩
def genericparamRow : RowGetter := ⟨0x2A, [.u16, .u16, typeOrMethodDef, .string]⟩
def assemblyrefRow : RowGetter :=
  ⟨0x23, [.u16, .u16, .u16, .u16, .u32, .blob, .string, .string, .blob]⟩
def exportedtypeRow : RowGetter := ⟨0x27, [.u32, .u32, .string, .string, implementation]⟩
def standalonesigRow : RowGetter := ⟨0x11, [.blob]⟩
def modulerefRow : RowGetter := ⟨0x1A, [.string]⟩
def implmapRow : RowGetter := ⟨0x1C, [.u16, memberForwarded, .string, .table 0x1A]⟩
def methodspecRow : RowGetter := ⟨0x2B, [methodDefOrRef, .blob]⟩
def nestedclassRow : RowGetter := ⟨0x29, [.table 0x02, .table 0x02]⟩

def rowGetters : List RowGetter :=
  [assemblyRow, moduleRow, typedefRow, fieldRow, methoddefRow, paramRow, memberrefRow, constantRow,
    customattributeRow, fieldmarshalRow, classlayoutRow, fieldlayoutRow, eventRow, propertyRow,
    genericparamRow, assemblyrefRow, exportedtypeRow, standalonesigRow, modulerefRow, implmapRow,
    methodspecRow, nestedclassRow]

/-- The first loop of `parse_tilde_stream`: the row counts of the tables that are left. -/
def readRowCounts (memory : Memory) (tilde : Slice) (validMask : BitVec 64) :
    (tables : List Nat) → (rowCountsPtr : Nat) → (counts : Nat → Nat) →
      Except MetadataFailure (Nat × (Nat → Nat))
  | [], rowCountsPtr, counts => .ok (rowCountsPtr, counts)
  | table :: rest, rowCountsPtr, counts =>
    if validMask.getLsbD table then
      if tilde.size < rowCountsPtr - tilde.data + 4 then .error .badMetadata
      else readRowCounts memory tilde validMask rest (rowCountsPtr + 4)
        (Function.update counts table (readU32 memory rowCountsPtr))
    else readRowCounts memory tilde validMask rest rowCountsPtr counts

/-- The second loop: where the rows of the tables that are left lie. -/
def placeTables (shape : MetadataShape) (tilde : Slice) (validMask : BitVec 64) :
    (tables : List Nat) → (tablePtr : Nat) → (views : Nat → Option TableView) →
      Except MetadataFailure (Nat → Option TableView)
  | [], _, views => .ok views
  | table :: rest, tablePtr, views =>
    if validMask.getLsbD table then
      let rowSize := tableRowSize shape table
      if rowSize = 0 ∧ shape.rowCounts table ≠ 0 then .error .badMetadata
      else
        let bytesRequired := rowSize * shape.rowCounts table % 2 ^ 32
        if tilde.size < tablePtr - tilde.data + bytesRequired then .error .badMetadata
        else placeTables shape tilde validMask rest (tablePtr + bytesRequired)
          (Function.update views table (some ⟨tablePtr, rowSize, shape.rowCounts table⟩))
    else placeTables shape tilde validMask rest tablePtr views

structure Streams where
  strings : Option Slice
  blob : Option Slice
  userString : Option Slice
  tilde : Option Slice

/-- The end of `parse_tilde_stream`: the name is the eighth field of the only row. -/
def readAssemblyNameIndex (memory : Memory) (shape : MetadataShape)
    (tables : Nat → Option TableView) :
    Except MetadataFailure Nat :=
  if 0 < shape.rowCounts 0x20 then
    (assemblyRow.get memory shape tables 1).map fun row => row.getD 7 0
  else .ok 0

def parseTildeStream (memory : Memory) (streams : Streams) (tilde : Slice) :
    Except MetadataFailure MetadataReader :=
  if tilde.size < 24 then .error .badMetadata
  else do
    let heapSizes := (memory (tilde.data + 6)).toBitVec
    let validMask := BitVec.ofNat 64
      (readU32 memory (tilde.data + 8) ||| readU32 memory (tilde.data + 12) <<< 32)
    let (tablePtr, rowCounts) ←
      readRowCounts memory tilde validMask (List.range maxTables) (tilde.data + 24) fun _ => 0
    let shape : MetadataShape := { heapSizes, rowCounts }
    let tables ← placeTables shape tilde validMask (List.range maxTables) tablePtr fun _ => none
    let assemblyNameIndex ← readAssemblyNameIndex memory shape tables
    return {
      heapSizes
      rowCounts
      stringsHeap := streams.strings
      blobHeap := streams.blob
      userStringHeap := streams.userString
      tildeStream := tilde
      tables
      assemblyNameIndex }

def streamName (text : String) : List UInt8 := text.toList.map fun ch => UInt8.ofNat ch.toNat

/-- The loop of `initialize` over the stream headers that are left. -/
def readStreams (memory : Memory) (size : Nat) : (count streamPtr : Nat) → Streams →
      Except MetadataFailure Streams
  | 0, _, streams => .ok streams
  | count + 1, streamPtr, streams =>
    if size < streamPtr + 8 then .error .badMetadata
    else
      let slice : Slice := ⟨readU32 memory streamPtr, readU32 memory (streamPtr + 4)⟩
      match kernelStrlen memory (streamPtr + 8) with
      | none => .error .fault
      | some nameLength =>
        let paddedNameBytes := (nameLength + 1 + 3) &&& 0xFFFFFFFC
        if size < streamPtr + 8 + paddedNameBytes then .error .badMetadata
        else if size < slice.data + slice.size then .error .badMetadata
        else
          let name := (List.range nameLength).map fun i => memory (streamPtr + 8 + i)
          readStreams memory size count (streamPtr + (8 + paddedNameBytes))
            (if name = streamName "#Strings" then { streams with strings := some slice }
            else if name = streamName "#Blob" then { streams with blob := some slice }
            else if name = streamName "#US" then { streams with userString := some slice }
            else if name = streamName "#~" ∨ name = streamName "#-" then
              { streams with tilde := some slice } else streams)

/-- `zaclr_metadata_reader_initialize` for a root of `size` bytes; the sum in its second
check is one of 32 bits. -/
def initializeMetadata (memory : Memory) (size : Nat) : Except MetadataFailure MetadataReader :=
  if size < 20 then .error .invalidArgument
  else if readU32 memory 0 ≠ 0x424A5342 then .error .badMetadata
  else
    let versionLength := readU32 memory 12
    if size < (16 + versionLength + 4) % 2 ^ 32 then .error .badMetadata
    else do
      let streamCount := readU16 memory (16 + versionLength + 2)
      let streams ← readStreams memory size streamCount (16 + versionLength + 4)
        ⟨none, none, none, none⟩
      match streams.tilde with
      | none => .error .badMetadata
      | some tilde => parseTildeStream memory streams tilde

namespace MetadataReader

def getString (reader : MetadataReader) (memory : Memory) (index : Nat) :
    Except MetadataFailure Slice :=
  match reader.stringsHeap with
  | none => .error .badMetadata
  | some heap =>
    if heap.size ≤ index then .error .badMetadata
    else
      match kernelStrlen memory (heap.data + index) with
      | none => .error .fault
      | some length =>
        if heap.size ≤ index + length then .error .badMetadata
        else .ok ⟨heap.data + index, length⟩

/-- The length of a blob and where its bytes start. -/
def blobHeader (memory : Memory) (heap : Slice) (index : Nat) :
    Except MetadataFailure (Nat × Nat) :=
  let byte (offset : Nat) : Nat := (memory (heap.data + offset)).toNat
  let header := byte index
  if header &&& 0x80 = 0 then .ok (header, (index + 1) % 2 ^ 32)
  else if header &&& 0xC0 = 0x80 then
    if heap.size ≤ (index + 1) % 2 ^ 32 then .error .badMetadata
    else .ok ((header &&& 0x3F) <<< 8 ||| byte ((index + 1) % 2 ^ 32), (index + 2) % 2 ^ 32)
  else if heap.size ≤ (index + 3) % 2 ^ 32 then .error .badMetadata
  else .ok ((header &&& 0x1F) <<< 24 ||| byte ((index + 1) % 2 ^ 32) <<< 16 |||
    byte ((index + 2) % 2 ^ 32) <<< 8 ||| byte ((index + 3) % 2 ^ 32), (index + 4) % 2 ^ 32)

def getBlob (reader : MetadataReader) (memory : Memory) (index : Nat) :
    Except MetadataFailure Slice :=
  match reader.blobHeap with
  | none => .error .badMetadata
  | some heap =>
    if heap.size ≤ index then .error .badMetadata
    else do
      let (length, payloadOffset) ← blobHeader memory heap index
      if heap.size < payloadOffset + length then .error .badMetadata
      else .ok ⟨heap.data + payloadOffset, length⟩

end MetadataReader

end Zapada.Zaclr
