import Zapada.Foundation.ByteStrings

/-! The reader for cpio archives in the newc format of `initramfs/cpio.c`. Positions are
32-bit offsets into the archive; names are NUL-terminated strings in it. -/

namespace Zapada.Initramfs

open Foundation

inductive CpioStatus where
  | ok
  | invalidFormat
  | endOfArchive
  | outputOverflow
  | invalidFilename
deriving DecidableEq, Repr

def u32 (value : Nat) : Nat := value % 2 ^ 32

def cpioTrailer : List UInt8 := [0x54, 0x52, 0x41, 0x49, 0x4C, 0x45, 0x52, 0x21, 0x21, 0x21]

def cpioCheckMagic (archive : Memory) (ptr : Nat) : Bool :=
  archive ptr = 0x30 && archive (ptr + 1) = 0x37 && archive (ptr + 2) = 0x30 &&
    archive (ptr + 3) = 0x37 && archive (ptr + 4) = 0x30 && archive (ptr + 5) = 0x31

/-- The digit of a character in `cpio_parse_hex`. -/
def hexDigit (c : UInt8) : Option Nat :=
  if 0x30 ≤ c ∧ c ≤ 0x39 then some (c.toNat - 0x30)
  else if 0x61 ≤ c ∧ c ≤ 0x66 then some (c.toNat - 0x61 + 10)
  else if 0x41 ≤ c ∧ c ≤ 0x46 then some (c.toNat - 0x41 + 10)
  else none

/-- The value after the first `len` rounds of the loop. -/
def parseHexDigits (archive : Memory) (ptr : Nat) : (len : Nat) → Option Nat
  | 0 => some 0
  | len + 1 =>
    match parseHexDigits archive ptr len, hexDigit (archive (ptr + len)) with
    | some val, some digit => some (u32 (val <<< 4) ||| digit)
    | _, _ => none

def cpioParseHex (archive : Memory) (ptr len : Nat) : Option Nat :=
  if len < 1 then none else parseHexDigits archive ptr len

/-- `cpio_strcmp` with a string in the archive; `true` if they differ. -/
def cpioStrcmp (archive : Memory) (a : Nat) : List UInt8 → Bool
  | [] => archive a ≠ 0
  | c :: b =>
    if archive a = 0 ∨ archive a ≠ c then archive a ≠ c else cpioStrcmp archive (a + 1) b

def cpioAlign4 (pos : Nat) : Nat := u32 (pos + 3) &&& (2 ^ 32 - 4)

structure CpioHeader where
  inode : Nat
  mode : Nat
  uid : Nat
  gid : Nat
  nlink : Nat
  mtime : Nat
  filesize : Nat
  devMajor : Nat
  devMinor : Nat
  rdevMajor : Nat
  rdevMinor : Nat
  namesize : Nat
  check : Nat
deriving DecidableEq

/-- A header, and where the name and the data are. -/
structure CpioEntry extends CpioHeader where
  filename : Nat
  data : Nat
deriving DecidableEq

structure CpioIterator where
  archive : Memory
  archiveSize : Nat
  pos : Nat
  entryCount : Nat

def cpioIterInit (archive : Memory) (archiveSize : Nat) : Except CpioStatus CpioIterator :=
  if archiveSize < 6 then .error .invalidFormat
  else if ¬ cpioCheckMagic archive 0 then .error .invalidFormat
  else .ok { archive, archiveSize, pos := 0, entryCount := 0 }

def cpioParseHeader (archive : Memory) (ptr : Nat) : Option CpioHeader := do
  let inode ← cpioParseHex archive (ptr + 6) 8
  let mode ← cpioParseHex archive (ptr + 14) 8
  let uid ← cpioParseHex archive (ptr + 22) 8
  let gid ← cpioParseHex archive (ptr + 30) 8
  let nlink ← cpioParseHex archive (ptr + 38) 8
  let mtime ← cpioParseHex archive (ptr + 46) 8
  let filesize ← cpioParseHex archive (ptr + 54) 8
  let devMajor ← cpioParseHex archive (ptr + 62) 8
  let devMinor ← cpioParseHex archive (ptr + 70) 8
  let rdevMajor ← cpioParseHex archive (ptr + 78) 8
  let rdevMinor ← cpioParseHex archive (ptr + 86) 8
  let namesize ← cpioParseHex archive (ptr + 94) 8
  let check ← cpioParseHex archive (ptr + 102) 8
  some { inode, mode, uid, gid, nlink, mtime, filesize, devMajor, devMinor, rdevMajor, rdevMinor,
         namesize, check }

def cpioIterNext (iter : CpioIterator) : Except CpioStatus (CpioEntry × CpioIterator) :=
  if iter.archiveSize ≤ iter.pos then .error .invalidFormat
  else if iter.archiveSize - iter.pos < 6 then .error .invalidFormat
  else if ¬ cpioCheckMagic iter.archive iter.pos then .error .invalidFormat
  else if iter.archiveSize - iter.pos < 110 then .error .invalidFormat
  else
    match cpioParseHeader iter.archive iter.pos with
    | none => .error .invalidFormat
    | some header =>
      let filename := u32 (iter.pos + 110)
      if iter.archiveSize < u32 (filename + header.namesize) then .error .invalidFormat
      else if ¬ cpioStrcmp iter.archive filename cpioTrailer then .error .endOfArchive
      else
        let data := cpioAlign4 (u32 (filename + header.namesize))
        if iter.archiveSize < u32 (data + header.filesize) then .error .invalidFormat
        else
          .ok ({ header with filename, data },
            { iter with pos := cpioAlign4 (u32 (data + header.filesize)),
                        entryCount := u32 (iter.entryCount + 1) })

/-- What `cpio_extract_file` returns, the destination after it, and the length it stores. -/
structure Extracted where
  status : CpioStatus
  dst : Memory
  outLen : Option Nat

/-- The loop of `cpio_extract_file`; `none` if it has not ended after `fuel` rounds. -/
def cpioExtractFrom (filename : List UInt8) (dst : Memory) (dstLen : Nat) :
    (fuel : Nat) → CpioIterator → Option Extracted
  | 0, _ => none
  | fuel + 1, iter =>
    match cpioIterNext iter with
    | .error .endOfArchive => some { status := .invalidFilename, dst, outLen := none }
    | .error status => some { status, dst, outLen := none }
    | .ok (entry, next) =>
      if ¬ cpioStrcmp iter.archive entry.filename filename then
        if dstLen < entry.filesize then some { status := .outputOverflow, dst, outLen := none }
        else
          some { status := .ok, dst := dst.copy 0 entry.filesize iter.archive entry.data,
                 outLen := some entry.filesize }
      else cpioExtractFrom filename dst dstLen fuel next

def cpioExtractFile (fuel : Nat) (archive : Memory) (archiveSize : Nat) (filename : List UInt8)
    (dst : Memory) (dstLen : Nat) : Option Extracted :=
  match cpioIterInit archive archiveSize with
  | .error status => some { status, dst, outLen := none }
  | .ok iter => cpioExtractFrom filename dst dstLen fuel iter

/-- The entries up to the first call that does not return one, and its status; `none` if
that was not reached after `fuel` calls. -/
def cpioEntries : (fuel : Nat) → CpioIterator → List CpioEntry × Option CpioStatus
  | 0, _ => ([], none)
  | fuel + 1, iter =>
    match cpioIterNext iter with
    | .error status => ([], some status)
    | .ok (entry, next) => (entry :: (cpioEntries fuel next).1, (cpioEntries fuel next).2)

/-! The newc format: each entry is a header of hexadecimal numbers, the name with its
terminator, and the data, both padded to four bytes; a trailer entry ends the archive. -/

/-- The numbers of a header apart from the two sizes. -/
structure Attributes where
  inode : UInt32
  mode : UInt32
  uid : UInt32
  gid : UInt32
  nlink : UInt32
  mtime : UInt32
  devMajor : UInt32
  devMinor : UInt32
  rdevMajor : UInt32
  rdevMinor : UInt32
  check : UInt32

/-- The header with these attributes and sizes. -/
def Attributes.header (attributes : Attributes) (filesize namesize : Nat) : CpioHeader where
  inode := attributes.inode.toNat
  mode := attributes.mode.toNat
  uid := attributes.uid.toNat
  gid := attributes.gid.toNat
  nlink := attributes.nlink.toNat
  mtime := attributes.mtime.toNat
  filesize := filesize
  devMajor := attributes.devMajor.toNat
  devMinor := attributes.devMinor.toNat
  rdevMajor := attributes.rdevMajor.toNat
  rdevMinor := attributes.rdevMinor.toNat
  namesize := namesize
  check := attributes.check.toNat

structure ArchiveEntry extends Attributes where
  name : List UInt8
  data : List UInt8
  noNul : 0 ∉ name
  notTrailer : name ≠ cpioTrailer

def hexChar (upper : Bool) (digit : Nat) : UInt8 :=
  if digit < 10 then UInt8.ofNat (0x30 + digit)
  else if upper then UInt8.ofNat (0x41 + (digit - 10)) else UInt8.ofNat (0x61 + (digit - 10))

def hexField (upper : Bool) : (len value : Nat) → List UInt8
  | 0, _ => []
  | len + 1, value => hexField upper len (value / 16) ++ [hexChar upper (value % 16)]

def newcMagic : List UInt8 := [0x30, 0x37, 0x30, 0x37, 0x30, 0x31]

def headerBytes (upper : Bool) (attributes : Attributes) (filesize namesize : Nat) : List UInt8 :=
  let field (value : Nat) := hexField upper 8 value
  newcMagic ++ field attributes.inode.toNat ++ field attributes.mode.toNat ++
    field attributes.uid.toNat ++ field attributes.gid.toNat ++ field attributes.nlink.toNat ++
    field attributes.mtime.toNat ++ field filesize ++ field attributes.devMajor.toNat ++
    field attributes.devMinor.toNat ++ field attributes.rdevMajor.toNat ++
    field attributes.rdevMinor.toNat ++ field namesize ++ field attributes.check.toNat

def recordBytes (upper : Bool) (attributes : Attributes) (name data : List UInt8) : List UInt8 :=
  pad4 (headerBytes upper attributes data.length (name.length + 1) ++ (name ++ [0])) ++ pad4 data

/-- The trailer has a header with any attributes, and no data. -/
def archiveBytes (upper : Bool) (trailer : Attributes) : List ArchiveEntry → List UInt8
  | [] => recordBytes upper trailer cpioTrailer []
  | entry :: entries =>
    recordBytes upper entry.toAttributes entry.name entry.data ++ archiveBytes upper trailer entries

structure ReadsAs (archive : Memory) (found : CpioEntry) (entry : ArchiveEntry) : Prop where
  header : found.toCpioHeader = entry.header entry.data.length (entry.name.length + 1)
  name : archive.Shows found.filename (entry.name ++ [0])
  data : archive.Shows found.data entry.data

/-- The data of the first file with this name, in front of what the destination held. -/
def extraction (entries : List ArchiveEntry) (filename : List UInt8) (dst : Memory) : Extracted :=
  match entries.find? fun entry => entry.name = filename with
  | none => { status := .invalidFilename, dst, outLen := none }
  | some entry =>
    { status := .ok, dst := fun i => entry.data.getD i (dst i), outLen := some entry.data.length }

end Zapada.Initramfs
