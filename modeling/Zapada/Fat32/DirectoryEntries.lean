import Mathlib.Data.List.DropRight
import Zapada.Fat32.Directories
import Zapada.Fat32.Image

namespace Zapada.Fat32

open Foundation Storage BufHelper BitVec

/-- The 32 bytes of a directory record. -/
abbrev Record := Memory

namespace Record

variable (record : Record)

def isEnd : Bool := record 0 = 0x00
def isDeleted : Bool := record 0 = 0xE5
def isLongNamePart : Bool := record 11 = 0x0F
def isVolumeLabel : Bool := record 11 &&& 0x08 ≠ 0
def isDirectory : Bool := record 11 &&& 0x10 ≠ 0

def isLive : Bool := !record.isDeleted && !record.isLongNamePart && !record.isVolumeLabel

def firstCluster : Int := int32 (65536 * record.load 20 2 + record.load 26 2 : Nat)
def size : Int := int32 (record.load 28 4)
def kind : Int := if record.isDirectory then 2 else 1

def facts : Int × Int × Int := (record.firstCluster, record.size, record.kind)

def field (start length : Nat) : List Nat :=
  (List.range length).map fun i => (record (start + i)).toNat

/-- A name field without the spaces that fill it up. -/
def trimmed (bytes : List Nat) : Name := (bytes.rdropWhile (· = 0x20)).map Char.ofNat

def name83 : Name :=
  let ext := trimmed (record.field 8 3)
  trimmed (record.field 0 8) ++ if ext = [] then [] else '.' :: ext

/-- A name field as `BuildShortName` prints it. -/
def printed (bytes : List Nat) : Name := (bytes.takeWhile (· ≠ 0x20)).map byteToString

def shortName : Name :=
  let ext := printed (record.field 8 3)
  printed (record.field 0 8) ++ if ext = [] then [] else '.' :: ext

def isDotName : Bool := record.shortName = ['.'] ∨ record.shortName = ['.', '.']

def entry : NodeEntry := ⟨record.firstCluster, record.size, record.kind, record.shortName⟩

end Record

/-- A part of a component as the bytes of a name field. -/
def padField (length : Nat) (part : Name) : List Nat :=
  (List.range length).map fun i =>
    match part[i]? with
    | some ch => toUpperAscii ch.toNat
    | none => 0x20

/-- The name field that a path component asks for, if it has the form of an 8.3 name. -/
def field83 (component : Name) : Option (List Nat) :=
  let base := component.takeWhile (· ≠ '.')
  let ext := (component.dropWhile (· ≠ '.')).drop 1
  if 1 < component.count '.' ∨ base.length = 0 ∨ 8 < base.length ∨ 3 < ext.length then none
  else some (padField 8 base ++ padField 3 ext)

/-- A record that a lookup of the component stops at. -/
def Record.answers (component : Name) (record : Record) : Bool :=
  !record.isDeleted && !record.isLongNamePart && decide
    (field83 component = some (record.field 0 11))

def recordAt (sector : Memory) (entOff : Nat) : Record := fun i => sector (entOff + i)

theorem load_recordAt (sector : Memory) (entOff address width : Nat) :
    (recordAt sector entOff).load address width = sector.load (entOff + address) width :=
  Memory.load_window sector entOff address width

theorem toNat_getByte (sector : Memory) (inside : off < 512) :
    (getByte (packSector sector) off).toNat = (sector off).toNat := by
  have small := (sector off).toNat_lt
  rw [getByte_packSector sector inside, toNat_ofNat, Nat.mod_eq_of_lt (by omega)]

theorem ofNat_byte_eq (byte other : UInt8) :
    BitVec.ofNat 32 byte.toNat = BitVec.ofNat 32 other.toNat ↔ byte = other := by
  have one := byte.toNat_lt
  have two := other.toNat_lt
  rw [← toNat_inj, toNat_ofNat, toNat_ofNat, Nat.mod_eq_of_lt (by omega),
    Nat.mod_eq_of_lt (by omega), UInt8.toNat_inj]

theorem ofNat_byte_and (byte mask : UInt8) :
    BitVec.ofNat 32 byte.toNat &&& BitVec.ofNat 32 mask.toNat = 0 ↔ byte &&& mask = 0 := by
  have one := byte.toNat_lt
  have two := mask.toNat_lt
  rw [← toNat_inj, ← UInt8.toNat_inj, toNat_and, toNat_ofNat, toNat_ofNat,
    Nat.mod_eq_of_lt (by omega), Nat.mod_eq_of_lt (by omega), UInt8.toNat_and]
  rfl

theorem ofNat_words (inLow : low < 256 ^ 2) :
    BitVec.ofNat 32 high <<< 16 ||| BitVec.ofNat 32 low = BitVec.ofNat 32 (65536 * high + low) := by
  rw [BitVec.or_comm, ofNat_or_shift _ _ _ _ inLow, Nat.add_comm]
  rfl

section Reading

variable (sector : Memory) {entOff : Nat} (inside : entOff + 31 < 512)
include inside

theorem getByte_eq_iff (i : Nat) (low : i < 32) (other : UInt8) :
    getByte (packSector sector) (entOff + i) = BitVec.ofNat 32 other.toNat ↔
      recordAt sector entOff i = other := by
  rw [getByte_packSector sector (by omega), ofNat_byte_eq]
  rfl

theorem getByte_and_iff (mask : UInt8) :
    getByte (packSector sector) (entOff + 11) &&& BitVec.ofNat 32 mask.toNat = 0 ↔
      recordAt sector entOff 11 &&& mask = 0 := by
  rw [getByte_packSector sector (by omega), ofNat_byte_and]
  rfl

theorem field_eq (low : start + length ≤ 32) : (List.range length).map (fun i =>
        (getByte (packSector sector) (entOff + start + i)).toNat) =
      (recordAt sector entOff).field start length := by
  refine List.map_congr_left fun i member => ?_
  have early := List.mem_range.mp member
  rw [toNat_getByte sector (by omega), recordAt, Nat.add_assoc]

theorem shortField_eq (start length : Nat) (low : start + length ≤ 32) :
    shortField (packSector sector) (entOff + start) length =
      Record.printed ((recordAt sector entOff).field start length) := by
  rw [shortField, field_eq sector inside low]
  rfl

theorem buildShortName_eq :
    buildShortName (packSector sector) entOff = (recordAt sector entOff).shortName := by
  have base := shortField_eq sector inside 0 8 (by omega)
  have ext := shortField_eq sector inside 8 3 (by omega)
  rw [Nat.add_zero] at base
  simp only [buildShortName, base, ext, Record.shortName]
  cases Record.printed ((recordAt sector entOff).field 8 3) <;> simp

theorem matchField_eq (part : Name) (start length : Nat) (low : start + length ≤ 32) :
    matchField part (packSector sector) (entOff + start) length =
      decide (padField length part = (recordAt sector entOff).field start length) := by
  rw [← field_eq sector inside low, Bool.eq_iff_iff, decide_eq_true_iff]
  simp only [matchField, padField, List.all_eq_true, decide_eq_true_eq, List.map_inj_left]
  exact ⟨fun same i member => (same i member).symm, fun same i member => (same i member).symm⟩

/-- A component matches a record exactly if the record's name field is the one it asks for. -/
theorem matchPathComponent83_eq (component : Name) :
    matchPathComponent83 component (packSector sector) entOff =
      decide (field83 component = some ((recordAt sector entOff).field 0 11)) := by
  have base := matchField_eq sector inside (component.takeWhile (· ≠ '.')) 0 8 (by omega)
  have ext := matchField_eq sector inside ((component.dropWhile (· ≠ '.')).drop 1) 8 3 (by omega)
  have whole : (recordAt sector entOff).field 0 11 =
      (recordAt sector entOff).field 0 8 ++ (recordAt sector entOff).field 8 3 := by
    simp [Record.field, List.range_succ]
  simp only [Nat.add_zero] at base
  simp only [matchPathComponent83, field83, base, ext, whole]
  by_cases dots : 1 < component.count '.'
  · simp [dots]
  · by_cases bad : (component.takeWhile (· ≠ '.')).length = 0 ∨
      8 < (component.takeWhile (· ≠ '.')).length ∨
        3 < ((component.dropWhile (· ≠ '.')).drop 1).length
    · rw [if_neg dots, if_pos bad, if_pos (.inr bad)]
      simp
    · rw [if_neg dots, if_neg bad, if_neg (by simp only [dots, false_or]; exact bad),
        Bool.eq_iff_iff]
      simp only [Bool.and_eq_true, decide_eq_true_eq, Option.some.injEq]
      constructor
      · rintro ⟨one, two⟩
        rw [one, two]
      · exact fun same => List.append_inj same (by simp [padField, Record.field])

theorem scanEntry_eq : scanEntry (packSector sector) entOff = (recordAt sector entOff).entry := by
  have directory := getByte_and_iff sector inside 0x10
  simp only [scanEntry, Record.entry, NodeEntry.mk.injEq]
  refine ⟨?_, ?_, ?_, buildShortName_eq sector inside⟩
  · have low := sector.load_lt (entOff + 26) 2
    rw [getWord_packSector sector (by omega), getWord_packSector sector (by omega),
      ofNat_words low, toInt_ofNat', Record.firstCluster, load_recordAt, load_recordAt]
    rfl
  · rw [getDword_packSector sector (by omega), toInt_ofNat', Record.size, load_recordAt]
    rfl
  · simp only [Record.kind, Record.isDirectory, decide_eq_true_eq]
    exact if_congr (not_congr directory) rfl rfl

end Reading

end Zapada.Fat32
