import Zapada.Foundation.Bytes

/-! Sector buffers of the FAT32 driver: 128 ints with four bytes each, packed by
`ReadSector` and taken apart by `BufHelper`. -/

namespace Zapada.Fat32

open Foundation BitVec

abbrev SectorBuffer := Nat → BitVec 32

/-- One round of the packing loop in `ReadSector`. -/
def packByte (sector : Memory) (secBuf : SectorBuffer) (i : Nat) : SectorBuffer :=
  Function.update secBuf (i / 4)
    (secBuf (i / 4) ||| ((BitVec.ofNat 32 (sector i).toNat &&& 0xFF#32) <<< ((i &&& 3) <<< 3)))

def packSector (sector : Memory) : SectorBuffer :=
  (List.range 512).foldl (packByte sector) fun _ => 0

namespace BufHelper

def getByte (buf : SectorBuffer) (off : Nat) : BitVec 32 :=
  (buf (off >>> 2)).sshiftRight ((off &&& 3) <<< 3) &&& 0xFF#32

def getWord (buf : SectorBuffer) (off : Nat) : BitVec 32 :=
  getByte buf off ||| (getByte buf (off + 1) <<< 8)

def getDword (buf : SectorBuffer) (off : Nat) : BitVec 32 :=
  getByte buf off ||| (getByte buf (off + 1) <<< 8) ||| (getByte buf (off + 2) <<< 16) |||
    (getByte buf (off + 3) <<< 24)

end BufHelper

/-- The bits of a word when the bytes below `packed` are in place. -/
private def packedBit (sector : Memory) (packed word bit : Nat) : Bool :=
  decide (bit < 32) && decide (4 * word + bit / 8 < packed) &&
    (sector (4 * word + bit / 8)).toNat.testBit (bit % 8)

private theorem getLsbD_mask (bit : Nat) : (0xFF#32).getLsbD bit = decide (bit < 8) := by
  by_cases inWord : bit < 32
  · revert bit
    decide
  · rw [getLsbD_of_ge _ _ (by omega)]
    simp
    omega

private theorem getLsbD_byte (byte : UInt8) (bit : Nat) :
    (BitVec.ofNat 32 byte.toNat &&& 0xFF#32).getLsbD bit =
      (decide (bit < 8) && byte.toNat.testBit bit) := by
  rw [getLsbD_and, getLsbD_ofNat, getLsbD_mask]
  by_cases low : bit < 8
  · have inWord : bit < 32 := by omega
    simp [low, inWord]
  · simp [low]

private theorem shift_eq (i : Nat) : (i &&& 3) <<< 3 = 8 * (i % 4) := by
  have low : i &&& 3 = i % 4 := Nat.and_two_pow_sub_one_eq_mod i 2
  omega

private theorem packByte_bit
    (packed : ∀ word bit, (secBuf word).getLsbD bit = packedBit sector i word bit)
    (word bit : Nat) :
    (packByte sector secBuf i word).getLsbD bit = packedBit sector (i + 1) word bit := by
  by_cases here : word = i / 4
  · subst here
    rw [packByte, Function.update_self, getLsbD_or, packed, getLsbD_shiftLeft, shift_eq,
      getLsbD_byte]
    simp only [packedBit]
    -- the bit is in a byte below, in the byte being packed, or in one above
    by_cases inWord : bit < 32
    · rcases Nat.lt_trichotomy (4 * (i / 4) + bit / 8) i with below | this | above
      · have packedToo : 4 * (i / 4) + bit / 8 < i + 1 := by omega
        have shifted : bit < 8 * (i % 4) := by omega
        simp [inWord, below, packedToo, shifted]
      · have shifted : ¬ bit < 8 * (i % 4) := by omega
        have place : bit - 8 * (i % 4) = bit % 8 := by omega
        simp [inWord, shifted, this, place]
        omega
      · have notPacked : ¬ 4 * (i / 4) + bit / 8 < i + 1 := by omega
        have shifted : ¬ bit - 8 * (i % 4) < 8 := by omega
        simp [notPacked, shifted]
        omega
    · simp [inWord]
  · rw [packByte, Function.update_of_ne here, packed]
    simp only [packedBit]
    by_cases inWord : bit < 32
    · have same : 4 * word + bit / 8 < i ↔ 4 * word + bit / 8 < i + 1 := by omega
      simp [same]
    · simp [inWord]

private theorem packSector_bit (sector : Memory) (word bit : Nat) :
    (packSector sector word).getLsbD bit = packedBit sector 512 word bit := by
  have along :
      ∀ count word bit, (((List.range count).foldl (packByte sector) fun _ => 0) word).getLsbD bit =
        packedBit sector count word bit := by
    intro count
    induction count with
    | zero => simp [packedBit]
    | succ count ih =>
      intro word bit
      rw [List.range_succ, List.foldl_append]
      exact packByte_bit ih word bit
  exact along 512 word bit

namespace BufHelper

theorem getLsbD_getByte (sector : Memory) (inside : off < 512) (bit : Nat) :
    (getByte (packSector sector) off).getLsbD bit =
      (decide (bit < 8) && (sector off).toNat.testBit bit) := by
  have word : off >>> 2 = off / 4 := Nat.shiftRight_eq_div_pow off 2
  rw [getByte, getLsbD_and, getLsbD_mask, getLsbD_sshiftRight, shift_eq, word, packSector_bit]
  by_cases low : bit < 8
  · have inWord : 8 * (off % 4) + bit < 32 := by omega
    have notMsb : ¬ 32 ≤ bit := by omega
    have place : 4 * (off / 4) + (8 * (off % 4) + bit) / 8 = off := by omega
    have bitPlace : (8 * (off % 4) + bit) % 8 = bit := by omega
    simp [low, inWord, notMsb, packedBit, place, bitPlace, inside]
  · simp [low]

theorem getByte_packSector (sector : Memory) (inside : off < 512) :
    getByte (packSector sector) off = BitVec.ofNat 32 (sector off).toNat := by
  refine eq_of_getLsbD_eq fun bit inWord => ?_
  rw [getLsbD_getByte sector inside, getLsbD_ofNat]
  by_cases low : bit < 8
  · simp [low, inWord]
  · have high : (sector off).toNat.testBit bit = false :=
      Nat.testBit_lt_two_pow ((sector off).toNat_lt.trans_le
        (Nat.pow_le_pow_right (by omega) (by omega)))
    simp [low, high]

theorem getWord_packSector (sector : Memory) (inside : off + 1 < 512) :
    getWord (packSector sector) off = BitVec.ofNat 32 (sector.load off 2) := by
  rw [getWord, getByte_packSector sector (by omega), getByte_packSector sector inside,
    ofNat_or_shift _ _ _ _ (sector off).toNat_lt]
  rfl

theorem getDword_packSector (sector : Memory) (inside : off + 3 < 512) :
    getDword (packSector sector) off = BitVec.ofNat 32 (sector.load off 4) := by
  have byte0 := (sector off).toNat_lt
  have byte1 := (sector (off + 1)).toNat_lt
  have byte2 := (sector (off + 2)).toNat_lt
  rw [getDword, getByte_packSector sector (by omega), getByte_packSector sector (by omega),
    getByte_packSector sector (by omega), getByte_packSector sector inside,
      ofNat_or_shift _ _ _ _ byte0,
    ofNat_or_shift _ _ _ _ (by omega), ofNat_or_shift _ _ _ _ (by omega)]
  congr 1
  simp only [Memory.load, Nat.add_assoc, Nat.reduceAdd]
  omega

end BufHelper

end Zapada.Fat32
