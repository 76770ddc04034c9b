import Mathlib.Tactic.IntervalCases

/-! The size of a memory region behind a PCI base address register, as `DriverHal` probes it. -/

namespace Zapada.Hal

open BitVec

/-- The configuration registers of a PCI function by offset, and which bits of each can be written.
-/
structure PciFunction where
  registers : Nat → BitVec 32
  writable : Nat → BitVec 32

def PciFunction.cfgWrite32 (function : PciFunction) (reg : Nat) (value : BitVec 32) : PciFunction :=
  { function with
    registers := Function.update function.registers reg
      (function.registers reg &&& ~~~ function.writable reg ||| value &&& function.writable reg) }

/-- The end of `pci_bar_mmio_size_local`: the size that a mask stands for. -/
def maskSize (mask : BitVec 64) : BitVec 32 :=
  if mask = 0 then 0
  else
    let size64 := ~~~ mask + 1
    if size64 = 0 ∨ 0x10000000 < size64 then 0
    else if size64 < 0x1000 then 0x1000
    else size64.setWidth 32

/-- The size, and the function with its registers written back. -/
def pciBarMmioSizeLocal (function : PciFunction) (barIndex : Nat) : BitVec 32 × PciFunction :=
  let reg := (0x10 + barIndex * 4) % 2 ^ 8
  let low := function.registers reg
  let type := low >>> 1 &&& 3
  if low = 0 ∨ low = .allOnes 32 ∨ low &&& 1 ≠ 0 ∨ type = 1 ∨ type = 2 ∧
    5 ≤ barIndex then (0, function)
  else if type = 2 then
    let next := (reg + 4) % 2 ^ 8
    let high := function.registers next
    let probed := (function.cfgWrite32 reg (.allOnes 32)).cfgWrite32 next (.allOnes 32)
    (maskSize (probed.registers next ++ (probed.registers reg &&& 0xFFFFFFF0)),
      (probed.cfgWrite32 reg low).cfgWrite32 next high)
  else
    let probed := function.cfgWrite32 reg (.allOnes 32)
    (maskSize ((probed.registers reg &&& 0xFFFFFFF0).setWidth 64), probed.cfgWrite32 reg low)

/-- The register decodes a memory region of `2 ^ order` bytes, with 32 or 64 bits: just the address
bits
above the size can be written, and those below are zero. -/
structure MemoryBar (function : PciFunction) (barIndex : Nat) (wide : Bool)
    (order : Nat) : Prop where
  index : barIndex < if wide then 5 else 6
  least : 12 ≤ order
  most : order ≤ 28
  type : function.registers (0x10 + barIndex * 4) &&& 7 = if wide then 4 else 0
  low : function.writable (0x10 + barIndex * 4) = - BitVec.ofNat 32 (2 ^ order)
  zero :
      function.registers (0x10 + barIndex * 4) &&& ~~~ function.writable (0x10 + barIndex * 4) &&&
        0xFFFFFFF0 = 0
  high : wide → function.writable (0x10 + barIndex * 4 + 4) = .allOnes 32

theorem PciFunction.restored (function : PciFunction) (apart : low ≠ high)
    (value other : BitVec 32) :
    (((function.cfgWrite32 low value).cfgWrite32 high other).cfgWrite32 low
      (function.registers low)).cfgWrite32 high
      (function.registers high) = function := by
  have bits : ∀ old mask value :
      BitVec 32, (old &&& ~~~ mask ||| value &&& mask) &&& ~~~ mask ||| old &&& mask = old := by
    intro old mask value
    ext i inside
    simp only [getElem_or, getElem_and, getElem_not]
    cases old[i] <;> cases mask[i] <;> simp
  simp [cfgWrite32, apart.symm, Function.update_comm apart, bits]

/-- The mask of a 32-bit register is widened with zeros, and stands for no size. -/
theorem maskSize_narrow (mask : BitVec 32) : maskSize (mask.setWidth 64) = 0 := by
  unfold maskSize
  split
  · rfl
  · rw [if_pos]
    right
    bv_omega

/-- The size is found, and the registers hold their old values, exactly if the register has 64 bits.
-/
theorem pciBarMmioSizeLocal_iff (bar : MemoryBar function barIndex wide order) :
    pciBarMmioSizeLocal function barIndex = (BitVec.ofNat 32 (2 ^ order), function) ↔
      wide = true := by
  obtain ⟨index, least, most, type, writable, zero, high⟩ := bar
  have few : barIndex < 6 := Nat.lt_of_lt_of_le index (by split <;> decide)
  unfold pciBarMmioSizeLocal
  rw [Nat.mod_eq_of_lt (by omega)]
  generalize isReg : 0x10 + barIndex * 4 = reg at *
  have kind :
      function.registers reg >>> 1 &&& (3 : BitVec 32) = (function.registers reg &&& 7) >>> 1 := by
    rw [ushiftRight_and_distrib]
    rfl
  have even : function.registers reg &&& 1 = function.registers reg &&& 7 &&& 1 := by
    rw [BitVec.and_assoc]
    rfl
  dsimp only
  rw [kind, even, Nat.mod_eq_of_lt (by omega)]
  cases wide with
  | false =>
    rw [show function.registers reg &&& 7 = 0 from type]
    refine iff_of_false (fun found => ?_) Bool.false_ne_true
    have size := congrArg Prod.fst found
    have nonzero : (0 : BitVec 32) ≠ BitVec.ofNat 32 (2 ^ order) := by
      interval_cases order <;> decide
    split at size
    · exact nonzero size
    · exact nonzero ((maskSize_narrow _).symm.trans size)
  | true =>
    have memory : ¬ (function.registers reg = 0 ∨ function.registers reg = .allOnes 32) := by
      rintro (zero | ones)
      · exact absurd (zero ▸ type) (by decide)
      · exact absurd (ones ▸ type) (by decide)
    rw [show function.registers reg &&& 7 = 4 from type, if_neg (by simp_all), if_pos (by decide)]
    refine iff_of_true (Prod.ext ?_ (function.restored (by omega) _ _)) rfl
    have upper :
        ((function.cfgWrite32 reg (.allOnes 32)).cfgWrite32 (reg + 4) (.allOnes 32)).registers
          (reg + 4) =
        .allOnes 32 := by
      simp [PciFunction.cfgWrite32, high]
    have lower :
        ((function.cfgWrite32 reg (.allOnes 32)).cfgWrite32 (reg + 4) (.allOnes 32)).registers
          reg &&&
        0xFFFFFFF0 = - BitVec.ofNat 32 (2 ^ order) := by
      simp only [PciFunction.cfgWrite32, ne_eq, left_eq_add, OfNat.ofNat_ne_zero, not_false_eq_true,
        Function.update_of_ne, Function.update_self, and_or_distrib_right, zero]
      rw [writable]
      interval_cases order <;> rfl
    dsimp only
    rw [upper, lower]
    interval_cases order <;> rfl

/-- A register that decodes 4 KiB at 0xFEB00000. -/
def pageBar (wide : Bool) : PciFunction where
  registers _ := if wide then 0xFEB00004 else 0xFEB00000
  writable reg := if reg = 0x10 then 0xFFFFF000 else .allOnes 32

theorem pageBar_memory (wide : Bool) : MemoryBar (pageBar wide) 0 wide 12 := by
  cases wide <;> constructor <;> decide

theorem pciBarMmioSizeLocal_wide : pciBarMmioSizeLocal (pageBar true) 0 = (0x1000, pageBar true) :=
  (pciBarMmioSizeLocal_iff (pageBar_memory true)).mpr rfl

theorem pciBarMmioSizeLocal_narrow :
    MemoryBar (pageBar false) 0 false 12 ∧ (pciBarMmioSizeLocal (pageBar false) 0).1 = 0 :=
  ⟨pageBar_memory false, by decide⟩

end Zapada.Hal
