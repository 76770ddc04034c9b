import Mathlib.Algebra.Order.Ring.Nat
import Mathlib.Tactic.Ring

/-! Byte-addressed memory with little-endian words of any width, and the
wrapping of a mathematical integer to a two's-complement machine integer. -/

namespace Zapada.Foundation

open Function

abbrev Memory := Nat → UInt8

namespace Memory

/-- The little-endian value of `width` bytes at an address. -/
def load (memory : Memory) (address : Nat) : (width : Nat) → Nat
  | 0 => 0
  | width + 1 => (memory address).toNat + 256 * load memory (address + 1) width

/-- Overwrite `width` bytes with the low bytes of a value. -/
def store (memory : Memory) (address : Nat) : (width value : Nat) → Memory
  | 0, _ => memory
  | width + 1, value =>
    Function.update (store memory (address + 1) width (value / 256)) address (UInt8.ofNat value)

/-- Copy `count` bytes of another memory behind an offset. -/
def copy (memory : Memory) (offset count : Nat) (source : Memory) (sourceOffset : Nat) : Memory :=
  fun i => if offset ≤ i ∧ i < offset + count then
    source (sourceOffset + (i - offset)) else memory i

theorem load_lt (memory : Memory) (address width : Nat) :
    memory.load address width < 256 ^ width := by
  induction width generalizing address with
  | zero => simp [load]
  | succ width ih =>
    have tail := ih (address + 1)
    have byte := (memory address).toNat_lt
    simp only [load, Nat.pow_succ]
    omega

theorem store_outside (memory : Memory) (address width value other : Nat)
    (outside : other < address ∨ address + width ≤ other) :
    memory.store address width value other = memory other := by
  induction width generalizing address value with
  | zero => rfl
  | succ width ih =>
    have different : other ≠ address := by omega
    simp only [store, update_of_ne different]
    exact ih (address + 1) (value / 256) (by omega)

theorem store_zero_inside (memory : Memory) (address width : Nat) (low : address ≤ other)
    (high : other < address + width) : memory.store address width 0 other = 0 := by
  induction width generalizing address with
  | zero => omega
  | succ width ih =>
    simp only [store]
    by_cases here : other = address
    · rw [here, update_self]
      rfl
    · rw [update_of_ne here]
      exact ih (address + 1) (by omega) (by omega)

theorem load_congr (memory memory' : Memory) (address width : Nat)
    (same : ∀ other, address ≤ other → other < address + width → memory other = memory' other) :
    memory.load address width = memory'.load address width := by
  induction width generalizing address with
  | zero => rfl
  | succ width ih =>
    simp only [load, same address (Nat.le_refl _) (by omega)]
    rw [ih (address + 1) (fun other low high => same other (by omega) (by omega))]

theorem load_store_disjoint (memory : Memory) (address width value other span : Nat)
    (disjoint : other + span ≤ address ∨ address + width ≤ other) :
    (memory.store address width value).load other span = memory.load other span := by
  apply load_congr
  intro byte low high
  exact store_outside memory address width value byte (by omega)

theorem load_store (memory : Memory) (address width value : Nat) :
    (memory.store address width value).load address width = value % 256 ^ width := by
  induction width generalizing address value with
  | zero => simp [load, Nat.mod_one]
  | succ width ih =>
    have tail : (memory.store address (width + 1) value).load (address + 1) width =
        (memory.store (address + 1) width (value / 256)).load (address + 1) width := by
      apply load_congr
      intro byte low high
      simp only [store]
      rw [update_of_ne (by omega)]
    have head : memory.store address (width + 1) value address = UInt8.ofNat value := by
      simp [store]
    rw [load, tail, head, ih]
    have byte : (UInt8.ofNat value).toNat = value % 256 := by simp
    rw [byte, Nat.pow_succ, Nat.mul_comm (256 ^ width) 256, Nat.mod_mul]

theorem load_store_of_lt (memory : Memory) (address width value : Nat)
    (small : value < 256 ^ width) :
    (memory.store address width value).load address width = value := by
  rw [load_store, Nat.mod_eq_of_lt small]

theorem load_window (memory : Memory) (base address width : Nat) :
    load (fun i => memory (base + i)) address width = memory.load (base + address) width := by
  induction width generalizing address with
  | zero => rfl
  | succ width ih => simp [load, ih, Nat.add_assoc]

end Memory

theorem and_high_mask (value width bits : Nat) (small : value < 2 ^ (width + bits)) :
    value &&& (2 ^ (width + bits) - 2 ^ bits) = value / 2 ^ bits * 2 ^ bits := by
  have mask : 2 ^ (width + bits) - 2 ^ bits = (2 ^ width - 1) * 2 ^ bits := by
    rw [Nat.sub_mul, Nat.pow_add, Nat.one_mul]
  rw [mask]
  refine Nat.eq_of_testBit_eq fun i => ?_
  simp only [Nat.testBit_and, Nat.testBit_mul_two_pow, Nat.testBit_div_two_pow,
    Nat.testBit_two_pow_sub_one]
  by_cases low : bits ≤ i
  · simp only [low, decide_true, Bool.true_and, Nat.sub_add_cancel, Bool.and_eq_left_iff_imp,
      decide_eq_true_eq]
    intro set
    have inside :=
      (Nat.pow_lt_pow_iff_right (by decide)).mp
        (Nat.lt_of_le_of_lt (Nat.ge_two_pow_of_testBit set) small)
    omega
  · simp [low]

theorem or_shift (low high bits : Nat) (small : low < 2 ^ bits) :
    low ||| high <<< bits = low + 2 ^ bits * high := by
  rw [Nat.or_comm, ← Nat.shiftLeft_add_eq_or_of_lt small, Nat.shiftLeft_eq, Nat.add_comm,
    Nat.mul_comm]

theorem ofNat_or_shift (width low high bits : Nat) (small : low < 2 ^ bits) :
    BitVec.ofNat width low ||| BitVec.ofNat width high <<< bits =
      BitVec.ofNat width (low + 2 ^ bits * high) := by
  have shifted : BitVec.ofNat width high <<< bits = BitVec.ofNat width (high <<< bits) := by
    apply BitVec.eq_of_toNat_eq
    simp [Nat.shiftLeft_eq]
  rw [shifted, ← BitVec.ofNat_or, or_shift _ _ _ small]

/-- The signed 32-bit value of an integer, as unchecked arithmetic keeps it. -/
def int32 (value : Int) : Int := value.bmod (2 ^ 32)

def int64 (value : Int) : Int := value.bmod (2 ^ 64)

theorem int32_of_range (low : -(2 ^ 31) ≤ value) (high : value < 2 ^ 31) : int32 value = value := by
  exact Int.bmod_eq_of_le (by omega) (by omega)

theorem int64_of_overflow (low : 2 ^ 63 ≤ value) (high : value < 2 ^ 64) :
    int64 value = value - 2 ^ 64 := by
  simp only [int64, Int.bmod]
  rw [Int.emod_eq_of_lt (by omega) (by omega), if_neg (by omega)]
  rfl

theorem int64_of_range (low : -(2 ^ 63) ≤ value) (high : value < 2 ^ 63) : int64 value = value := by
  exact Int.bmod_eq_of_le (by omega) (by omega)

end Zapada.Foundation
