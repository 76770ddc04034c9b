import Mathlib.Algebra.Order.Ring.Int

/-! Words of a fixed width: which integers they can represent, read as signed or as unsigned
numbers, and that machine operations are exact where the result fits. -/

namespace Zapada.Foundation

open BitVec

inductive Signedness where
  | signed
  | unsigned
deriving DecidableEq

namespace Signedness

def read : Signedness → BitVec w → Int
  | signed, word => word.toInt
  | unsigned, word => word.toNat

def Fits (w : Nat) : Signedness → Int → Prop
  | signed, value => -2 ^ (w - 1) ≤ value ∧ value < 2 ^ (w - 1)
  | unsigned, value => 0 ≤ value ∧ value < 2 ^ w

instance : DecidablePred (Fits w signedness) := fun value =>
  match signedness with
  | signed => inferInstanceAs (Decidable (-2 ^ (w - 1) ≤ value ∧ value < 2 ^ (w - 1)))
  | unsigned => inferInstanceAs (Decidable (0 ≤ value ∧ value < 2 ^ w))

theorem read_fits (signedness : Signedness) (word : BitVec w) :
    signedness.Fits w (signedness.read word) := by
  cases signedness with
  | signed => exact ⟨word.le_toInt, toInt_lt⟩
  | unsigned =>
    refine ⟨Int.natCast_nonneg _, ?_⟩
    simp only [read]
    exact_mod_cast word.isLt

theorem bmod_of_fits (fits : signed.Fits (w + 1) value) : value.bmod (2 ^ (w + 1)) = value := by
  obtain ⟨low, high⟩ := fits
  rw [Nat.add_sub_cancel] at low high
  apply Int.bmod_eq_of_le
  all_goals
    push_cast
    omega

theorem emod_of_fits (fits : unsigned.Fits w value) : value % ((2 ^ w : Nat) : Int) = value := by
  obtain ⟨low, high⟩ := fits
  apply Int.emod_eq_of_lt low
  exact_mod_cast high

theorem read_injective (signedness : Signedness) {one other : BitVec w}
    (same : signedness.read one = signedness.read other) : one = other := by
  cases signedness with
  | signed => exact eq_of_toInt_eq same
  | unsigned => exact eq_of_toNat_eq (Int.ofNat.inj same)

section Exact

variable {signedness : Signedness} {left right : BitVec (w + 1)}

theorem read_add (fits : signedness.Fits (w + 1) (signedness.read left + signedness.read right)) :
    signedness.read (left + right) = signedness.read left + signedness.read right := by
  cases signedness with
  | signed =>
    simp only [read] at fits ⊢
    rw [toInt_add, bmod_of_fits fits]
  | unsigned =>
    have wrapped := emod_of_fits fits
    exact_mod_cast wrapped

theorem read_sub (fits : signedness.Fits (w + 1) (signedness.read left - signedness.read right)) :
    signedness.read (left - right) = signedness.read left - signedness.read right := by
  cases signedness with
  | signed =>
    simp only [read] at fits ⊢
    rw [toInt_sub, bmod_of_fits fits]
  | unsigned =>
    obtain ⟨low, -⟩ := fits
    simp only [read] at low ⊢
    have order : right.toNat ≤ left.toNat := by omega
    rw [toNat_sub_of_le order, Int.ofNat_sub order]

theorem read_mul (fits : signedness.Fits (w + 1) (signedness.read left * signedness.read right)) :
    signedness.read (left * right) = signedness.read left * signedness.read right := by
  cases signedness with
  | signed =>
    simp only [read] at fits ⊢
    rw [toInt_mul, bmod_of_fits fits]
  | unsigned =>
    have wrapped := emod_of_fits fits
    exact_mod_cast wrapped

theorem toInt_intMin : (BitVec.intMin (w + 1)).toInt = -2 ^ w := by
  rw [BitVec.toInt_intMin, Nat.add_sub_cancel,
    Nat.mod_eq_of_lt (Nat.pow_lt_pow_right (by decide) (by omega))]
  rfl

theorem toInt_intMax : (BitVec.intMax (w + 1)).toInt = 2 ^ w - 1 := BitVec.toInt_intMax

theorem toInt_bounds (word : BitVec (w + 1)) : -2 ^ w ≤ word.toInt ∧ word.toInt < 2 ^ w :=
  signed.read_fits word

theorem toInt_add (low : -2 ^ w ≤ left.toInt + right.toInt)
    (high : left.toInt + right.toInt < 2 ^ w) :
    (left + right).toInt = left.toInt + right.toInt :=
  have fits : signed.Fits (w + 1) (signed.read left + signed.read right) := ⟨low, high⟩
  read_add fits

theorem toInt_sub (low : -2 ^ w ≤ left.toInt - right.toInt)
    (high : left.toInt - right.toInt < 2 ^ w) :
    (left - right).toInt = left.toInt - right.toInt :=
  have fits : signed.Fits (w + 1) (signed.read left - signed.read right) := ⟨low, high⟩
  read_sub fits

theorem add_overflows_iff (left right : BitVec (w + 1)) :
    (((0#(w + 1)).slt right && (intMax (w + 1) - right).slt left) ||
      (right.slt 0#(w + 1) && left.slt (intMin (w + 1) - right))) = true ↔
      ¬ signed.Fits (w + 1) (left.toInt + right.toInt) := by
  have leftBounds := toInt_bounds left
  have rightBounds := toInt_bounds right
  have above (positive : 0 < right.toInt) :
      (intMax (w + 1) - right).toInt = 2 ^ w - 1 - right.toInt := by
    rw [toInt_sub, toInt_intMax] <;> rw [toInt_intMax] <;> omega
  have below (negative : right.toInt < 0) :
      (intMin (w + 1) - right).toInt = -2 ^ w - right.toInt := by
    rw [toInt_sub, toInt_intMin] <;> rw [toInt_intMin] <;> omega
  simp only [Bool.or_eq_true, Bool.and_eq_true, slt_iff_toInt_lt, toInt_zero, Fits,
    Nat.add_sub_cancel, not_and_or, not_le, not_lt]
  rcases Int.lt_trichotomy right.toInt 0 with negative | zero | positive
  · rw [below negative]
    omega
  · omega
  · rw [above positive]
    omega

theorem sub_overflows_iff (left right : BitVec (w + 1)) :
    ((right.slt 0#(w + 1) && (intMax (w + 1) + right).slt left) ||
      ((0#(w + 1)).slt right && left.slt (intMin (w + 1) + right))) = true ↔
      ¬ signed.Fits (w + 1) (left.toInt - right.toInt) := by
  have leftBounds := toInt_bounds left
  have rightBounds := toInt_bounds right
  have above (negative : right.toInt < 0) :
      (intMax (w + 1) + right).toInt = 2 ^ w - 1 + right.toInt := by
    rw [toInt_add, toInt_intMax] <;> rw [toInt_intMax] <;> omega
  have below (positive : 0 < right.toInt) :
      (intMin (w + 1) + right).toInt = -2 ^ w + right.toInt := by
    rw [toInt_add, toInt_intMin] <;> rw [toInt_intMin] <;> omega
  simp only [Bool.or_eq_true, Bool.and_eq_true, slt_iff_toInt_lt, toInt_zero, Fits,
    Nat.add_sub_cancel, not_and_or, not_le, not_lt]
  rcases Int.lt_trichotomy right.toInt 0 with negative | zero | positive
  · rw [above negative]
    omega
  · omega
  · rw [below positive]
    omega

theorem addUn_overflows_iff (left right : BitVec w) :
    (allOnes w - right).ult left = true ↔ ¬ unsigned.Fits w (left.toNat + right.toNat) := by
  have order : right.toNat ≤ (allOnes w).toNat := by
    rw [toNat_allOnes]
    omega
  rw [ult_iff_toNat_lt, toNat_sub_of_le order, toNat_allOnes]
  simp only [Fits]
  have power : ((2 ^ w : Nat) : Int) = 2 ^ w := by push_cast; rfl
  omega

theorem subUn_overflows_iff (left right : BitVec w) :
    left.ult right = true ↔ ¬ unsigned.Fits w (left.toNat - right.toNat) := by
  rw [ult_iff_toNat_lt]
  simp only [Fits]
  have power : ((2 ^ w : Nat) : Int) = 2 ^ w := by push_cast; rfl
  omega

theorem mulUn_overflows_iff (left right : BitVec w) :
    (left ≠ 0 ∧ (allOnes w / left).ult right = true) ↔
      ¬ unsigned.Fits w (left.toNat * right.toNat) := by
  have power : ((2 ^ w : Nat) : Int) = 2 ^ w := by push_cast; rfl
  have product : ((left.toNat * right.toNat : Nat) : Int) = left.toNat * right.toNat := by
    push_cast; rfl
  have some := Nat.two_pow_pos w
  simp only [Fits, ← product]
  by_cases zero : left = 0
  · have none : left.toNat * right.toNat = 0 := by simp [zero]
    constructor
    · exact fun some => absurd zero some.1
    · omega
  · have positive : 0 < left.toNat := by
      rw [Nat.pos_iff_ne_zero]
      exact fun none => zero (eq_of_toNat_eq none)
    rw [ult_iff_toNat_lt, toNat_udiv, toNat_allOnes, Nat.div_lt_iff_lt_mul positive,
      Nat.mul_comm right.toNat]
    constructor
    · rintro ⟨-, large⟩
      omega
    · intro large
      exact ⟨zero, by omega⟩

theorem toNat_abs (word : BitVec (w + 1)) : word.abs.toNat = word.toInt.natAbs := by
  have value := toInt_eq_toNat_cond word
  rw [BitVec.toNat_abs, BitVec.msb_eq_toInt]
  simp only [decide_eq_true_eq]
  split at value <;> split <;> omega

/-- The test for the overflow of a signed multiplication, by the magnitudes of two numbers
that are not zero. -/
theorem mul_overflows_iff (left right : BitVec (w + 1)) (some : left.toInt ≠ 0)
    (other : right.toInt ≠ 0) :
    ((if left.slt 0#(w + 1) ^^ right.slt 0#(w + 1) then intMin (w + 1) else intMax (w + 1)) /
      left.abs).ult right.abs = true ↔ ¬ signed.Fits (w + 1) (left.toInt * right.toInt) := by
  have positive : 0 < left.toInt.natAbs := Int.natAbs_pos.mpr some
  have magnitude := Int.natAbs_mul left.toInt right.toInt
  have power : ((2 ^ w : Nat) : Int) = 2 ^ w := by push_cast; rfl
  have least : (intMin (w + 1)).toNat = 2 ^ w := by
    rw [toNat_intMin, Nat.add_sub_cancel, Nat.mod_eq_of_lt
      (Nat.pow_lt_pow_right (by decide) (by omega))]
  have greatest : (intMax (w + 1)).toNat = 2 ^ w - 1 := toNat_intMax
  rw [ult_iff_toNat_lt, toNat_udiv, toNat_abs, toNat_abs, Nat.div_lt_iff_lt_mul positive,
    Nat.mul_comm right.toInt.natAbs, ← magnitude]
  simp only [Fits, Nat.add_sub_cancel, slt_eq_decide, toInt_zero]
  rcases Int.lt_or_gt_of_ne some with negative | positive <;>
    rcases Int.lt_or_gt_of_ne other with below | above
  · have sign := Int.mul_pos_of_neg_of_neg negative below
    simp only [negative, below, decide_true, Bool.xor_self, Bool.false_eq_true, if_false, greatest]
    omega
  · have sign := Int.mul_neg_of_neg_of_pos negative above
    simp only [negative, Int.not_lt.mpr (Int.le_of_lt above), decide_true, decide_false,
      Bool.xor_false, if_true, least]
    omega
  · have sign := Int.mul_neg_of_pos_of_neg positive below
    simp only [below, Int.not_lt.mpr (Int.le_of_lt positive), decide_true, decide_false,
      Bool.false_xor, if_true, least]
    omega
  · have sign := Int.mul_pos positive above
    simp only [Int.not_lt.mpr (Int.le_of_lt positive), Int.not_lt.mpr (Int.le_of_lt above),
      decide_false, Bool.xor_self,
      Bool.false_eq_true, if_false, greatest]
    omega

end Exact

/-- A narrower word that can represent the number is read as the same number. -/
theorem read_setWidth (signedness : Signedness) (word : BitVec w) (narrow : v + 1 ≤ w)
    (fits : signedness.Fits (v + 1) (signedness.read word)) :
    signedness.read (word.setWidth (v + 1)) = signedness.read word := by
  cases signedness with
  | signed =>
    simp only [read] at fits ⊢
    rw [toInt_setWidth, ← Int.bmod_bmod_of_dvd (Nat.pow_dvd_pow 2 narrow), ← toInt_eq_toNat_bmod,
      bmod_of_fits fits]
  | unsigned =>
    have wrapped := emod_of_fits fits
    simp only [read] at wrapped ⊢
    rw [toNat_setWidth]
    exact_mod_cast wrapped

theorem read_setWidth_iff (signedness : Signedness) (word : BitVec w) (narrow : v + 1 ≤ w) :
    signedness.read (word.setWidth (v + 1)) = signedness.read word ↔
      signedness.Fits (v + 1) (signedness.read word) := by
  constructor
  · intro same
    rw [← same]
    exact signedness.read_fits _
  · exact signedness.read_setWidth word narrow

theorem setWidth_signExtend (word : BitVec (v + 1)) (wide : v + 1 ≤ w) :
    (word.signExtend w).setWidth (v + 1) = word := by
  have same : signed.read (word.signExtend w) = signed.read word := toInt_signExtend_of_le wide
  apply signed.read_injective
  rw [read_setWidth, same]
  · exact wide
  · rw [same]
    exact signed.read_fits word

end Signedness

theorem signExtend_cut (word : BitVec w) (shorter : m ≤ n) :
    (word.signExtend n).setWidth m = word.signExtend m := by
  apply eq_of_getLsbD_eq
  intro index inside
  have wide : index < n := Nat.lt_of_lt_of_le inside shorter
  simp [getElem_signExtend, inside, wide]

/-- A sign extension is unsigned the same number if the sign is clear. -/
theorem signExtend_toNat_iff (word : BitVec w) (shorter : w < n) :
    (word.signExtend n).toNat = word.toNat ↔ 2 * word.toNat < 2 ^ w := by
  have small := word.isLt
  have more : 2 ^ w < 2 ^ n := Nat.pow_lt_pow_right (by decide) shorter
  rw [toNat_signExtend, ← msb_eq_false_iff_two_mul_lt, toNat_setWidth,
    Nat.mod_eq_of_lt (Nat.lt_trans small more)]
  cases word.msb with
  | false => simp
  | true =>
    simp only [if_true, reduceCtorEq, iff_false]
    omega

end Zapada.Foundation
