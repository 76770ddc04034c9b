import Zapada.Foundation.ByteStrings
import Zapada.Foundation.FixedWidth

/-! The values of the evaluation stack, and the integers that instructions read from them. -/

namespace Zapada.Zaclr

open Foundation Signedness

/-- The processors that the runtime is built for. -/
inductive Architecture where
  | x8664
  | aarch64
deriving DecidableEq

/-- `struct zaclr_stack_value`, one constructor a kind. -/
inductive StackValue where
  | empty
  | i4 (value : BitVec 32)
  | objectReference (address : BitVec 64)
  | i8 (value : BitVec 64)
  | r4 (bits : BitVec 32)
  | r8 (bits : BitVec 64)
  | localAddress (raw : BitVec 64)
  | valueType (typeToken : Nat) (payload : List UInt8)
  | byref (address : BitVec 64) (payloadSize typeToken : Nat) (stackSlot : Bool)
deriving DecidableEq

/-- The number that a payload is copied into. -/
def payloadNumber (payload : List UInt8) : Nat := (Memory.ofBytes payload).load 0 payload.length

def stackValueToI32 : StackValue → Option (BitVec 32)
  | .i4 value => some value
  | .i8 value => some (value.setWidth 32)
  | .byref address _ _ _ => some (address.setWidth 32)
  | .objectReference address => some (address.setWidth 32)
  | .valueType _ payload =>
    if payload.length ≤ 4 ∨ payload.length = 8 then
      some (BitVec.ofNat 32 (payloadNumber payload)) else none
  | _ => none

def stackValueToI64 : StackValue → Option (BitVec 64)
  | .i8 value => some value
  | .i4 value => some (value.signExtend 64)
  | .byref address _ _ _ => some address
  | .objectReference address => some address
  | .valueType _ payload =>
    if payload.length ≤ 4 ∨ payload.length = 8 then
      some (BitVec.ofNat 64 (payloadNumber payload)) else none
  | _ => none

def stackValueIsFloat : StackValue → Bool
  | .r4 _ | .r8 _ => true
  | _ => false

/-- Floating-point values are fixed-point numbers, with 10 fractional bits in 32 and with 16
in 64. -/
def float32Shift : Nat := 10

def float64Shift : Nat := 16

def stackValueToCommonFloatBits : StackValue → BitVec 64
  | .r4 bits => bits.signExtend 64 <<< (float64Shift - float32Shift)
  | .r8 bits => bits
  | .i4 value => value.signExtend 64 <<< float64Shift
  | .i8 value => value <<< float64Shift
  | _ => 0

def stackValueToCommonFloatBitsUnsigned : StackValue → BitVec 64
  | .r4 bits => bits.signExtend 64 <<< (float64Shift - float32Shift)
  | .r8 bits => bits
  | .i4 value => value.setWidth 64 <<< float64Shift
  | .i8 value => value <<< float64Shift
  | _ => 0

/-! Arithmetic that reports an overflow: the tests on machine integers say exactly when the
result of the mathematical operation does not fit. -/

open Signedness

inductive CheckedOp where
  | addOvf
  | addOvfUn
  | subOvf
  | subOvfUn
  | mulOvf
  | mulOvfUn
deriving DecidableEq

def int32Max : BitVec 32 := 0x7FFFFFFF
def int32Min : BitVec 32 := 0x80000000
def uint32Max : BitVec 32 := 0xFFFFFFFF
def int64Max : BitVec 64 := 0x7FFFFFFFFFFFFFFF
def int64Min : BitVec 64 := 0x8000000000000000
def uint64Max : BitVec 64 := 0xFFFFFFFFFFFFFFFF

/-- The test for an overflow and the result, of 64 bits. -/
def binaryI4Checked (left right : BitVec 32) : CheckedOp → Bool × BitVec 64
  | .addOvf =>
    (((0#32).slt right && (int32Max - right).slt left) ||
      (right.slt 0 && left.slt (int32Min - right)),
      left.signExtend 64 + right.signExtend 64)
  | .addOvfUn => ((uint32Max - right).ult left, (left + right).setWidth 64)
  | .subOvf =>
    ((right.slt 0 && (int32Max + right).slt left) ||
      ((0#32).slt right && left.slt (int32Min + right)),
      left.signExtend 64 - right.signExtend 64)
  | .subOvfUn => (left.ult right, (left - right).setWidth 64)
  | .mulOvf =>
    let result := left.signExtend 64 * right.signExtend 64
    ((int32Max.signExtend 64).slt result || result.slt (int32Min.signExtend 64), result)
  | .mulOvfUn =>
    let result := left.setWidth 64 * right.setWidth 64
    ((uint32Max.setWidth 64).ult result, result)

def pushBinaryI4CheckedResult (op : CheckedOp) (left right : BitVec 32) : Option (BitVec 32) :=
  let (overflow, result) := binaryI4Checked left right op
  if overflow then none else some (result.setWidth 32)

def absI8 (value : BitVec 64) : BitVec 64 := if value.slt 0 then -(value + 1) + 1 else value

def binaryI8Checked (left right : BitVec 64) : CheckedOp → Bool × BitVec 64
  | .addOvf =>
    (((0#64).slt right && (int64Max - right).slt left) ||
      (right.slt 0 && left.slt (int64Min - right)),
      left + right)
  | .addOvfUn => ((uint64Max - right).ult left, left + right)
  | .subOvf =>
    ((right.slt 0 && (int64Max + right).slt left) ||
      ((0#64).slt right && left.slt (int64Min + right)),
      left - right)
  | .subOvfUn => (left.ult right, left - right)
  | .mulOvf =>
    if left = 0 ∨ right = 0 then (false, 0)
    else if (left = -1 ∧ right = int64Min) ∨ (right = -1 ∧ left = int64Min) then (true, 0)
    else
      let limit := if left.slt 0 ^^ right.slt 0 then int64Min else int64Max
      (absI8 left ≠ 0 ∧ (limit / absI8 left).ult (absI8 right), left * right)
  | .mulOvfUn => (left ≠ 0 ∧ (uint64Max / left).ult right, left * right)

def pushBinaryI8CheckedResult (op : CheckedOp) (left right : BitVec 64) : Option (BitVec 64) :=
  let (overflow, result) := binaryI8Checked left right op
  if overflow then none else some result

/-- How an instruction ends: with a new stack, with an overflow exception, or with an error
of the runtime. -/
inductive InstructionEnd where
  | pushed (stack : List StackValue)
  | overflow (stack : List StackValue)
  | failed
deriving DecidableEq

/-- The dispatch of the checked arithmetic on its operands, the last one on top. -/
def executeCheckedBinary (op : CheckedOp) : List StackValue → InstructionEnd
  | right :: left :: rest =>
    if stackValueIsFloat left ∨ stackValueIsFloat right then .failed
    else if left matches .i8 _ ∨ right matches .i8 _ then
      match stackValueToI64 left, stackValueToI64 right with
      | some left, some right =>
        (pushBinaryI8CheckedResult op left right).elim (.overflow rest) fun result =>
          .pushed (.i8 result :: rest)
      | _, _ => .failed
    else
      match stackValueToI32 left, stackValueToI32 right with
      | some left, some right =>
        (pushBinaryI4CheckedResult op left right).elim (.overflow rest) fun result =>
          .pushed (.i4 result :: rest)
      | _, _ => .failed
  | _ => .failed

namespace CheckedOp

def signedness : CheckedOp → Signedness
  | addOvf | subOvf | mulOvf => .signed
  | addOvfUn | subOvfUn | mulOvfUn => .unsigned

/-- The mathematical result of an operation on two words. -/
def exact (op : CheckedOp) (left right : BitVec w) : Int :=
  let read := op.signedness.read (w := w)
  match op with
  | addOvf | addOvfUn => read left + read right
  | subOvf | subOvfUn => read left - read right
  | mulOvf | mulOvfUn => read left * read right

/-- The exact result is pushed if a word can represent it, and an overflow is reported if
not. -/
def Delivers (op : CheckedOp) (kind : BitVec w → StackValue) (left right : BitVec w)
    (rest : List StackValue) (outcome : InstructionEnd) : Prop :=
  if op.signedness.Fits w (op.exact left right) then
    ∃ result, outcome = .pushed (kind result :: rest) ∧
      op.signedness.read result = op.exact left right
  else outcome = .overflow rest

/-- It suffices that the test is exact and that a result that fits is. -/
theorem delivers_of {op : CheckedOp} {left right result : BitVec w}
    (test : overflow = true ↔ ¬ op.signedness.Fits w (op.exact left right))
    (value : op.signedness.Fits w (op.exact left right) → op.signedness.read result = op.exact
      left right) :
    op.Delivers kind left right rest
      ((if overflow then none else some result).elim (.overflow rest) fun result =>
        .pushed (kind result :: rest)) := by
  unfold Delivers
  split
  case isTrue fits =>
    have quiet : overflow ≠ true := fun loud => test.mp loud fits
    rw [if_neg quiet]
    exact ⟨result, rfl, value fits⟩
  case isFalse large => rw [if_pos (test.mpr large)]; rfl

end CheckedOp

section Words32

variable (left right : BitVec 32)

theorem signExtend_toInt : (left.signExtend 64).toInt = left.toInt :=
  BitVec.toInt_signExtend_of_le (by decide)

theorem setWidth_toNat : (left.setWidth 64).toNat = left.toNat :=
  BitVec.toNat_setWidth_of_le (by decide)

theorem signed_product :
    (left.signExtend 64 * right.signExtend 64).toInt = left.toInt * right.toInt := by
  have leftBounds := toInt_bounds left
  have rightBounds := toInt_bounds right
  have magnitude := Int.natAbs_mul left.toInt right.toInt
  have bound : left.toInt.natAbs * right.toInt.natAbs ≤ 2 ^ 31 * 2 ^ 31 :=
    Nat.mul_le_mul (by omega) (by omega)
  have fits : signed.Fits 64
      (signed.read (left.signExtend 64) * signed.read (right.signExtend 64)) := by
    simp only [Signedness.read, signExtend_toInt, Signedness.Fits]
    omega
  have equal := read_mul fits
  simpa [Signedness.read, signExtend_toInt] using equal

theorem unsigned_product :
    (left.setWidth 64 * right.setWidth 64).toNat = left.toNat * right.toNat := by
  have bound : left.toNat * right.toNat < 2 ^ 32 * 2 ^ 32 := Nat.mul_lt_mul'' left.isLt right.isLt
  exact Nat.mod_eq_of_lt bound

theorem binaryI4Checked_overflow (op : CheckedOp) :
    (binaryI4Checked left right op).1 = true ↔ ¬ op.signedness.Fits 32 (op.exact left right) := by
  cases op with
  | addOvf =>
    exact add_overflows_iff left right
  | addOvfUn =>
    exact addUn_overflows_iff left right
  | subOvf =>
    exact sub_overflows_iff left right
  | subOvfUn => exact subUn_overflows_iff left right
  | mulOvf =>
    simp only [binaryI4Checked, Bool.or_eq_true, BitVec.slt_iff_toInt_lt, signed_product,
      signExtend_toInt,
      CheckedOp.signedness, CheckedOp.exact, Signedness.Fits, Signedness.read]
    have greatest : int32Max.toInt = 2 ^ 31 - 1 := by decide
    have least : int32Min.toInt = -2 ^ 31 := by decide
    omega
  | mulOvfUn =>
    simp only [binaryI4Checked, BitVec.ult_iff_toNat_lt, unsigned_product, setWidth_toNat,
      CheckedOp.signedness, CheckedOp.exact, Signedness.Fits, Signedness.read]
    have greatest : uint32Max.toNat = 2 ^ 32 - 1 := by decide
    omega

theorem binaryI4Checked_value (op : CheckedOp)
    (fits : op.signedness.Fits 32 (op.exact left right)) :
    op.signedness.read (binaryI4Checked left right op).2 = op.exact left right := by
  have leftBounds := toInt_bounds left
  have rightBounds := toInt_bounds right
  cases op with
  | addOvf =>
    show (left.signExtend 64 + right.signExtend 64).toInt = left.toInt + right.toInt
    rw [toInt_add] <;> simp only [signExtend_toInt] <;> omega
  | addOvfUn =>
    exact read_add fits
  | subOvf =>
    show (left.signExtend 64 - right.signExtend 64).toInt = left.toInt - right.toInt
    rw [toInt_sub] <;> simp only [signExtend_toInt] <;> omega
  | subOvfUn =>
    exact read_sub fits
  | mulOvf => exact signed_product left right
  | mulOvfUn =>
    show ((left.setWidth 64 * right.setWidth 64).toNat : Int) = left.toNat * right.toNat
    rw [unsigned_product]
    push_cast
    rfl

theorem pushBinaryI4_delivers (op : CheckedOp) (rest : List StackValue) :
    op.Delivers .i4 left right rest
      ((pushBinaryI4CheckedResult op left right).elim (.overflow rest) fun result =>
        .pushed (.i4 result :: rest)) := by
  have value (fits : op.signedness.Fits 32 (op.exact left right)) :
      op.signedness.read ((binaryI4Checked left right op).2.setWidth 32) = op.exact left right := by
    have wide := binaryI4Checked_value left right op fits
    rw [read_setWidth _ _ (by decide) (by rwa [wide]), wide]
  exact CheckedOp.delivers_of (binaryI4Checked_overflow left right op) value

end Words32

section Words64

variable (left right : BitVec 64)

theorem int64Max_eq : int64Max = BitVec.intMax (63 + 1) := by decide
theorem int64Min_eq : int64Min = BitVec.intMin (63 + 1) := by decide
theorem uint64Max_eq : uint64Max = BitVec.allOnes 64 := by decide

theorem absI8_eq (value : BitVec 64) : absI8 value = value.abs := by
  have same : -(value + 1) + 1 = -value := by grind
  rw [absI8, same, BitVec.abs_eq, BitVec.msb_eq_toInt, BitVec.slt_eq_decide]
  rfl

theorem toInt_ne_zero {value : BitVec 64} (some : value ≠ 0) : value.toInt ≠ 0 :=
  fun none => some (BitVec.eq_of_toInt_eq none)

/-- The tests of a signed multiplication, with its cases of their own. -/
theorem mulOvf_overflow :
    (binaryI8Checked left right .mulOvf).1 = true ↔
      ¬ signed.Fits 64 (left.toInt * right.toInt) := by
  simp only [binaryI8Checked]
  split
  case isTrue zero =>
    have none : left.toInt * right.toInt = 0 := by rcases zero with zero | zero <;> simp [zero]
    rw [none]
    decide
  case isFalse some =>
    rw [not_or] at some
    split
    case isTrue least =>
      have large : left.toInt * right.toInt = 2 ^ 63 := by
        rcases least with ⟨rfl, rfl⟩ | ⟨rfl, rfl⟩ <;> decide
      rw [large]
      decide
    case isFalse _ =>
      have positive : left.abs ≠ 0 := by
        intro none
        have magnitude := toNat_abs left
        rw [none] at magnitude
        exact toInt_ne_zero some.1 (Int.natAbs_eq_zero.mp magnitude.symm)
      have test := mul_overflows_iff left right (toInt_ne_zero some.1) (toInt_ne_zero some.2)
      simp only [absI8_eq, int64Max_eq, int64Min_eq, decide_eq_true_eq]
      exact ⟨fun large => test.mp large.2, fun large => ⟨positive, test.mpr large⟩⟩

theorem binaryI8Checked_overflow (op : CheckedOp) :
    (binaryI8Checked left right op).1 = true ↔ ¬ op.signedness.Fits 64 (op.exact left right) := by
  cases op with
  | addOvf =>
    exact add_overflows_iff left right
  | addOvfUn =>
    exact addUn_overflows_iff left right
  | subOvf =>
    exact sub_overflows_iff left right
  | subOvfUn => exact subUn_overflows_iff left right
  | mulOvf => exact mulOvf_overflow left right
  | mulOvfUn =>
    simp only [binaryI8Checked, uint64Max_eq, decide_eq_true_eq]
    exact mulUn_overflows_iff left right

theorem binaryI8Checked_value (op : CheckedOp)
    (fits : op.signedness.Fits 64 (op.exact left right)) :
    op.signedness.read (binaryI8Checked left right op).2 = op.exact left right := by
  cases op with
  | addOvf | addOvfUn => exact read_add fits
  | subOvf | subOvfUn => exact read_sub fits
  | mulOvf =>
    have product : (left * right).toInt = left.toInt * right.toInt := read_mul fits
    have quiet : (binaryI8Checked left right .mulOvf).1 ≠ true := fun loud =>
      (mulOvf_overflow left right).mp loud fits
    show (binaryI8Checked left right .mulOvf).2.toInt = left.toInt * right.toInt
    simp only [binaryI8Checked] at quiet ⊢
    split at quiet
    case isTrue zero => rcases zero with zero | zero <;> simp [zero]
    case isFalse some =>
      rw [if_neg some]
      split at quiet
      case isTrue _ => exact absurd rfl quiet
      case isFalse other => rw [if_neg other, product]
  | mulOvfUn => exact read_mul fits

theorem pushBinaryI8_delivers (op : CheckedOp) (rest : List StackValue) :
    op.Delivers .i8 left right rest
      ((pushBinaryI8CheckedResult op left right).elim (.overflow rest) fun result =>
        .pushed (.i8 result :: rest)) :=
  CheckedOp.delivers_of (binaryI8Checked_overflow left right op)
    (binaryI8Checked_value left right op)

end Words64

/-- Checked arithmetic is exact on words of 32 and of 64 bits. -/
theorem executeCheckedBinary_delivers (op : CheckedOp) (rest : List StackValue) :
    (∀ left right : BitVec 32,
      op.Delivers .i4 left right rest (executeCheckedBinary op (.i4 right :: .i4 left :: rest))) ∧
    (∀ left right : BitVec 64,
      op.Delivers .i8 left right rest (executeCheckedBinary op (.i8 right :: .i8 left :: rest))) :=
  ⟨fun left right => pushBinaryI4_delivers left right op rest,
    fun left right => pushBinaryI8_delivers left right op rest⟩

end Zapada.Zaclr
