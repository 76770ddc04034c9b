import Zapada.Zaclr.CheckedArithmetic

/-! Conversions between the integer types. A checked conversion is compared with the number
that its operand stands for, and with the unchecked conversion to the same type. -/

namespace Zapada.Zaclr

open Foundation Signedness BitVec

/-- The integer types a conversion leads to, the last two of the size of a pointer. -/
inductive ConvTarget where
  | i1
  | u1
  | i2
  | u2
  | i4
  | u4
  | i8
  | u8
  | i
  | u
deriving DecidableEq

inductive ConvOpcode where
  | conv (target : ConvTarget)
  | convR4
  | convR8
  | convRUn
  | convOvf (target : ConvTarget)
  | convOvfUn (target : ConvTarget)
deriving DecidableEq

/-- The casts through a smaller type, as `(int32_t)(int8_t)value`. -/
def castSigned (bits : Nat) (value : BitVec w) : BitVec 32 := (value.setWidth bits).signExtend 32

/-- The casts through a smaller type, as `(int32_t)(uint8_t)value`. -/
def castUnsigned (bits : Nat) (value : BitVec w) : BitVec 32 := (value.setWidth bits).setWidth 32

/-- The conversion of a value to 64 bits in which a word of 32 bits is not negative. -/
def convertU8 (value : StackValue) : Option StackValue :=
  (stackValueToI64 value).map fun number =>
    .i8 (if value matches .i4 _ then (number.setWidth 32).setWidth 64 else number)

def pushConvertedValue (architecture : Architecture) (value : StackValue) : ConvOpcode →
      Option StackValue
  | .conv .i1 => (stackValueToI32 value).map fun number => .i4 (castSigned 8 number)
  | .conv .i2 => (stackValueToI32 value).map fun number => .i4 (castSigned 16 number)
  | .conv .i4 => (stackValueToI32 value).map .i4
  | .conv .i =>
    match architecture with
    | .x8664 => (stackValueToI64 value).map .i8
    | .aarch64 => (stackValueToI32 value).map .i4
  | .conv .i8 => (stackValueToI64 value).map .i8
  | .conv .u1 => (stackValueToI32 value).map fun number => .i4 (castUnsigned 8 number)
  | .conv .u2 => (stackValueToI32 value).map fun number => .i4 (castUnsigned 16 number)
  | .conv .u4 => (stackValueToI32 value).map .i4
  | .conv .u =>
    match architecture with
    | .x8664 => convertU8 value
    | .aarch64 => (stackValueToI32 value).map .i4
  | .conv .u8 => convertU8 value
  | .convR4 =>
    some (.r4 (((stackValueToCommonFloatBits value).sshiftRight
      (float64Shift - float32Shift)).setWidth 32))
  | .convR8 => some (.r8 (stackValueToCommonFloatBits value))
  | .convRUn => some (.r8 (stackValueToCommonFloatBitsUnsigned value))
  | .convOvf _ | .convOvfUn _ => none

/-- The operand of a checked conversion in 64 bits. -/
def checkedOperand (value : StackValue) : Signedness → Option (BitVec 64)
  | .signed => stackValueToI64 value
  | .unsigned =>
    match value with
    | .i8 number => some number
    | .i4 number => some (number.setWidth 64)
    | _ => none

/-- The range test, with an upper limit of its own for an unsigned operand. -/
def outOfRange (low high unsignedHigh operand : BitVec 64) : Signedness → Bool
  | .signed => operand.slt low || high.slt operand
  | .unsigned => unsignedHigh.ult operand

/-- The test and the result of a checked conversion. -/
def checkedConversion (architecture : Architecture) (source : Signedness) (operand : BitVec 64) :
    ConvTarget → Bool × StackValue
  | .i1 => (outOfRange (-128) 127 127 operand source, .i4 (castSigned 8 operand))
  | .u1 => (outOfRange 0 255 255 operand source, .i4 (castUnsigned 8 operand))
  | .i2 => (outOfRange (-32768) 32767 32767 operand source, .i4 (castSigned 16 operand))
  | .u2 => (outOfRange 0 65535 65535 operand source, .i4 (castUnsigned 16 operand))
  | .i4 =>
    (outOfRange (int32Min.signExtend 64) (int32Max.signExtend 64) 0x7FFFFFFF operand source,
      .i4 (operand.setWidth 32))
  | .i =>
    match architecture with
    | .x8664 => (outOfRange int64Min int64Max 0x7FFFFFFFFFFFFFFF operand source, .i8 operand)
    | .aarch64 =>
      (outOfRange (int32Min.signExtend 64) (int32Max.signExtend 64) 0x7FFFFFFF operand source,
        .i4 (operand.setWidth 32))
  | .u4 | .u => (outOfRange 0 0xFFFFFFFF 0xFFFFFFFF operand source, .i4 (operand.setWidth 32))
  | .i8 => (outOfRange int64Min int64Max 0x7FFFFFFFFFFFFFFF operand source, .i8 operand)
  | .u8 => (source = .signed ∧ operand.slt 0, .i8 operand)

def pushCheckedConvertedValue (architecture : Architecture) (source : Signedness)
    (target : ConvTarget) (value : StackValue) (rest : List StackValue) : InstructionEnd :=
  match checkedOperand value source with
  | none => .failed
  | some operand =>
    let (overflow, result) := checkedConversion architecture source operand target
    if overflow then .overflow rest else .pushed (result :: rest)

def executeConversion (architecture : Architecture) (opcode : ConvOpcode) : List StackValue →
      InstructionEnd
  | [] => .failed
  | value :: rest =>
    match opcode with
    | .convOvf target => pushCheckedConvertedValue architecture .signed target value rest
    | .convOvfUn target => pushCheckedConvertedValue architecture .unsigned target value rest
    | _ =>
      (pushConvertedValue architecture value opcode).elim .failed fun result =>
        .pushed (result :: rest)

inductive IntegerValue where
  | int32 (word : BitVec 32)
  | int64 (word : BitVec 64)
deriving DecidableEq

namespace IntegerValue

def stack : IntegerValue → StackValue
  | int32 word => .i4 word
  | int64 word => .i8 word

def read (source : Signedness) : IntegerValue → Int
  | int32 word => source.read word
  | int64 word => source.read word

end IntegerValue

namespace ConvTarget

def signedness : ConvTarget → Signedness
  | i1 | i2 | i4 | i8 | i => .signed
  | u1 | u2 | u4 | u8 | u => .unsigned

/-- The bits of a target. Pointers have 64 on both architectures. -/
def width : ConvTarget → Nat
  | i1 | u1 => 8
  | i2 | u2 => 16
  | i4 | u4 => 32
  | i8 | u8 | i | u => 64

def checked (target : ConvTarget) : Signedness → ConvOpcode
  | .signed => .convOvf target
  | .unsigned => .convOvfUn target

/-- A checked conversion ends as the unchecked one if the target can represent the number,
and with an overflow if not. -/
def Converts (target : ConvTarget) (architecture : Architecture) (source : Signedness)
    (value : IntegerValue) (rest : List StackValue) : Prop :=
  if target.signedness.Fits target.width (value.read source) then
    ∃ result, executeConversion architecture (.conv target) (value.stack :: rest) =
      .pushed (result :: rest) ∧
      executeConversion architecture (target.checked source) (value.stack :: rest) =
        .pushed (result :: rest)
  else executeConversion architecture (target.checked source) (value.stack :: rest) = .overflow rest

/-- The conversions that the implementation gets right. -/
def Exact (target : ConvTarget) (architecture : Architecture) (source : Signedness)
    (value : IntegerValue) : Prop :=
  match target, source, architecture with
  | .u, .signed, .x8664 => value.read .signed < 0
  | .u, .unsigned, .x8664 => False
  | .u, source, .aarch64 => value.read source < 2 ^ 32
  | .i, .signed, .aarch64 => Signedness.signed.Fits 32 (value.read .signed)
  | .i, .unsigned, .aarch64 => value.read .unsigned < 2 ^ 31 ∨ 2 ^ 63 ≤ value.read .unsigned
  | .i, .unsigned, .x8664 | .i8, .unsigned, _ => ∀ word, value = .int32 word → 0 ≤ word.toInt
  | _, _, _ => True

end ConvTarget

namespace IntegerValue

/-- The operand that a checked conversion of an integer works on. -/
def extended (source : Signedness) : IntegerValue → BitVec 64
  | int32 word =>
    match source with
    | .signed => word.signExtend 64
    | .unsigned => word.setWidth 64
  | int64 word => word

def low : IntegerValue → BitVec 32
  | int32 word => word
  | int64 word => word.setWidth 32

variable (source : Signedness) (value : IntegerValue)

theorem checkedOperand_stack :
    checkedOperand value.stack source = some (value.extended source) := by
  cases value <;> cases source <;> rfl

theorem stackValueToI32_stack : stackValueToI32 value.stack = some value.low := by
  cases value <;> rfl

theorem stackValueToI64_stack : stackValueToI64 value.stack = some (value.extended .signed) := by
  cases value <;> rfl

theorem convertU8_stack : convertU8 value.stack = some (.i8 (value.extended .unsigned)) := by
  cases value with
  | int32 word =>
    have same : (word.signExtend 64).setWidth 32 = word := setWidth_signExtend word (by decide)
    simp [convertU8, stack, stackValueToI64, extended, same]
  | int64 word => rfl

theorem read_extended : source.read (value.extended source) = value.read source := by
  cases value with
  | int32 word =>
    cases source with
    | signed => exact signExtend_toInt word
    | unsigned => exact congrArg Int.ofNat (setWidth_toNat word)
  | int64 word => rfl

theorem low_extended : (value.extended source).setWidth 32 = value.low := by
  cases value with
  | int32 word =>
    cases source with
    | signed => exact setWidth_signExtend word (by decide)
    | unsigned => exact (setWidth_setWidth_of_le word (by decide)).trans (setWidth_eq word)
  | int64 word => rfl

theorem cut_extended (narrow : bits ≤ 32) :
    (value.extended source).setWidth bits = value.low.setWidth bits := by
  rw [← value.low_extended source, setWidth_setWidth_of_le _ narrow]

theorem ofInt_read (narrow : bits ≤ 64) :
    BitVec.ofInt bits (value.read .signed) = (value.extended .signed).setWidth bits := by
  rw [← value.read_extended, ← signExtend_eq_setWidth_of_le _ narrow]
  rfl

theorem read_mod (narrow : bits ≤ 64) :
    value.read .signed % 2 ^ bits = ((value.extended .signed).setWidth bits).toNat := by
  have positive : ((2 ^ bits : Nat) : Int) ≠ 0 := Int.natCast_ne_zero.mpr (Nat.two_pow_pos bits).ne'
  rw [← value.ofInt_read narrow, toNat_ofInt, Int.toNat_of_nonneg (Int.emod_nonneg _ positive)]
  rfl

theorem read_bounds : source.Fits 64 (value.read source) := by
  rw [← value.read_extended]
  exact source.read_fits _

theorem extended_same_iff :
    value.extended .unsigned = value.extended .signed ↔ ∀ word, value = int32 word →
      0 ≤ word.toInt := by
  cases value with
  | int32 word =>
    have number := toInt_eq_toNat_cond word
    have wide : (word.setWidth 64).toInt = word.toNat := by
      rw [toInt_eq_toNat_cond, setWidth_toNat]
      omega
    have narrow := signExtend_toInt word
    simp only [extended, int32.injEq, forall_eq']
    constructor
    · intro same
      rw [same, narrow] at wide
      omega
    · intro nonnegative
      apply eq_of_toInt_eq
      omega
  | int64 word => simp [extended]

end IntegerValue

/-- The limits of a test are those of an integer type. -/
def Limits (bits : Nat) (low high unsignedHigh : BitVec 64) : Signedness → Prop
  | .signed =>
    low.toInt = -2 ^ (bits - 1) ∧ high.toInt + 1 = 2 ^ (bits - 1) ∧
      unsignedHigh.toNat + 1 = 2 ^ (bits - 1)
  | .unsigned => low.toInt = 0 ∧ high.toInt + 1 = 2 ^ bits ∧ unsignedHigh.toNat + 1 = 2 ^ bits

theorem outOfRange_iff (kind source : Signedness) (operand : BitVec 64)
    (limits : Limits bits low high unsignedHigh kind) :
    outOfRange low high unsignedHigh operand source = true ↔
      ¬ kind.Fits bits (source.read operand) := by
  have power (exponent : Nat) : ((2 ^ exponent : Nat) : Int) = 2 ^ exponent := by push_cast; rfl
  have wide := power bits
  have narrow := power (bits - 1)
  cases source with
  | signed =>
    cases kind <;>
      · simp only [outOfRange, Bool.or_eq_true, slt_iff_toInt_lt, Signedness.read, Signedness.Fits,
          Limits] at limits ⊢
        omega
  | unsigned =>
    cases kind <;>
      · simp only [outOfRange, ult_iff_toNat_lt, Signedness.read, Signedness.Fits,
          Limits] at limits ⊢
        omega

namespace ConvTarget

variable {target : ConvTarget} {architecture : Architecture} {source : Signedness}
  {value : IntegerValue}

/-- A conversion is right if its test is exact and its result is that of the unchecked one. -/
theorem converts_iff
    (unchecked : pushConvertedValue architecture value.stack (.conv target) = some result) :
    target.Converts architecture source value rest ↔
      ((checkedConversion architecture source (value.extended source) target).1 = true ↔
        ¬ target.signedness.Fits target.width (value.read source)) ∧
      (target.signedness.Fits target.width (value.read source) →
        (checkedConversion architecture source (value.extended source) target).2 = result) := by
  have plain :
      executeConversion architecture (.conv target) (value.stack :: rest) =
        .pushed (result :: rest) := by
    simp [executeConversion, unchecked]
  have run : executeConversion architecture (target.checked source) (value.stack :: rest) =
      if (checkedConversion architecture source (value.extended source) target).1 then
        .overflow rest
      else .pushed ((checkedConversion architecture source (value.extended source) target).2 ::
        rest) := by
    cases source <;>
      simp [checked, executeConversion, pushCheckedConvertedValue,
        IntegerValue.checkedOperand_stack]
  unfold Converts
  rw [plain, run]
  split
  case isTrue fits => cases overflow :
      (checkedConversion architecture source (value.extended source) target).1 <;>
        simp [fits, eq_comm]
  case isFalse large => cases overflow :
      (checkedConversion architecture source (value.extended source) target).1 <;> simp [large]

/-- The bits of the range that the implementation tests for. -/
def testedWidth (architecture : Architecture) : ConvTarget → Nat
  | i =>
    match architecture with
    | .x8664 => 64
    | .aarch64 => 32
  | u => 32
  | target => target.width

theorem overflow_iff (target : ConvTarget) :
    (checkedConversion architecture source (value.extended source) target).1 = true ↔
      ¬ target.signedness.Fits (target.testedWidth architecture) (value.read source) := by
  have range {bits : Nat} {low high unsignedHigh : BitVec 64} (kind : Signedness)
      (limits : Limits bits low high unsignedHigh kind) :
      outOfRange low high unsignedHigh (value.extended source) source = true ↔
        ¬ kind.Fits bits (value.read source) := by
    rw [outOfRange_iff kind source _ limits, value.read_extended]
  cases target with
  | i1 | i2 | i4 | i8 => exact range .signed (by simp only [Limits, testedWidth, width]; decide)
  | u1 | u2 | u4 => exact range .unsigned (by simp only [Limits, testedWidth, width]; decide)
  | u => exact range .unsigned (by simp only [Limits, testedWidth]; decide)
  | i => cases architecture <;> exact range .signed (by simp only [Limits, testedWidth]; decide)
  | u8 =>
    have number := value.read_extended source
    have bounds := source.read_fits (value.extended source)
    cases source with
    | signed =>
      simp only [checkedConversion, slt_iff_toInt_lt, true_and, decide_eq_true_eq, signedness,
        testedWidth, width,
        Signedness.Fits, Signedness.read] at bounds number ⊢
      simp only [ofNat_eq_ofNat, toInt_zero]
      omega
    | unsigned =>
      rw [number] at bounds
      simp [checkedConversion, signedness, testedWidth, width, bounds]

def plain (architecture : Architecture) (value : IntegerValue) : ConvTarget → StackValue
  | i1 => .i4 (castSigned 8 value.low)
  | u1 => .i4 (castUnsigned 8 value.low)
  | i2 => .i4 (castSigned 16 value.low)
  | u2 => .i4 (castUnsigned 16 value.low)
  | i4 | u4 => .i4 value.low
  | i8 => .i8 (value.extended .signed)
  | u8 => .i8 (value.extended .unsigned)
  | i =>
    match architecture with
    | .x8664 => .i8 (value.extended .signed)
    | .aarch64 => .i4 value.low
  | u =>
    match architecture with
    | .x8664 => .i8 (value.extended .unsigned)
    | .aarch64 => .i4 value.low

theorem pushConvertedValue_plain (target : ConvTarget) :
    pushConvertedValue architecture value.stack (.conv target) =
      some (target.plain architecture value) := by
  cases target with
  | i | u =>
    cases architecture <;>
      simp [pushConvertedValue, plain, value.stackValueToI32_stack, value.stackValueToI64_stack,
        value.convertU8_stack]
  | _ =>
    simp [pushConvertedValue, plain, value.stackValueToI32_stack, value.stackValueToI64_stack,
      value.convertU8_stack]

theorem castSigned_extended (narrow : bits ≤ 32) :
    castSigned bits (value.extended source) = castSigned bits value.low := by
  rw [castSigned, castSigned, value.cut_extended source narrow]

theorem castUnsigned_extended (narrow : bits ≤ 32) :
    castUnsigned bits (value.extended source) = castUnsigned bits value.low := by
  rw [castUnsigned, castUnsigned, value.cut_extended source narrow]

/-- If the implementation tests for the target's own range, its results decide. -/
theorem converts_of_tested (tested : target.testedWidth architecture = target.width) :
    target.Converts architecture source value rest ↔
      (target.signedness.Fits target.width (value.read source) →
        (checkedConversion architecture source (value.extended source) target).2 =
          target.plain architecture value) := by
  rw [converts_iff (pushConvertedValue_plain target), overflow_iff, tested]
  exact and_iff_right Iff.rfl

theorem converts_narrow
    (narrow : target = i1 ∨ target = u1 ∨ target = i2 ∨ target = u2 ∨ target = i4 ∨ target = u4) :
    target.Converts architecture source value rest := by
  rcases narrow with rfl | rfl | rfl | rfl | rfl | rfl <;>
    · rw [converts_of_tested rfl]
      simp [checkedConversion, plain, castSigned_extended, castUnsigned_extended,
        value.low_extended]

theorem int32_fits (word : BitVec 32) (is : value = .int32 word) :
    signed.Fits 64 (value.read source) := by
  subst is
  have bounds := source.read_fits word
  cases source <;>
    · simp only [Signedness.Fits, IntegerValue.read] at bounds ⊢
      omega

theorem wide_iff :
    (signed.Fits 64 (value.read source) → StackValue.i8 (value.extended source) =
      .i8 (value.extended .signed)) ↔
      (source = .unsigned → ∀ word, value = .int32 word → 0 ≤ word.toInt) := by
  cases source with
  | signed => simp
  | unsigned =>
    simp only [StackValue.i8.injEq, true_implies, value.extended_same_iff]
    exact ⟨fun same word is => same (int32_fits word is) word is, fun same _ => same⟩

/-- Checked conversions are right for exactly these operands. -/
theorem converts_iff_exact (target : ConvTarget) (architecture : Architecture) (source : Signedness)
    (value : IntegerValue) (rest : List StackValue) :
    target.Converts architecture source value rest ↔ target.Exact architecture source value := by
  have bounds := value.read_bounds source
  cases target with
  | i1 | u1 | i2 | u2 | i4 | u4 =>
    apply iff_of_true (converts_narrow (by simp))
    cases source <;> trivial
  | i8 =>
    rw [converts_of_tested rfl]
    refine wide_iff.trans ?_
    cases source <;> simp [Exact]
  | u8 =>
    rw [converts_of_tested rfl]
    cases source with
    | unsigned => simp [Exact, checkedConversion, plain]
    | signed =>
      apply iff_of_true ?_ trivial
      intro nonnegative
      have same : value.extended .unsigned = value.extended .signed := by
        rw [value.extended_same_iff]
        rintro word rfl
        exact nonnegative.1
      simp [checkedConversion, plain, same]
  | i =>
    cases architecture with
    | x8664 =>
      rw [converts_of_tested rfl]
      refine wide_iff.trans ?_
      cases source <;> simp [Exact]
    | aarch64 =>
      rw [converts_iff (pushConvertedValue_plain _), overflow_iff]
      simp only [checkedConversion, plain, value.low_extended, implies_true, and_true]
      cases source <;>
        · simp only [signedness, testedWidth, width, Exact, Signedness.Fits] at bounds ⊢
          omega
  | u =>
    cases architecture with
    | x8664 =>
      rw [converts_iff (pushConvertedValue_plain _), overflow_iff]
      simp only [checkedConversion, plain, reduceCtorEq, imp_false]
      cases source with
      | signed =>
        simp only [signedness, testedWidth, width, Exact, Signedness.Fits] at bounds ⊢
        omega
      | unsigned => exact iff_of_false (fun wrong => wrong.2 bounds) id
    | aarch64 =>
      rw [converts_iff (pushConvertedValue_plain _), overflow_iff]
      simp only [checkedConversion, plain, value.low_extended, implies_true, and_true]
      cases source <;>
        · simp only [signedness, testedWidth, width, Exact, Signedness.Fits] at bounds ⊢
          omega

/-- On a processor of 64 bits the native unsigned conversion pushes a word of 32. -/
theorem native_unsigned_wrong : ¬ u.Converts .x8664 .signed (.int32 5) [] := by
  rintro ⟨result, plain, checked⟩
  have different :
      executeConversion .x8664 (.conv u) [.i4 5] ≠ executeConversion .x8664 (.convOvf u)
        [.i4 5] := by
    decide
  exact different (plain.trans checked.symm)

end ConvTarget

end Zapada.Zaclr
