import Zapada.Zaclr.CheckedArithmetic

/-! Conditional branches and the comparisons they stand for. A branch classifies its operands
by the upper one, a comparison by both, and each has its own way to read references. -/

namespace Zapada.Zaclr

inductive CompareOpcode where
  | ceq
  | cgt
  | clt
  | cgtUn
  | cltUn
deriving DecidableEq

inductive BranchCondition where
  | beq
  | bneUn
  | bge
  | bgt
  | ble
  | blt
  | bgeUn
  | bgtUn
  | bleUn
  | bltUn
deriving DecidableEq

/-- Branches with an offset of one byte, and with one of four. -/
inductive BranchForm where
  | short
  | inline
deriving DecidableEq

def CompareOpcode.test (left right : BitVec w) : CompareOpcode → Bool
  | ceq => left == right
  | cgt => right.slt left
  | clt => left.slt right
  | cgtUn => right.ult left
  | cltUn => left.ult right

def BranchCondition.test (left right : BitVec w) : BranchCondition → Bool
  | beq => left == right
  | bneUn => left != right
  | bge => right.sle left
  | bgt => right.slt left
  | ble => left.sle right
  | blt => left.slt right
  | bgeUn => right.ule left
  | bgtUn => right.ult left
  | bleUn => left.ule right
  | bltUn => left.ult right

/-- On floating-point operands the unsigned branches compare as the signed ones. -/
def BranchCondition.onFloats : BranchCondition → BranchCondition
  | bgeUn => bge
  | bgtUn => bgt
  | bleUn => ble
  | bltUn => blt
  | condition => condition

/-- The stack after an instruction has popped its operands, and the operands. -/
def popPair : List StackValue → List StackValue × Option (StackValue × StackValue)
  | right :: left :: rest => (rest, some (left, right))
  | _ => ([], none)

def stackValueIsI8BranchOperand : StackValue → Bool
  | .i8 _ => true
  | .valueType _ payload => payload.length = 8
  | _ => false

/-- The decision of a branch, by the kind of the operand on top. -/
def decideBranch (condition : BranchCondition) (left right : StackValue) : Option Bool :=
  if stackValueIsFloat right then
    some (condition.onFloats.test (stackValueToCommonFloatBits left)
      (stackValueToCommonFloatBits right))
  else if stackValueIsI8BranchOperand right then
    match stackValueToI64 left, stackValueToI64 right with
    | some left, some right => some (condition.test left right)
    | _, _ => none
  else
    match stackValueToI32 left, stackValueToI32 right with
    | some left, some right => some (condition.test left right)
    | _, _ => none

/-- The offset after a branch that is taken or not. -/
def branchOffset (ilOffset delta : BitVec 32) (taken : Bool) : BranchForm → BitVec 32
  | .short => if taken then ilOffset + 2 + (delta.setWidth 8).signExtend 32 else ilOffset + 2
  | .inline => if taken then ilOffset + 5 + delta else ilOffset + 5

structure BranchEnd where
  taken : Bool
  ilOffset : BitVec 32
deriving DecidableEq

/-- A conditional branch: the stack it leaves and, if there was no error, where it goes. -/
def executeBranch (condition : BranchCondition) (form : BranchForm) (ilOffset delta : BitVec 32)
    (stack : List StackValue) : List StackValue × Option BranchEnd :=
  let (rest, operands) := popPair stack
  (rest, do
    let (left, right) ← operands
    let taken ← decideBranch condition left right
    return { taken, ilOffset := branchOffset ilOffset delta taken form })

/-- The address that a comparison reads from an operand, null if it is no reference. -/
def compareHandle : StackValue → BitVec 64
  | .objectReference address => address
  | _ => 0

def isObjectReference : StackValue → Bool
  | .objectReference _ => true
  | _ => false

def isWideOperand : StackValue → Bool
  | .i8 _ | .valueType _ _ => true
  | _ => false

/-- References can be compared for equality and, with null, for being unequal. -/
def compareReferences (left right : BitVec 64) : CompareOpcode → Option (BitVec 32)
  | .ceq => some (if left = right then 1 else 0)
  | .cgtUn => some (if left ≠ right ∧ left ≠ 0 then 1 else 0)
  | .cltUn => some (if right ≠ left ∧ right ≠ 0 then 1 else 0)
  | _ => none

def pushCompareResult (opcode : CompareOpcode) (left right : StackValue) : Option (BitVec 32) :=
  if isObjectReference left ∨ isObjectReference right then
    compareReferences (compareHandle left) (compareHandle right) opcode
  else if isWideOperand left ∨ isWideOperand right then
    match stackValueToI64 left, stackValueToI64 right with
    | some left, some right => some (if opcode.test left right then 1 else 0)
    | _, _ => none
  else
    match stackValueToI32 left, stackValueToI32 right with
    | some left, some right => some (if opcode.test left right then 1 else 0)
    | _, _ => none

/-- A comparison: the stack it leaves and the value it pushes on that. -/
def executeCompare (opcode : CompareOpcode) (stack : List StackValue) :
    List StackValue × Option StackValue :=
  let (rest, operands) := popPair stack
  (rest, do
    let (left, right) ← operands
    let result ← pushCompareResult opcode left right
    return .i4 result)

def branchValue : StackValue → Option Bool
  | .i4 value => some (value != 0)
  | .i8 value => some (value != 0)
  | .objectReference address => some (address != 0)
  | .valueType _ payload =>
    if payload.length ≤ 4 ∨ payload.length = 8 then some (payloadNumber payload != 0) else none
  | _ => none

namespace BranchCondition

/-- The comparison of the sequence that a branch stands for. -/
def comparison : BranchCondition → CompareOpcode
  | beq | bneUn => .ceq
  | bgt | ble => .cgt
  | blt | bge => .clt
  | bgtUn | bleUn => .cgtUn
  | bltUn | bgeUn => .cltUn

def negated : BranchCondition → Bool
  | beq | bgt | blt | bgtUn | bltUn => false
  | bneUn | ble | bge | bleUn | bgeUn => true

end BranchCondition

inductive OperandPair where
  | int32 (left right : BitVec 32)
  | int64 (left right : BitVec 64)
  | object (left right : BitVec 64)
  | byref (left : BitVec 64) (leftSize leftToken : Nat) (leftSlot : Bool)
    (right : BitVec 64) (rightSize rightToken : Nat) (rightSlot : Bool)

namespace OperandPair

def left : OperandPair → StackValue
  | int32 left _ => .i4 left
  | int64 left _ => .i8 left
  | object left _ => .objectReference left
  | byref left size token slot _ _ _ _ => .byref left size token slot

def right : OperandPair → StackValue
  | int32 _ right => .i4 right
  | int64 _ right => .i8 right
  | object _ right => .objectReference right
  | byref _ _ _ _ right size token slot => .byref right size token slot

def stack (operands : OperandPair) (rest : List StackValue) : List StackValue :=
  operands.right :: operands.left :: rest

end OperandPair

namespace BranchCondition

/-- The branch and the sequence pop the operands, and the branch is taken if and only if the
sequence branches. -/
def Agrees (condition : BranchCondition) (form : BranchForm) (ilOffset delta : BitVec 32)
    (operands : OperandPair) (rest : List StackValue) : Prop :=
  let branch := executeBranch condition form ilOffset delta (operands.stack rest)
  let compared := executeCompare condition.comparison (operands.stack rest)
  branch.1 = rest ∧ compared.1 = rest ∧ ((∃ ended, branch.2 = some ended ∧ ended.taken = true) ↔
      ∃ value, compared.2 = some value ∧ branchValue value = some (!condition.negated))

/-- The branch sees of two references only the lower halves. It agrees with the comparison of
the references in these cases. -/
def AgreesOnReferences (left right : BitVec 64) : BranchCondition → Prop
  | beq | bneUn => left.setWidth 32 = right.setWidth 32 → left = right
  | bgtUn | bleUn => left = right ∨ left = 0 ∨ (right.setWidth 32).ult (left.setWidth 32)
  | bltUn | bgeUn => left = right ∨ right = 0 ∨ (left.setWidth 32).ult (right.setWidth 32)
  -- there is no signed comparison of references, so the branch must not be taken
  | bgt => (left.setWidth 32).sle (right.setWidth 32)
  | ble => (right.setWidth 32).slt (left.setWidth 32)
  | blt => (right.setWidth 32).sle (left.setWidth 32)
  | bge => (left.setWidth 32).slt (right.setWidth 32)

def Agreeing (condition : BranchCondition) : OperandPair → Prop
  | .object left right => condition.AgreesOnReferences left right
  | _ => True

variable (condition : BranchCondition)

theorem test_comparison (left right : BitVec w) :
    condition.test left right = (condition.comparison.test left right ^^ condition.negated) := by
  cases condition with
  | beq | bgt | blt | bgtUn | bltUn => simp [test, comparison, negated, CompareOpcode.test]
  | bneUn => simp [test, comparison, negated, CompareOpcode.test, bne]
  | bge | ble => simp [test, comparison, negated, CompareOpcode.test, BitVec.sle_eq_not_slt]
  | bgeUn | bleUn => simp [test, comparison, negated, CompareOpcode.test, BitVec.ule_eq_not_ult]

variable {condition} {form : BranchForm} {ilOffset delta : BitVec 32} {operands : OperandPair}
  {rest : List StackValue}

/-- Agreement is about the decision and the comparison of the operands. -/
theorem agrees_iff (decided : decideBranch condition operands.left operands.right = some taken) :
    condition.Agrees form ilOffset delta operands rest ↔
      (taken = true ↔ ∃ value, pushCompareResult condition.comparison operands.left operands.right =
        some value ∧
        branchValue (.i4 value) = some (!condition.negated)) := by
  simp only [Agrees, executeBranch, executeCompare, OperandPair.stack, popPair, true_and]
  cases compared :
      pushCompareResult condition.comparison operands.left operands.right <;>
        simp [decided, compared]

theorem branchValue_result (negated : Bool) (result : Prop) [Decidable result] :
    branchValue (.i4 (if result then 1 else 0)) = some (!negated) ↔
      (decide result ^^ negated) = true := by
  by_cases holds : result <;> cases negated <;> simp [branchValue, holds]

theorem agrees_of_words (left right : BitVec w)
    (decided : decideBranch condition operands.left operands.right = some
      (condition.test left right))
    (compared : pushCompareResult condition.comparison operands.left operands.right =
      some (if condition.comparison.test left right then 1 else 0)) :
    condition.Agrees form ilOffset delta operands rest := by
  rw [agrees_iff decided, compared, condition.test_comparison left right]
  simp only [Option.some.injEq, exists_eq_left', branchValue_result, Bool.decide_eq_true]

/-- The unsigned order of the lower halves, against the comparison of references. -/
theorem reference_order (upper lower : BitVec 64) :
    ((lower.setWidth 32).ult (upper.setWidth 32) = true ↔ upper ≠ lower ∧ upper ≠ 0) ↔
      upper = lower ∨ upper = 0 ∨ (lower.setWidth 32).ult (upper.setWidth 32) = true := by
  by_cases same : upper = lower
  · simp [same, BitVec.ult]
  · by_cases null : upper = 0#64
    · simp [null, BitVec.ult]
    · simp [same, null]

theorem agrees_on_references (condition : BranchCondition) (left right : BitVec 64) :
    condition.Agrees form ilOffset delta (.object left right) rest ↔
      condition.AgreesOnReferences left right := by
  have decided : decideBranch condition (.objectReference left) (.objectReference right) =
      some (condition.test (left.setWidth 32) (right.setWidth 32)) := rfl
  have compared :
      pushCompareResult condition.comparison (.objectReference left) (.objectReference right) =
      compareReferences left right condition.comparison := rfl
  refine (agrees_iff decided).trans ?_
  rw [OperandPair.left, OperandPair.right, compared]
  cases condition with
  | beq | bneUn =>
    simp only [comparison, compareReferences, Option.some.injEq, exists_eq_left',
      branchValue_result]
    by_cases same : left = right <;> simp [same, test, negated, AgreesOnReferences]
  | bgt | ble | blt | bge =>
    simp [comparison, compareReferences, test, AgreesOnReferences, BitVec.sle_eq_not_slt]
  | bgtUn | bleUn =>
    simp only [AgreesOnReferences, ← reference_order, comparison, compareReferences,
      Option.some.injEq, exists_eq_left',
      branchValue_result]
    grind [test, negated, BitVec.ule_eq_not_ult]
  | bltUn | bgeUn =>
    simp only [AgreesOnReferences, eq_comm (a := left) (b := right), ← reference_order, comparison,
      compareReferences,
      Option.some.injEq, exists_eq_left', branchValue_result]
    grind [test, negated, BitVec.ule_eq_not_ult]

/-- A branch agrees with its sequence unless it misreads references. -/
theorem agrees_iff_agreeing (condition : BranchCondition) (form : BranchForm)
    (ilOffset delta : BitVec 32) (operands : OperandPair) (rest : List StackValue) :
    condition.Agrees form ilOffset delta operands rest ↔ condition.Agreeing operands := by
  cases operands with
  | int32 left right => exact iff_of_true (agrees_of_words left right rfl rfl) trivial
  | int64 left right => exact iff_of_true (agrees_of_words left right rfl rfl) trivial
  | object left right => exact agrees_on_references condition left right
  | byref left _ _ _ right _ _ _ =>
    exact iff_of_true (agrees_of_words (left.setWidth 32) (right.setWidth 32) rfl rfl) trivial

/-- Two references that are not equal: `cgt.un` leaves 1, but the first address is not above
the second. -/
theorem references_misread : ¬ bgtUn.Agrees .short 0 0 (.object 0x200010 0x200020) [] := by
  rintro ⟨-, -, agree⟩
  obtain ⟨ended, branches, taken⟩ := agree.mpr ⟨.i4 1, by decide, by decide⟩
  have notTaken :
      executeBranch bgtUn .short 0 0 [.objectReference 0x200020, .objectReference 0x200010] =
      ([], some { taken := false, ilOffset := 2 }) := by
    decide
  cases branches.symm.trans (congrArg Prod.snd notTaken)
  cases taken

end BranchCondition

end Zapada.Zaclr
