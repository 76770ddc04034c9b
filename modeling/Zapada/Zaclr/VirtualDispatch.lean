import Mathlib.Data.List.Find
import Zapada.Zaclr.Assemblies

/-! Building the vtable of a class and finding the target of a virtual call in it. -/

namespace Zapada.Zaclr

/-- A method signature over the types of a program. -/
structure MethodSignature (Ty : Type) where
  callingConvention : Nat
  genericParameterCount : Nat
  returnType : Ty
  parameters : List Ty
deriving DecidableEq

/-- A method, identified by its assembly and token. -/
structure MethodDesc (Ty : Type) where
  assembly : Nat
  token : Nat
  name : List Char
  signature : MethodSignature Ty
  methodFlags : Nat
deriving DecidableEq

namespace MethodDesc

variable {Ty : Type}

def isVirtual (method : MethodDesc Ty) : Bool := method.methodFlags &&& 0x0040 ≠ 0

def isNewSlot (method : MethodDesc Ty) : Bool := method.methodFlags &&& 0x0100 ≠ 0

def parameterCount (method : MethodDesc Ty) : Nat := method.signature.parameters.length

def hasThis (method : MethodDesc Ty) : Nat := method.signature.callingConvention &&& 0x20

/-- `virtual_slot_matches_method`, the comparison while a vtable is built. -/
def virtualSlotMatchesMethod (slot method : MethodDesc Ty) : Bool :=
  slot.name = method.name ∧ slot.parameterCount = method.parameterCount ∧
    slot.signature.genericParameterCount = method.signature.genericParameterCount ∧
    slot.hasThis = method.hasThis

/-- `virtual_slot_matches_declared_method`, the comparison at a call. -/
def virtualSlotMatchesDeclaredMethod (slot declared : MethodDesc Ty) : Bool :=
  virtualMethodNameMatches slot.name declared.name ∧ slot.parameterCount = declared.parameterCount ∧
    slot.signature.genericParameterCount = declared.signature.genericParameterCount ∧
    slot.hasThis = declared.hasThis
where
  /-- A slot may carry the name with a prefix that ends in a dot. -/
  virtualMethodNameMatches (slotName declaredName : List Char) : Bool :=
    let suffixStart := slotName.length - declaredName.length
    slotName = declaredName ∨
      (declaredName.length + 1 < slotName.length ∧ slotName[suffixStart - 1]? = some '.' ∧
        slotName.drop suffixStart = declaredName)

end MethodDesc

/-- The rows of a type in the method map of its assembly. -/
structure TypeMethods (Ty : Type) where
  methodMap : List (MethodDesc Ty)
  firstMethodIndex : Nat
  methodCount : Nat

section Vtable

variable {Ty : Type}

def TypeMethods.methods (type : TypeMethods Ty) : List (MethodDesc Ty) :=
  (type.methodMap.drop type.firstMethodIndex).take type.methodCount

/-- One method of `build_vtable`. A method that takes over no slot of the parent is appended as
long as there is room. -/
def placeMethod (parentSlotCount totalSlotCount : Nat) (vtable : List (MethodDesc Ty))
    (method : MethodDesc Ty) : List (MethodDesc Ty) :=
  let appended := if vtable.length < totalSlotCount then vtable ++ [method] else vtable
  if !method.isVirtual then vtable
  else if method.isNewSlot then appended
  else
    match (vtable.take parentSlotCount).findIdx? (·.virtualSlotMatchesMethod method) with
    | some index => vtable.set index method
    | none => appended

def buildVtable (type : TypeMethods Ty) (parent : List (MethodDesc Ty)) : List (MethodDesc Ty) :=
  let newVirtualCount := type.methods.countP fun method => method.isVirtual && method.isNewSlot
  type.methods.foldl (placeMethod parent.length (parent.length + newVirtualCount)) parent

/-- The vtable of a class. The preparation goes on without a parent where the extends token is
not resolved; `none` while it has not reached the last parent. -/
def prepareVtable (program : Program) (methods : TypeId → TypeMethods Ty) :
    (fuel : Nat) → TypeId → Option (List (MethodDesc Ty))
  | 0, _ => none
  | fuel + 1, type =>
    match program.baseType type with
    | none => some (buildVtable (methods type) [])
    | some parent => (prepareVtable program methods fuel parent).map (buildVtable (methods type))

/-- The vtable of a class that is given with its base classes, most derived first. -/
def vtable : List (TypeMethods Ty) → List (MethodDesc Ty)
  | [] => []
  | type :: bases => buildVtable type (vtable bases)

/-- `zaclr_method_table_resolve_virtual`. -/
def resolveVirtual (vtable : List (MethodDesc Ty)) (declared : MethodDesc Ty) : MethodDesc Ty :=
  if !declared.isVirtual then declared
  else (vtable.find? (·.virtualSlotMatchesDeclaredMethod declared)).getD declared

/-- A call of a method on an object of the receiver's class goes to the target. -/
def Selects (program : Program) (methods : TypeId → TypeMethods Ty) (receiver : TypeId)
    (declared target : MethodDesc Ty) : Prop :=
  ∃ fuel table, prepareVtable program methods fuel receiver = some table ∧
    resolveVirtual table declared = target

end Vtable

section Meaning

variable {Ty : Type} [DecidableEq Ty]

/-- A class with its declared base classes, most derived first. -/
inductive Naming.Lineage {program : Program} (naming : Naming program) : TypeId →
      List TypeId → Prop where
  | last (root : naming.base type = none) : naming.Lineage type [type]
  | derived (step : naming.base type = some parent) (rest : naming.Lineage parent chain) :
      naming.Lineage type (type :: chain)

/-- The same name and the same full signature. -/
def MethodDesc.same (method other : MethodDesc Ty) : Bool :=
  method.name = other.name ∧ method.signature = other.signature

/-- The most derived override of a method in the classes derived from its own, base first. A
class with a new method of the same name and signature hides it from there on. -/
def mostDerivedOverride (declared : MethodDesc Ty) : List (TypeMethods Ty) → MethodDesc Ty
  | [] => declared
  | type :: rest =>
    match type.methods.find? fun method => method.isVirtual && method.same declared with
    | none => mostDerivedOverride declared rest
    | some method => if method.isNewSlot then declared else mostDerivedOverride method rest

end Meaning

end Zapada.Zaclr
