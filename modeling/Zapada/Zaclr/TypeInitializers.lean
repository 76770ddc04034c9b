import Zapada.Zaclr.GenericContexts
import Zapada.Zaclr.VirtualDispatch
import Zapada.Foundation.OnceCells

/-! When static constructors are started: by accesses to static fields, by calls of static
methods and by new objects. The state of a type is kept with the type, that of an
instantiation with each of its static fields. -/

namespace Zapada.Zaclr

open Foundation

/-- What the type map knows about the statics of a type, with the number of its generic
parameters (which the functions here do not read). -/
structure TypeStatics (Ty : Type) where
  fieldList : Nat
  fieldCount : Nat
  methods : TypeMethods Ty
  genericParamCount : Nat

def cctorName : List Char := ['.', 'c', 'c', 't', 'o', 'r']

section Methods

variable {Ty : Type}

def TypeStatics.findTypeInitializer (type : TypeStatics Ty) : Option (MethodDesc Ty) :=
  type.methods.methods.find? fun method =>
    method.name = cctorName ∧ method.parameterCount = 0 ∧ method.hasThis = 0

/-- `zaclr_method_is_type_initializer_trigger`. -/
def MethodDesc.isTypeInitializerTrigger (method : MethodDesc Ty) : Bool :=
  method.name ≠ cctorName ∧ method.methodFlags &&& 0x0010 ≠ 0

end Methods

structure Statics (Ty : Type) where
  program : Program
  typeMap : Nat → List (TypeStatics Ty)
  staticFieldCount : Nat → Nat

/-- A frame of managed code: the assembly and the owner of its method, and its generic
context with the closed types that the arguments were made from. -/
structure Frame where
  assembly : Nat
  methodOwner : Option Nat
  typeArgs : List GenericArgument
  methodArgs : List GenericArgument
  types : List ClosedType
  methods : List ClosedType

/-- A token of a static field. A member reference has the arguments of its class, if that is
an instantiation, and is resolved to an assembly and a row. -/
inductive FieldToken where
  | memberRef (classArgs : Option (List ArgumentSignature)) (target : Option (Nat × Nat))
  | field (row : Nat)

/-- Where it is recorded how far an initialiser has come. -/
inductive InitializerCell where
  | type (owner : TypeId)
  | slot (assembly fieldRow : Nat) (ownerContext : List GenericArgument)
deriving DecidableEq

/-- What an instruction asks for: the type whose initialiser is to run, and its cell. -/
structure InitializerRequest where
  owner : TypeId
  cell : InitializerCell

namespace Statics

variable {Ty : Type} (statics : Statics Ty)

def type (id : TypeId) : Option (TypeStatics Ty) := tableRow (statics.typeMap id.assembly) id.row

def hasInitializer (id : TypeId) : Bool := (statics.type id).any (·.findTypeInitializer.isSome)

def findFieldOwnerType (assembly fieldRow : Nat) : Option TypeId :=
  if fieldRow = 0 then none
  else ((statics.typeMap assembly).findIdx? fun type =>
    type.fieldList ≤ fieldRow ∧ fieldRow < type.fieldList + type.fieldCount).map (⟨assembly, · + 1⟩)

/-- `zaclr_generic_context_substitute_type_args` of the arguments of a TypeSpec. -/
def concreteContext (frame : Frame) (args : List ArgumentSignature) :
    Option (List GenericArgument) :=
  (parseInstantiationArguments statics.program frame.assembly args).map
    (substituteArgumentArray frame.typeArgs frame.methodArgs)

/-- `build_memberref_static_owner_context`; no arguments are no context. -/
def buildMemberrefStaticOwnerContext (frame : Frame)
    (classArgs : Option (List ArgumentSignature)) : Option (List GenericArgument) :=
  classArgs.elim (some []) (statics.concreteContext frame)

/-- `direct_field_static_access_uses_active_generic_context` -/
def directFieldStaticAccessUsesActiveGenericContext (frame : Frame) (owner : TypeId) : Bool :=
  frame.methodOwner = some owner.row ∧ !frame.typeArgs.isEmpty

/-- `resolve_static_field_slot` up to the initialiser. A row that no type owns asks for
none. -/
def resolveStaticFieldSlot (frame : Frame) : FieldToken → Option InitializerRequest
  | .memberRef classArgs target => do
    let (assembly, fieldRow) ← target
    let owner ← statics.findFieldOwnerType assembly fieldRow
    if fieldRow = 0 ∨ statics.staticFieldCount assembly < fieldRow then none
    else
      let context ← statics.buildMemberrefStaticOwnerContext frame classArgs
      if context.isEmpty then some ⟨owner, .type owner⟩
      else some ⟨owner, .slot assembly fieldRow context⟩
  | .field fieldRow => do
    let owner ← statics.findFieldOwnerType frame.assembly fieldRow
    if fieldRow = 0 ∨ statics.staticFieldCount frame.assembly < fieldRow then none
    else if directFieldStaticAccessUsesActiveGenericContext frame owner then
      some ⟨owner, .slot frame.assembly fieldRow frame.typeArgs⟩
    else some ⟨owner, .type owner⟩

end Statics

/-- Instructions that may start an initialiser. Calls and new objects name their class as a
member reference does. -/
inductive Trigger {Ty : Type} (statics : Statics Ty) where
  | staticField (frame : Frame) (token : FieldToken)
  | call (frame : Frame) (target : TypeId) (method : MethodDesc Ty)
      (classArgs : Option (List ArgumentSignature))
  | newObject (frame : Frame) (target : TypeId) (classArgs : Option (List ArgumentSignature))

namespace Trigger

variable {Ty : Type} {statics : Statics Ty}

def request : Trigger statics → Option InitializerRequest
  | staticField frame token => statics.resolveStaticFieldSlot frame token
  | call _ target method _ =>
    if method.isTypeInitializerTrigger ∧ (statics.type target).isSome then
      some ⟨target, .type target⟩ else none
  | newObject _ target _ =>
    if (statics.type target).isSome then some ⟨target, .type target⟩ else none

def cell (trigger : Trigger statics) : Option InitializerCell := trigger.request.map (·.cell)

def isStaticField : Trigger statics → Bool
  | staticField .. => true
  | _ => false

end Trigger

/-- `struct zaclr_generic_static_field_slot`, with the assembly in whose list it is. -/
structure GenericStaticFieldSlot where
  assembly : Nat
  fieldRow : Nat
  ownerContext : List GenericArgument
  initializerState : OncePhase

def GenericStaticFieldSlot.isFor (slot : GenericStaticFieldSlot) (assembly fieldRow : Nat)
    (ownerContext : List GenericArgument) : Bool :=
  slot.assembly = assembly ∧ slot.fieldRow = fieldRow ∧
    genericTypeContextMatches slot.ownerContext ownerContext

/-- The states of all initialisers, and the instructions whose initialisers are executing,
the innermost first. -/
structure Initializers {Ty : Type} (statics : Statics Ty) where
  typeInitializerState : TypeId → OncePhase
  genericStaticFields : List GenericStaticFieldSlot
  executing : List (Trigger statics)

namespace Initializers

variable {Ty : Type} {statics : Statics Ty}

def initial (statics : Statics Ty) : Initializers statics :=
  { typeInitializerState := fun _ => .idle, genericStaticFields := [], executing := [] }

/-- A slot that is missing is made with state zero. -/
def getOrCreateGenericStaticFieldSlot (state : Initializers statics) (assembly fieldRow : Nat)
    (ownerContext : List GenericArgument) : Initializers statics :=
  if state.genericStaticFields.any (·.isFor assembly fieldRow ownerContext) then state
  else { state with
    genericStaticFields := ⟨assembly, fieldRow, ownerContext, .idle⟩ :: state.genericStaticFields }

def phase (state : Initializers statics) : InitializerCell → OncePhase
  | .type owner => state.typeInitializerState owner
  | .slot assembly fieldRow ownerContext =>
    (state.genericStaticFields.find? (·.isFor assembly fieldRow ownerContext)).elim .idle
      (·.initializerState)

def setPhase (state : Initializers statics) (phase : OncePhase) : InitializerCell →
      Initializers statics
  | .type owner =>
    { state with typeInitializerState := Function.update state.typeInitializerState owner phase }
  | .slot assembly fieldRow ownerContext =>
    { state with
      genericStaticFields := state.genericStaticFields.map fun slot =>
        if slot.isFor assembly fieldRow ownerContext then
          { slot with initializerState := phase } else slot }

/-- The start of the three functions that ensure that an initialiser ran, and whether it is
executed. -/
def ensureInitializerRan (state : Initializers statics) (trigger : Trigger statics) (owner : TypeId)
    (cell : InitializerCell) : Initializers statics × Bool :=
  if state.phase cell = .complete ∨ state.phase cell = .running then (state, false)
  else if !statics.hasInitializer owner then (state.setPhase .complete cell, false)
  else
    let state := state.setPhase .running cell
    ({ state with executing := trigger :: state.executing }, true)

/-- `zaclr_ensure_type_initializer_ran`, and `zaclr_ensure_type_initializer_ran_with_context`:
the context goes to the frame of the initialiser only. -/
def ensureTypeInitializerRan (state : Initializers statics) (trigger : Trigger statics)
    (owner : TypeId) :
    Initializers statics × Bool :=
  state.ensureInitializerRan trigger owner (.type owner)

def ensureGenericStaticFieldInitializerRan (state : Initializers statics)
    (trigger : Trigger statics)
    (owner : TypeId) (assembly fieldRow : Nat) (ownerContext : List GenericArgument) :
    Initializers statics × Bool :=
  state.ensureInitializerRan trigger owner (.slot assembly fieldRow ownerContext)

def ask (state : Initializers statics) (trigger : Trigger statics) (request : InitializerRequest) :
    Initializers statics × Bool :=
  match request.cell with
  | .type _ => state.ensureTypeInitializerRan trigger request.owner
  | .slot assembly fieldRow ownerContext =>
    (state.getOrCreateGenericStaticFieldSlot assembly fieldRow
      ownerContext).ensureGenericStaticFieldInitializerRan
      trigger request.owner assembly fieldRow ownerContext

/-- The innermost initialiser returns to the instruction that started it. -/
def returned (state : Initializers statics) (request : InitializerRequest)
    (rest : List (Trigger statics)) (success : Bool) : Initializers statics :=
  let state := state.setPhase (if success then .complete else .idle) request.cell
  { state with executing := rest }

end Initializers

/-- Managed code executes instructions in any order, in initialisers as elsewhere. -/
def initializerMachine {Ty : Type} (statics : Statics Ty) :
    Machine (Initializers statics) (OnceEvent (Trigger statics)) where
  initial state := state = Initializers.initial statics
  step before event after :=
    match event with
    | .passed trigger =>
      ∃ request, trigger.request = some request ∧ before.ask trigger request = (after, false)
    | .started trigger =>
      ∃ request, trigger.request = some request ∧ before.ask trigger request = (after, true)
    | .finished trigger success => ∃ request rest, trigger.request = some request ∧
        before.executing = trigger :: rest ∧ after = before.returned request rest success

end Zapada.Zaclr
