import Zapada.Zaclr.Signatures
import Zapada.Foundation.Machine
import Zapada.Foundation.SequentialLayout

/-! The preparation of types: the method table of a type with the places of its fields,
after those of its base and of the value types in it. Sizes stay below 2^31, so that the
sums of 32 bits are exact. -/

namespace Zapada.Zaclr

def sizeFromElementType (elementType : UInt8) : Nat :=
  if elementType ∈ [0x02, 0x04, 0x05] then 1
  else if elementType ∈ [0x03, 0x06, 0x07] then 2
  else if elementType ∈ [0x08, 0x09, 0x0C] then 4
  else if elementType ∈ [0x0A, 0x0B, 0x0D] then 8
  else if elementType ∈ [0x18, 0x19] then 8
  else if elementType ∈ [0x12, 0x1C, 0x0E, 0x1D, 0x14, 0x0F, 0x1B] then 8
  else 0

def isReference (elementType : UInt8) : Bool := elementType ∈ [0x12, 0x1C, 0x0E, 0x1D, 0x14]

def computeAlignment (elementType : UInt8) : Nat :=
  let size := sizeFromElementType elementType
  if size = 0 then 1 else if 8 < size then 8 else size

/-- The mask of `align_to`: `x & ~m` is `x - (x & m)`. -/
def alignTo (value alignment : Nat) : Nat :=
  if alignment = 0 ∨ alignment = 1 then value
  else
    let raised := value + alignment - 1
    raised - (raised &&& (alignment - 1))

def objectHeaderSize : Nat := 40

/-- A field of a type: its row, what its signature is parsed to, and the type that the
token of the signature is resolved to. -/
structure FieldDesc (α : Type) where
  row : Nat
  isStatic : Bool
  signature : Option SignatureType
  nested : Option α

/-- A type: what its extends token is resolved to, if it is, and the type that the token
names. -/
structure TypeInfo (α : Type) where
  parent : Option α
  base : Option α := parent
  isEnum : Bool
  /-- The element type of the field `value__`, if that is the first field. -/
  enumUnderlying : Option UInt8
  fields : List (FieldDesc α)

structure FieldLayout where
  fieldTokenRow : Nat
  byteOffset : Nat
  nestedTypeToken : Nat
  elementType : UInt8
  isReference : Bool
  isStatic : Bool
  fieldSize : Nat
deriving DecidableEq

inductive PreparationState where
  | inProgress
  | complete
deriving DecidableEq

structure MethodTable (α : Type) where
  state : PreparationState
  parent : Option α
  isEnum : Bool
  instanceSize : Nat
  baseInstanceSize : Nat
  instanceFields : List FieldLayout
  staticFields : List FieldLayout
  gcReferenceFieldCount : Nat
  fieldAlignmentRequirement : Nat

/-- The method tables of all loaded assemblies. -/
abbrev MethodTables (α : Type) := α → Option (MethodTable α)

def MethodTable.allocated : MethodTable α :=
  { state := .inProgress, parent := none, isEnum := false, instanceSize := 0, baseInstanceSize := 0,
    instanceFields := [], staticFields := [], gcReferenceFieldCount :=
      0, fieldAlignmentRequirement := 0 }

/-- The bytes of the fields of an instance. -/
def MethodTable.instanceBytes (table : MethodTable α) : Nat :=
  if objectHeaderSize < table.instanceSize then table.instanceSize - objectHeaderSize else 0

/-- The running values of `compute_field_layouts`. -/
structure LayoutProgress where
  currentOffset : Nat
  alignmentRequirement : Nat
  instanceFields : List FieldLayout
  staticFields : List FieldLayout
  gcReferenceCount : Nat

namespace LayoutProgress

def place (progress : LayoutProgress) (row : Nat) (isStatic : Bool) (signature : SignatureType)
    (size alignment : Nat) : LayoutProgress :=
  let alignment := if alignment = 0 then 1 else alignment
  let requirement := if progress.alignmentRequirement < alignment then alignment
    else progress.alignmentRequirement
  if isStatic then
    { progress with
      alignmentRequirement := requirement
      staticFields := progress.staticFields ++ [{
        fieldTokenRow := row
        byteOffset := 0
        nestedTypeToken := signature.typeToken
        elementType := signature.elementType
        isReference := Zaclr.isReference signature.elementType
        isStatic
        fieldSize := size % 2 ^ 8 }] }
  else
    let offset := alignTo progress.currentOffset alignment
    { progress with
      alignmentRequirement := requirement
      instanceFields := progress.instanceFields ++ [{
        fieldTokenRow := row
        byteOffset := offset
        nestedTypeToken := signature.typeToken
        elementType := signature.elementType
        isReference := Zaclr.isReference signature.elementType
        isStatic
        fieldSize := size % 2 ^ 8 }]
      gcReferenceCount := progress.gcReferenceCount +
        if Zaclr.isReference signature.elementType then 1 else 0
      currentOffset := offset + size }

end LayoutProgress

/-- Size and alignment of a field whose element type is not `VALUETYPE`. -/
def elementExtent (elementType : UInt8) : Nat × Nat :=
  let size := sizeFromElementType elementType
  (if size = 0 then 8 else size, computeAlignment elementType)

section Preparation

variable {α : Type} [DecidableEq α] (types : α → TypeInfo α)

/-- Size and alignment of a field of a value type whose table has been asked for. -/
def nestedExtent (tables : MethodTables α) (isStatic : Bool) (nested : α) : Option (Nat × Nat) :=
  match tables nested with
  | none => none
  | some table =>
    if isStatic ∧ table.state ≠ .complete then some (0, 1)
    else if table.isEnum then
      (types nested).enumUnderlying.map fun underlying =>
        (if sizeFromElementType underlying = 0 then 4 else sizeFromElementType underlying,
          computeAlignment underlying)
    else if table.instanceSize < objectHeaderSize then none
    else some (table.instanceSize - objectHeaderSize,
      if table.fieldAlignmentRequirement ≠ 0 then table.fieldAlignmentRequirement else 1)

/-- The second pass of `compute_field_layouts`; a field that fails ends it, with the tables
prepared so far. -/
def layoutFields (prepare : MethodTables α → α → Option (MethodTables α)) :
    List (FieldDesc α) → MethodTables α → LayoutProgress →
      Option (MethodTables α × Option LayoutProgress)
  | [], tables, progress => some (tables, some progress)
  | field :: rest, tables, progress =>
    match field.signature with
    | none => some (tables, none)
    | some signature =>
      if signature.elementType = ElementType.valuetype then
        match field.nested with
        | none => some (tables, none)
        | some nested =>
          match prepare tables nested with
          | none => none
          | some tables =>
            match nestedExtent types tables field.isStatic nested with
            | none => some (tables, none)
            | some (size, alignment) =>
              layoutFields prepare rest tables
                (progress.place field.row field.isStatic signature size alignment)
      else
        layoutFields prepare rest tables
          (progress.place field.row field.isStatic signature (elementExtent signature.elementType).1
            (elementExtent signature.elementType).2)

/-- The complete table, from the fields that were laid out, if they were. -/
def finishTable (info : TypeInfo α) (parentInstanceBytes : Nat) (fields : Option LayoutProgress) :
    MethodTable α :=
  let ownInstanceBytes :=
    (fields.map fun progress => progress.currentOffset - parentInstanceBytes).getD 0
  let alignment := (fields.map (·.alignmentRequirement)).getD 0
  let size := alignTo (objectHeaderSize + parentInstanceBytes + ownInstanceBytes) 8
  { state := .complete
    parent := info.parent
    isEnum := info.isEnum
    instanceSize := if size < objectHeaderSize then objectHeaderSize else size
    baseInstanceSize := parentInstanceBytes
    instanceFields := (fields.map (·.instanceFields)).getD []
    staticFields := (fields.map (·.staticFields)).getD []
    gcReferenceFieldCount := (fields.map (·.gcReferenceCount)).getD 0
    fieldAlignmentRequirement := if alignment ≠ 0 then alignment else 1 }

/-- The table before its fields are laid out. -/
def startTable (info : TypeInfo α) (parentInstanceBytes : Nat) : MethodTable α :=
  { (MethodTable.allocated : MethodTable α) with
    parent := info.parent
    isEnum := info.isEnum
    baseInstanceSize := parentInstanceBytes }

def resolveParentMethodTable (prepare : MethodTables α → α → Option (MethodTables α))
    (tables : MethodTables α) : Option α → Option (MethodTables α)
  | none => some tables
  | some parent => prepare tables parent

/-- `zaclr_type_prepare` with room for `fuel` nested calls. A type that is being prepared
further up is given back as it is. -/
def typePrepare : (fuel : Nat) → MethodTables α → α → Option (MethodTables α)
  | 0, _, _ => none
  | fuel + 1, tables, type =>
    if (tables type).isSome then some tables
    else do
      let info := types type
      let tables ← resolveParentMethodTable (typePrepare fuel)
        (Function.update tables type (some MethodTable.allocated)) info.parent
      let parentInstanceBytes := (info.parent.bind tables).elim 0 MethodTable.instanceBytes
      let (tables, fields) ← layoutFields types (typePrepare fuel) info.fields
        (Function.update tables type (some (startTable info parentInstanceBytes)))
        ⟨parentInstanceBytes, 1, [], [], 0⟩
      return Function.update tables type (some (finishTable info parentInstanceBytes fields))

end Preparation

open Foundation

namespace FieldDesc

def elementType (field : FieldDesc α) : UInt8 := (field.signature.map (·.elementType)).getD 0

def isByRef (field : FieldDesc α) : Bool :=
  field.signature.any fun signature => signature.flags &&& flagByref ≠ 0

def valueType (field : FieldDesc α) : Option α :=
  if field.elementType = ElementType.valuetype then field.nested else none

end FieldDesc

/-- A field as far as its signature goes: the element type, whether it is by reference, and
the bytes of what a generic instantiation or a type variable stands for. -/
structure FieldKind where
  elementType : UInt8
  byRef : Bool
  instantiated : Nat

namespace FieldKind

/-- The bytes that a field needs that is not of a value type: a pointer if it is by
reference. -/
def need (kind : FieldKind) : Nat :=
  if kind.byRef then 8
  else if sizeFromElementType kind.elementType ≠ 0 then sizeFromElementType kind.elementType
  else kind.instantiated

/-- A value type is not by reference, any other field needs no more than the layout
reserves for its element type. -/
def Fits (kind : FieldKind) : Prop :=
  if kind.elementType = ElementType.valuetype then kind.byRef = false
  else kind.need ≤ (elementExtent kind.elementType).1

instance : DecidablePred Fits := fun kind => inferInstanceAs (Decidable
  (if kind.elementType = ElementType.valuetype then kind.byRef = false
    else kind.need ≤ (elementExtent kind.elementType).1))

end FieldKind

section Types

variable {α : Type} (types : α → TypeInfo α)

def instanceFields (type : α) : List (FieldDesc α) :=
  (types type).fields.filter fun field => !field.isStatic

/-- One type is asked for when another one is prepared. -/
def Uses (type other : α) : Prop :=
  (types type).parent = some other ∨ ∃ field ∈ (types type).fields, field.valueType = some other

def Reaches : α → α → Prop := Relation.ReflTransGen (Uses types)

/-- The base and the field types of every type can be prepared before it: they do not ask
for the type in turn (only static fields may), and their metadata are in order. -/
structure Preparable : Prop where
  parent : ∀ type parent, (types type).parent = some parent → ¬ Reaches types parent type
  contained : ∀ type, ∀ field ∈ instanceFields types type, ∀ value,
    field.valueType = some value → ¬ Reaches types value type
  signed : ∀ type, ∀ field ∈ (types type).fields, ∃ signature, field.signature = some signature ∧
    (signature.elementType = ElementType.valuetype → field.nested.isSome)
  enums : ∀ type, ∀ field ∈ (types type).fields, ∀ value, field.valueType = some value →
    (types value).isEnum → ∃ underlying, (types value).enumUnderlying = some underlying ∧
      sizeFromElementType underlying ≠ 0

/-- What a field is: a value of another type, an enumeration, or of a kind of its own. -/
def fieldItem (instantiated : FieldDesc α → Nat) (value alignment : α → Nat) (field : FieldDesc α) :
    LayoutItem :=
  match field.valueType with
  | some nested =>
    match (types nested).isEnum, (types nested).enumUnderlying with
    | true, some underlying =>
      ⟨if field.isByRef then 8 else sizeFromElementType underlying, computeAlignment underlying⟩
    | _, _ => ⟨if field.isByRef then 8 else value nested, alignment nested⟩
  | none =>
    ⟨FieldKind.need ⟨field.elementType, field.isByRef, instantiated field⟩,
      computeAlignment field.elementType⟩

/-- The bytes and the alignment that values really have: a value type is as large as its
fields placed one after the other, and aligned as the coarsest of them. -/
structure Sizing where
  instantiated : FieldDesc α → Nat
  value : α → Nat
  alignment : α → Nat
  alignment_eq : ∀ type, alignment type = ((instanceFields types type).map fun field =>
      (fieldItem types instantiated value alignment field).alignment).foldl max 1
  value_eq : ∀ type, value type = roundUp (LayoutItem.finish 0
    ((instanceFields types type).map (fieldItem types instantiated value alignment)))
      (alignment type)

variable {types}

namespace Sizing

variable (sizing : Sizing types)

def item (field : FieldDesc α) : LayoutItem :=
  fieldItem types sizing.instantiated sizing.value sizing.alignment field

def kind (field : FieldDesc α) : FieldKind :=
  ⟨field.elementType, field.isByRef, sizing.instantiated field⟩

/-- All instance fields are of some kinds. -/
def Over (kinds : Set FieldKind) : Prop :=
  ∀ type, ∀ field ∈ instanceFields types type, sizing.kind field ∈ kinds

end Sizing

variable (types)

def Inherits (type parent : α) : Prop := (types type).parent = some parent

def Extends (type base : α) : Prop := (types type).base = some base

/-- An instance field of the type or of one above it. -/
structure FieldAbove (above : α → α → Prop) (type : α) where
  owner : α
  index : Nat
  inherited : Relation.ReflTransGen above type owner
  desc : FieldDesc α
  found : (instanceFields types owner)[index]? = some desc

/-- A field of an instance: one of the type or of a type that it extends. -/
abbrev InstanceField : α → Type := FieldAbove types (Extends types)

/-- The extends tokens of the type and of those above it are resolved to what they name. -/
def Resolved (type : α) : Prop :=
  ∀ derived, Relation.ReflTransGen (Extends types) type derived →
    (types derived).parent = (types derived).base

/-- Types are prepared one after the other, in any order. -/
def typeMachine [DecidableEq α] : Machine (MethodTables α) (Nat × α) :=
  Machine.ofStep (fun _ => none) fun tables call => typePrepare types call.1 tables call.2

variable {types}

theorem Resolved.inherits {type owner : α} (resolved : Resolved types type)
    (chain : Relation.ReflTransGen (Extends types) type owner) :
    Relation.ReflTransGen (Inherits types) type owner := by
  induction chain with
  | refl => exact .refl
  | tail above step ih => exact ih.tail ((resolved _ above).trans step)

/-- A field of an instance, found on the way up that the code takes. -/
def Resolved.walked {type : α} (resolved : Resolved types type) (field : InstanceField types type) :
    FieldAbove types (Inherits types) type :=
  { field with inherited := resolved.inherits field.inherited }

/-- Where the table of the owner places a field. -/
def FieldAbove.offset {above : α → α → Prop} {type : α} (field : FieldAbove types above type)
    (tables : MethodTables α) : Option Nat :=
  (tables field.owner).bind fun table => table.instanceFields[field.index]?.map (·.byteOffset)

/-- All instance fields, inherited ones too, have a place between the header and the end of
an instance, at a multiple of their alignment, and no two overlap. -/
structure LaidOut (sizing : Sizing types) (tables : MethodTables α) (type : α)
    (table : MethodTable α) : Prop where
  placed : ∀ field : InstanceField types type, ∃ offset, field.offset tables = some offset ∧
    (sizing.item field.desc).alignment ∣ offset ∧
    objectHeaderSize + offset + (sizing.item field.desc).size ≤ table.instanceSize
  apart : ∀ (one other : InstanceField types type) (first second : Nat),
    (one.owner, one.index) ≠ (other.owner, other.index) →
    one.offset tables = some first → other.offset tables = some second →
    first + (sizing.item one.desc).size ≤ second ∨ second + (sizing.item other.desc).size ≤ first

end Types

end Zapada.Zaclr
