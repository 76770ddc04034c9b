import Zapada.Zaclr.ArrayRoundTrips
import Zapada.Zaclr.FieldLookup

namespace Zapada.Zaclr

open Foundation

/-- `sizeof(struct zaclr_reference_object_desc)`, behind which the fields are. -/
def referenceDataOffset : Nat := 48

/-- The integer that a field gets, words of 32 bits extended with zeros. -/
def storedInteger : StackValue → Option (BitVec 64)
  | .i8 value => some value
  | .i4 value => some (value.setWidth 64)
  | _ => none

namespace FieldLayout

variable (layout : FieldLayout)

/-- The bytes that a store writes, and the number it writes there. -/
def storeCode (value : StackValue) : Option (Nat × Nat) :=
  if layout.elementType = ElementType.valuetype ∧
      (layout.fieldSize ∉ [1, 2, 4, 8] ∨ (storedInteger value).isNone) then none
  else if layout.isReference then
    match value with
    | .objectReference address => some (8, address.toNat)
    | _ => some (8, 0)
  else
    match storedInteger value with
    | none => none
    | some wide =>
      if layout.fieldSize ∈ [1, 2, 4, 8] then some (layout.fieldSize, wide.toNat) else none

end FieldLayout

def storeFieldValue (memory : Memory) (address : Nat) (layout : FieldLayout) (value : StackValue) :
    Option Memory :=
  (layout.storeCode value).map fun (width, number) => memory.store address width number

def payloadAt (memory : Memory) (address size : Nat) : List UInt8 :=
  (List.range size).map fun i => memory (address + i)

def loadFieldValue (memory : Memory) (address : Nat) (layout : FieldLayout) : Option StackValue :=
  if layout.elementType = ElementType.valuetype then
    some (.valueType layout.nestedTypeToken (payloadAt memory address layout.fieldSize))
  else if layout.isReference then some (.objectReference (BitVec.ofNat 64 (memory.load address 8)))
  else if layout.fieldSize ≤ 4 then
    some (.i4 (BitVec.ofNat 32 (memory.load address layout.fieldSize)))
  else if layout.fieldSize = 8 then some (.i8 (BitVec.ofNat 64 (memory.load address 8)))
  else none

section Objects

variable {α : Type} (tables : MethodTables α) (fuel object token : Nat) (type : α)

/-- The layout that a token leads to, from the type of an object. -/
def fieldLayout : Option FieldLayout := do
  let (owner, index) ← findFieldLayout tables token fuel (some type)
  let table ← tables owner
  table.instanceFields[index]?

/-- An object of a prepared type has no compatibility slots. -/
def referenceObjectStoreField (memory : Memory) (value : StackValue) : Option Memory := do
  let layout ← fieldLayout tables fuel token type
  storeFieldValue memory (object + referenceDataOffset + layout.byteOffset) layout value

def referenceObjectLoadField (memory : Memory) : Option StackValue := do
  let layout ← fieldLayout tables fuel token type
  loadFieldValue memory (object + referenceDataOffset + layout.byteOffset) layout

end Objects

/-- What the type of a field says about its values. -/
inductive DeclaredType where
  | primitive (type : PrimitiveType)
  | reference
  | valueType
  | byref
deriving DecidableEq

namespace DeclaredType

/-- The primitive types by their element types; pointers are words without a sign. -/
def primitives : List (UInt8 × PrimitiveType) :=
  [(0x02, .boolean), (0x03, .char), (0x04, .sbyte), (0x05, .byte), (0x06, .int16), (0x07, .uint16),
    (0x08, .int32),
    (0x09, .uint32), (0x0A, .int64), (0x0B, .uint64), (0x0C, .single), (0x0D, .double),
      (0x18, .intPtr),
    (0x19, .uintPtr), (0x0F, .uintPtr), (0x1B, .uintPtr)]

/-- The type of a field by its element type, where that says it. -/
def ofElementType (elementType : UInt8) : Option DeclaredType :=
  match primitives.lookup elementType with
  | some type => some (primitive type)
  | none =>
    if isReference elementType then some reference
    else if elementType = ElementType.valuetype then some valueType
    else none

/-- The stack values that can be assigned to a field of the type. A word of 32 bits can be assigned
to a pointer-sized integer, but not to another one of 64 bits. -/
def Admits : DeclaredType → StackValue → Prop
  | primitive type, value =>
    if type.integer.isSome then ∃ integer : IntegerValue, value = integer.stack ∧
      (type = .int64 ∨ type = .uint64 → ∃ word, integer = .int64 word)
    else stackValueIsFloat value
  | reference, value => ∃ address, value = .objectReference address
  | valueType, value =>
    (∃ token payload, value = .valueType token payload) ∨ ∃ integer :
        IntegerValue, value = integer.stack
  | byref, value =>
    ∃ address payloadSize typeToken stackSlot,
      value = .byref address payloadSize typeToken stackSlot

/-- How a value is given back by a field of the type: integers are cut to the width of the type,
floating-point numbers are converted, all else is unchanged. -/
def Represents : DeclaredType → StackValue → StackValue → Prop
  | primitive type, value, result =>
    match type.integer with
    | some (bits, reading) => ∃ integer : IntegerValue, value = integer.stack ∧
      stackNumber reading result = some (reading.read ((integer.extended reading).setWidth bits))
    | none =>
      result = if type = .single then .r4 (storedR4 value) else .r8
        (stackValueToCommonFloatBits value)
  | _, value, result => result = value

end DeclaredType

/-- The declared type of a field; a generic instantiation or a type variable stands for some
type. -/
def FieldDesc.declared (field : FieldDesc α) (instantiated : DeclaredType) : DeclaredType :=
  if field.isByRef then .byref else (DeclaredType.ofElementType field.elementType).getD instantiated

def fieldToken (row : Nat) : Nat := fieldTable * 2 ^ 24 + row

/-- The token of the field leads to the field itself; and whatever the memory holds, the stored
value is loaded again and the other fields of the object load what they did before. -/
def FieldRoundTrips {types : α → TypeInfo α} {type : α} (instantiated : DeclaredType)
    (tables : MethodTables α) (fuel object : Nat) (field : InstanceField types type)
    (value : StackValue) : Prop :=
  let load (field : InstanceField types type) :=
    referenceObjectLoadField tables fuel object (fieldToken field.desc.row) type
  findFieldLayout tables (fieldToken field.desc.row) fuel (some type) =
    some (field.owner, field.index) ∧
  ∀ memory, ∃ after, referenceObjectStoreField tables fuel object (fieldToken field.desc.row) type
      memory value = some after ∧
    (∃ result, load field after = some result ∧
      (field.desc.declared instantiated).Represents value result) ∧
    ∀ other : InstanceField types type, (other.owner, other.index) ≠ (field.owner, field.index) →
      load other after = load other memory

/-- The bytes that are reserved for a field that is not of a value type. -/
def FieldDesc.reserved (field : FieldDesc α) : Nat := (elementExtent field.elementType).1

/-- A field of some size gives an integer back as one of so many bits: in one or two bytes no sign
is lost, and in eight the integer is neither too large for its type nor extended. -/
def IntegerValue.KeptIn (integer : IntegerValue) (size bits : Nat) (reading : Signedness) : Prop :=
  (size < 4 → reading = .unsigned ∨ integer.read .signed % 2 ^ (8 * size) < 2 ^ (8 * size - 1)) ∧
    (size = 8 → reading.Fits bits (integer.read reading) ∧
      (reading = .signed → ∀ word, integer = .int32 word → 0 ≤ word.toInt))

/-- The values that a field gives back as it should: integers whose sign is not lost, references
that the layout knows as such. -/
def FieldDesc.Faithful (field : FieldDesc α) (instantiated : DeclaredType)
    (value : StackValue) : Prop :=
  match field.declared instantiated with
  | .primitive type =>
    match type.integer with
    | some (bits, reading) => ∃ integer : IntegerValue, value = integer.stack ∧
      integer.KeptIn field.reserved bits reading
    | none => False
  | .reference => isReference field.elementType
  | .valueType => field.elementType ≠ ElementType.valuetype ∧ ∃ word, value = .i8 word
  | .byref => False

/-- No other field of the object has the same row. -/
def InstanceField.Alone {types : α → TypeInfo α} {type : α} (field : InstanceField types type) :
    Prop :=
  ∀ other : InstanceField types type, (other.owner, other.index) ≠ (field.owner, field.index) →
    other.desc.row ≠ field.desc.row

end Zapada.Zaclr
