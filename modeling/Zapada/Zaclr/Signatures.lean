import Mathlib.Algebra.Group.Int.Defs
import Mathlib.Algebra.GroupWithZero.Nat
import Mathlib.Data.List.Basic
import Mathlib.Order.SetNotation

/-! The decoder of method signatures. Offsets are of 32 bits; the recursion on nested
types is bounded by the number of calls that the stack has room for. -/

namespace Zapada.Zaclr

inductive SignatureFailure where
  | badMetadata
  | invalidArgument
  | notFound
  /-- The stack has no room for another call, or a loop does not end. -/
  | exhausted
deriving DecidableEq

namespace ElementType

def ptr : UInt8 := 0x0F
def byref : UInt8 := 0x10
def valuetype : UInt8 := 0x11
def class' : UInt8 := 0x12
def var : UInt8 := 0x13
def array : UInt8 := 0x14
def genericinst : UInt8 := 0x15
def fnptr : UInt8 := 0x1B
def szarray : UInt8 := 0x1D
def mvar : UInt8 := 0x1E
def cmodReqd : UInt8 := 0x1F
def cmodOpt : UInt8 := 0x20
def pinned : UInt8 := 0x45

end ElementType

def flagByref : Nat := 1

def flagPinned : Nat := 2

structure SignatureType where
  elementType : UInt8
  typeToken : Nat
  genericParamIndex : Nat
  flags : Nat
deriving DecidableEq

abbrev Blob := List UInt8

def advance (offset count : Nat) : Nat := (offset + count) % 2 ^ 32

def decodeCompressedUint (blob : Blob) (offset : Nat) : Except SignatureFailure (Nat × Nat) :=
  if blob.length ≤ offset then .error .badMetadata
  else
    let byte (count : Nat) : Nat := (blob.getD (advance offset count) 0).toNat
    let first := (blob.getD offset 0).toNat
    if first &&& 0x80 = 0 then .ok (first, advance offset 1)
    else if first &&& 0xC0 = 0x80 then
      if blob.length ≤ advance offset 1 then .error .badMetadata
      else .ok ((first &&& 0x3F) <<< 8 ||| byte 1, advance offset 2)
    else if first &&& 0xE0 = 0xC0 then
      if blob.length ≤ advance offset 3 then .error .badMetadata
      else .ok ((first &&& 0x1F) <<< 24 ||| byte 1 <<< 16 ||| byte 2 <<< 8 ||| byte 3,
        advance offset 4)
    else .error .badMetadata

/-- A loop that decodes `count` numbers and drops them. -/
def skipCompressedUints (blob : Blob) : (count offset : Nat) → Except SignatureFailure Nat
  | 0, offset => .ok offset
  | count + 1, offset => do
    let (_, offset) ← decodeCompressedUint blob offset
    skipCompressedUints blob count offset

/-- The `while` loop over the prefixes, for an element type that has been read. -/
def readModifiers (blob : Blob) : (left : Nat) → (elementType : UInt8) → (flags offset : Nat) →
    Except SignatureFailure (UInt8 × Nat × Nat)
  | 0, _, _, _ => .error .exhausted
  | left + 1, elementType, flags, offset =>
    if elementType = ElementType.byref ∨ elementType = ElementType.pinned then
      if blob.length ≤ offset then .error .badMetadata
      else readModifiers blob left (blob.getD offset 0)
        (flags ||| if elementType = ElementType.byref then flagByref else flagPinned)
          (advance offset 1)
    else .ok (elementType, flags, offset)

def tokenTableTyperef : Nat := 0x01
def tokenTableTypedef : Nat := 0x02
def tokenTableTypespec : Nat := 0x1B

/-- The token of a decoded `TypeDefOrRefOrSpec` number. -/
def typeTokenOf (value : Nat) : Nat :=
  let table := value &&& 0x3
  (if table = 0 then tokenTableTypedef else if table = 1 then tokenTableTyperef
    else tokenTableTypespec) <<< 24 ||| value >>> 2

structure SignatureDesc where
  blob : Blob
  callingConvention : UInt8
  headerSize : Nat
  parameterCount : Nat
  genericParameterCount : Nat
  parameterTypesOffset : Nat
  returnType : SignatureType
deriving DecidableEq

/-- How `decode_signature_type` is called again. -/
abbrev Decoder := Blob → Nat → Except SignatureFailure (SignatureType × Nat)

section Calls

variable (decode : Decoder)

def skipSignatureType (blob : Blob) (offset : Nat) : Except SignatureFailure Nat :=
  (decode blob offset).map Prod.snd

def skipSignatureTypes (blob : Blob) : (count offset : Nat) → Except SignatureFailure Nat
  | 0, offset => .ok offset
  | count + 1, offset => do
    let offset ← skipSignatureType decode blob offset
    skipSignatureTypes blob count offset

/-- The number of generic parameters, which only some conventions have. -/
def readGenericParameterCount (blob : Blob) (callingConvention : UInt8) (offset : Nat) :
    Except SignatureFailure (Nat × Nat) :=
  if callingConvention &&& 0x10 ≠ 0 then decodeCompressedUint blob offset else .ok (0, offset)

def parseMethodWith (blob : Blob) : Except SignatureFailure SignatureDesc :=
  if blob.length = 0 then .error .invalidArgument
  else do
    let callingConvention := blob.getD 0 0
    let (genericParameterCount, offset) ← readGenericParameterCount blob callingConvention 1
    let (parameterCount, offset) ← decodeCompressedUint blob offset
    let (returnType, parameterTypesOffset) ← decode blob offset
    let offset ← skipSignatureTypes decode blob (parameterCount % 2 ^ 16) parameterTypesOffset
    return {
      blob
      callingConvention
      headerSize := offset % 2 ^ 8
      parameterCount := parameterCount % 2 ^ 16
      genericParameterCount := genericParameterCount % 2 ^ 16
      parameterTypesOffset
      returnType }

/-- The shape after the element type of an array: rank, sizes and lower bounds. -/
def skipArrayShape (blob : Blob) (offset : Nat) : Except SignatureFailure Nat := do
  let (_, offset) ← decodeCompressedUint blob offset
  let (count, offset) ← decodeCompressedUint blob offset
  let offset ← skipCompressedUints blob count offset
  let (count, offset) ← decodeCompressedUint blob offset
  skipCompressedUints blob count offset

def decodeElement (blob : Blob) (elementType : UInt8) (flags offset : Nat) :
    Except SignatureFailure (SignatureType × Nat) :=
  if elementType = ElementType.class' ∨ elementType = ElementType.valuetype then do
    let (value, offset) ← decodeCompressedUint blob offset
    return (⟨elementType, typeTokenOf value, 0, flags⟩, offset)
  else if elementType = ElementType.var ∨ elementType = ElementType.mvar then do
    let (value, offset) ← decodeCompressedUint blob offset
    return (⟨elementType, 0, value, flags⟩, offset)
  else if elementType = ElementType.ptr ∨ elementType = ElementType.szarray then do
    let offset ← skipSignatureType decode blob offset
    return (⟨elementType, 0, 0, flags⟩, offset)
  else if elementType = ElementType.array then do
    let offset ← skipSignatureType decode blob offset
    let offset ← skipArrayShape blob offset
    return (⟨elementType, 0, 0, flags⟩, offset)
  else if elementType = ElementType.genericinst then do
    -- the call clears the type before it decodes, with the flags read so far
    let (type, offset) ← decode blob offset
    let (argCount, offset) ← decodeCompressedUint blob offset
    let offset ← skipSignatureTypes decode blob argCount offset
    return ({ type with elementType := ElementType.genericinst }, offset)
  else if elementType = ElementType.fnptr then do
    let nested ← parseMethodWith decode (blob.drop offset)
    return (⟨elementType, 0, 0, flags⟩, advance offset nested.headerSize)
  else .ok (⟨elementType, 0, 0, flags⟩, offset)

end Calls

/-- `decode_signature_type` with room for `depth` calls; the `while` loop reads a byte in
each turn. -/
def decodeSignatureType : (depth : Nat) → Decoder
  | 0, _, _ => .error .exhausted
  | depth + 1, blob, offset =>
    if blob.length ≤ offset then .error .invalidArgument
    else do
      let (elementType, flags, offset) ←
        readModifiers blob blob.length (blob.getD offset 0) 0 (advance offset 1)
      decodeElement (decodeSignatureType depth) blob elementType flags offset

def parseMethod (depth : Nat) (blob : Blob) : Except SignatureFailure SignatureDesc :=
  parseMethodWith (decodeSignatureType depth) blob

/-- Where the decoding of a parameter starts. -/
def parameterOffset (depth : Nat) (signature : SignatureDesc) (index : Nat) :
    Except SignatureFailure Nat :=
  if signature.parameterCount ≤ index then .error .notFound
  else skipSignatureTypes (decodeSignatureType depth) signature.blob index
    signature.parameterTypesOffset

def readMethodParameter (depth : Nat) (signature : SignatureDesc) (index : Nat) :
    Except SignatureFailure SignatureType := do
  let offset ← parameterOffset depth signature index
  let (type, _) ← decodeSignatureType depth signature.blob offset
  return type

/-! The grammar of signatures and its encoding: what the decoder is given, what it has to
report about a type, and what it means that a signature is decoded. -/

/-- The three forms of a compressed number. -/
inductive Width where
  | one
  | two
  | four
deriving DecidableEq

namespace Width

def bits : Width → Nat
  | one => 7
  | two => 14
  | four => 29

/-- The bytes of a number of at most `bits` bits. -/
def spell : Width → Nat → List UInt8
  | one, value => [UInt8.ofNat value]
  | two, value => [UInt8.ofNat (0x80 + value / 2 ^ 8), UInt8.ofNat value]
  | four, value => [UInt8.ofNat (0xC0 + value / 2 ^ 24), UInt8.ofNat (value / 2 ^ 16),
      UInt8.ofNat (value / 2 ^ 8), UInt8.ofNat value]

end Width

/-- A number that has a compressed form. -/
abbrev Compressible := Fin (2 ^ 29)

@[instance] theorem compressible_neZero : NeZero (2 ^ 29) := ⟨by decide⟩

def Compressible.width (value : Compressible) : Width :=
  if value.val < 2 ^ 7 then .one else if value.val < 2 ^ 14 then .two else .four

def Compressible.encode (value : Compressible) : List UInt8 := value.width.spell value.val

structure LowerBound where
  value : Int
  low : -(2 ^ 28) ≤ value
  high : value < 2 ^ 28
deriving DecidableEq

namespace LowerBound

def width (bound : LowerBound) : Width :=
  if -(2 ^ 6) ≤ bound.value ∧ bound.value < 2 ^ 6 then .one
  else if -(2 ^ 13) ≤ bound.value ∧ bound.value < 2 ^ 13 then .two else .four

/-- The two's complement of the form's width, rotated left by one. -/
def rotated (bound : LowerBound) : Nat :=
  let unsigned := (bound.value % (2 : Int) ^ bound.width.bits).toNat
  unsigned * 2 % 2 ^ bound.width.bits + unsigned / 2 ^ (bound.width.bits - 1)

def encode (bound : LowerBound) : List UInt8 := bound.width.spell bound.rotated

end LowerBound

inductive TypeTable where
  | typedef
  | typeref
  | typespec
deriving DecidableEq

/-- The token of a type; rows are of 24 bits. -/
structure TypeToken where
  table : TypeTable
  row : Fin (2 ^ 24)
deriving DecidableEq

namespace TypeToken

def tag (token : TypeToken) : Nat :=
  match token.table with
  | .typedef => 0
  | .typeref => 1
  | .typespec => 2

def coded (token : TypeToken) : Compressible :=
  ⟨token.row.val * 4 + token.tag, by have := token.row.isLt; unfold tag; split <;> omega⟩

def raw (token : TypeToken) : Nat :=
  (match token.table with
    | .typedef => tokenTableTypedef
    | .typeref => tokenTableTyperef
    | .typespec => tokenTableTypespec) * 2 ^ 24 + token.row.val

end TypeToken

inductive Primitive where
  | void | boolean | char | i1 | u1 | i2 | u2 | i4 | u4 | i8 | u8 | r4 | r8 | string | typedbyref
  | i | u | object
deriving DecidableEq

def Primitive.code : Primitive → UInt8
  | void => 0x01
  | boolean => 0x02
  | char => 0x03
  | i1 => 0x04
  | u1 => 0x05
  | i2 => 0x06
  | u2 => 0x07
  | i4 => 0x08
  | u4 => 0x09
  | i8 => 0x0A
  | u8 => 0x0B
  | r4 => 0x0C
  | r8 => 0x0D
  | string => 0x0E
  | typedbyref => 0x16
  | i => 0x18
  | u => 0x19
  | object => 0x1C

inductive SigType where
  | primitive (kind : Primitive)
  | named (isValue : Bool) (token : TypeToken)
  | typeVar (ofMethod : Bool) (index : Compressible)
  | pointer (element : SigType)
  | szArray (element : SigType)
  | array (element : SigType) (rank : Compressible) (sizes : List Compressible)
      (bounds : List LowerBound)
  | generic (isValue : Bool) (token : TypeToken) (arguments : List SigType)
  | byRef (element : SigType)
  | pinned (element : SigType)
  | modified (required : Bool) (token : TypeToken) (element : SigType)

def namedCode (isValue : Bool) : UInt8 :=
  if isValue then ElementType.valuetype else ElementType.class'

def variableCode (ofMethod : Bool) : UInt8 := if ofMethod then ElementType.mvar else ElementType.var

/-- A number of entries, which the encoding can hold below 2^29. -/
def encodeCount (count : Nat) : List UInt8 := Compressible.encode (Fin.ofNat (2 ^ 29) count)

/-- Rank, sizes and lower bounds of an array. -/
def encodeShape (rank : Compressible) (sizes : List Compressible) (bounds : List LowerBound) :
    List UInt8 :=
  rank.encode ++ (encodeCount sizes.length ++ (sizes.flatMap Compressible.encode ++
    (encodeCount bounds.length ++ bounds.flatMap LowerBound.encode)))

namespace SigType

mutual

def encode : SigType → List UInt8
  | primitive kind => [kind.code]
  | named isValue token => namedCode isValue :: token.coded.encode
  | typeVar ofMethod index => variableCode ofMethod :: index.encode
  | pointer element => ElementType.ptr :: element.encode
  | szArray element => ElementType.szarray :: element.encode
  | array element rank sizes bounds =>
    ElementType.array :: (element.encode ++ encodeShape rank sizes bounds)
  | generic isValue token arguments =>
    ElementType.genericinst :: ((namedCode isValue :: token.coded.encode) ++
      (encodeCount arguments.length ++ encodeAll arguments))
  | byRef element => ElementType.byref :: element.encode
  | pinned element => ElementType.pinned :: element.encode
  | modified required token element =>
    (if required then ElementType.cmodReqd else ElementType.cmodOpt) ::
      (token.coded.encode ++ element.encode)

def encodeAll : List SigType → List UInt8
  | [] => []
  | type :: types => type.encode ++ encodeAll types

end

def parts : SigType → List SigType
  | primitive _ | named _ _ | typeVar _ _ => []
  | pointer element | szArray element | array element _ _ _ => [element]
  | byRef element | pinned element | modified _ _ element => [element]
  | generic _ _ arguments => arguments

/-- What has to be reported: the element type behind the prefixes and modifiers, its token
or variable, and the prefixes. -/
def report : SigType → SignatureType
  | primitive kind => ⟨kind.code, 0, 0, 0⟩
  | named isValue token => ⟨namedCode isValue, token.raw, 0, 0⟩
  | typeVar ofMethod index => ⟨variableCode ofMethod, 0, index.val, 0⟩
  | pointer _ => ⟨ElementType.ptr, 0, 0, 0⟩
  | szArray _ => ⟨ElementType.szarray, 0, 0, 0⟩
  | array _ _ _ _ => ⟨ElementType.array, 0, 0, 0⟩
  | generic _ token _ => ⟨ElementType.genericinst, token.raw, 0, 0⟩
  | byRef element => { element.report with flags := element.report.flags ||| flagByref }
  | pinned element => { element.report with flags := element.report.flags ||| flagPinned }
  | modified _ _ element => element.report

mutual

def depth : SigType → Nat
  | primitive _ | named _ _ | typeVar _ _ => 0
  | pointer element | szArray element | array element _ _ _ => element.depth + 1
  | byRef element | pinned element | modified _ _ element => element.depth
  | generic _ _ arguments => depthAll arguments + 1

def depthAll : List SigType → Nat
  | [] => 0
  | type :: types => max type.depth (depthAll types)

end

mutual

/-- The numbers of entries have a compressed form. -/
def Counted : SigType → Prop
  | primitive _ | named _ _ | typeVar _ _ => True
  | pointer element | szArray element => element.Counted
  | array element _ sizes bounds => element.Counted ∧ sizes.length < 2 ^ 29 ∧ bounds.length < 2 ^ 29
  | byRef element | pinned element | modified _ _ element => element.Counted
  | generic _ _ arguments => arguments.length < 2 ^ 29 ∧ CountedAll arguments

def CountedAll : List SigType → Prop
  | [] => True
  | type :: types => type.Counted ∧ CountedAll types

end

end SigType

structure MethodSig where
  callingConvention : UInt8
  genericParameterCount : Compressible
  returnType : SigType
  parameters : List SigType

namespace MethodSig

/-- The number of generic parameters stands there for generic methods only. -/
def genericBytes (signature : MethodSig) : List UInt8 :=
  if signature.callingConvention &&& 0x10 ≠ 0 then signature.genericParameterCount.encode else []

def header (signature : MethodSig) : List UInt8 :=
  signature.callingConvention :: (signature.genericBytes ++ encodeCount signature.parameters.length)

def encode (signature : MethodSig) : List UInt8 :=
  signature.header ++ (signature.returnType.encode ++ SigType.encodeAll signature.parameters)

def offsetOf (signature : MethodSig) (index : Nat) : Nat :=
  signature.header.length + signature.returnType.encode.length +
    (SigType.encodeAll (signature.parameters.take index)).length

def depth (signature : MethodSig) : Nat :=
  max signature.returnType.depth (SigType.depthAll signature.parameters)

/-- The numbers of entries have a compressed form, and the offsets 32 bits. -/
structure WellFormed (signature : MethodSig) : Prop where
  returnType : signature.returnType.Counted
  parameters : SigType.CountedAll signature.parameters
  count_lt : signature.parameters.length < 2 ^ 16
  size_lt : signature.encode.length < 2 ^ 32

/-- With room on the stack for its types a signature is parsed, its return type is reported
as it is encoded, and every parameter is read where it is encoded and reported so. -/
def Decoded (signature : MethodSig) : Prop :=
  ∀ depth, signature.depth < depth → ∃ desc, parseMethod depth signature.encode = .ok desc ∧
    desc.parameterCount = signature.parameters.length ∧
    desc.returnType = signature.returnType.report ∧
    ∀ index type, signature.parameters[index]? = some type →
      parameterOffset depth desc index = .ok (signature.offsetOf index) ∧
      readMethodParameter depth desc index = .ok type.report

end MethodSig

end Zapada.Zaclr
