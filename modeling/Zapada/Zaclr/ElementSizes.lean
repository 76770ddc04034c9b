import Zapada.Zaclr.ArrayRoundTrips
import Zapada.Zaclr.GenericContexts
import Zapada.Zaclr.PreparedTables

namespace Zapada.Zaclr

open Foundation ElementType Option

/-- What `sizeof` reads of a frame: its assembly with the metadata of all types, and the generic
arguments. A specification that is a type variable is no instantiation. -/
structure SizeofFrame where
  program : Program
  current : Nat
  typeArgs : List GenericArgument
  methodArgs : List GenericArgument
  types : TypeId → TypeInfo TypeId
  specBlob : Nat → Option (List UInt8)
  variableSpec : ∀ token blob, specBlob (tokenRow token) = some blob →
    blob.head? = some var ∨ blob.head? = some mvar →
    program.genericToken current token = none

/-- The tables with what was prepared, and a size unless the computation failed. -/
abbrev Sized := MethodTables TypeId × Option Nat

namespace SizeofFrame

variable (frame : SizeofFrame) (fuel : Nat)

/-- `extends_well_known_type` looks at the name in the token of the base. -/
def extendsWellKnownType (type : TypeId) (name : TypeName) : Bool :=
  match frame.program.typeDesc type with
  | none => false
  | some desc => frame.program.defOrRefName type.assembly desc.extendsToken = some name

def methodTableIsValueType (type : TypeId) : Bool :=
  frame.extendsWellKnownType type ⟨"System", "ValueType"⟩ || frame.extendsWellKnownType type
    ⟨"System", "Enum"⟩

/-- `zaclr_type_prepare`, and the size of the instances without their header. -/
def preparedSize (tables : MethodTables TypeId) (type : TypeId) : Option Sized := do
  let tables ← typePrepare frame.types fuel tables type
  return (tables, (tables type).bind fun table =>
    if table.instanceSize < objectHeaderSize then
      none else some (table.instanceSize - objectHeaderSize))

def referenceElementTypes : List UInt8 := [0x12, 0x1C, 0x0E, 0x1D, 0x14]

/-- A type variable is looked up in the frame again, with room for `depth` nested calls. -/
def computeSizeofGenericArgument (tables : MethodTables TypeId) : (depth : Nat) → GenericArgument →
      Option Sized
  | 0, _ => none
  | depth + 1, .mk kind elementType token assembly index _ =>
    match kind with
    | .primitive =>
      let size := sizeFromElementType elementType
      some (tables, if size = 0 then none else some size)
    | .typeVar =>
      match frame.typeArgs[index]? with
      | none => some (tables, none)
      | some argument => computeSizeofGenericArgument tables depth argument
    | .methodVar =>
      match frame.methodArgs[index]? with
      | none => some (tables, none)
      | some argument => computeSizeofGenericArgument tables depth argument
    | .concreteType | .genericInst =>
      if elementType ∈ referenceElementTypes then some (tables, some objectHandleSize)
      else if tokenIsNil token then some (tables, none)
      else
        match frame.program.resolveTypeDesc assembly token with
        | none => some (tables, none)
        | some type => frame.preparedSize fuel tables type

/-- The number of the type variable, of one or two bytes. -/
def specIndex : List UInt8 → Option Nat
  | _ :: first :: rest =>
    if first < 0x80 then some first.toNat
    else if first &&& 0xC0 = 0x80 then rest.head?.map fun second =>
      (first &&& 0x3F).toNat * 256 + second.toNat
    else none
  | _ => none

/-- The argument that a specification stands for, if it is a type variable. -/
def specArgument (token : Nat) : Option GenericArgument := do
  let blob ← frame.specBlob (tokenRow token)
  let index ← specIndex blob
  if blob.head? = some var then frame.typeArgs[index]?
  else if blob.head? = some mvar then frame.methodArgs[index]?
  else none

def resolveSizeofTypespecArgument (tables : MethodTables TypeId) (depth token : Nat) :
    Option Sized :=
  match frame.specArgument token with
  | none => some (tables, none)
  | some argument => frame.computeSizeofGenericArgument fuel tables depth argument

/-- The types that `sizeof` knows by name. -/
def sizedByName (name : TypeName) : Bool :=
  name.typeNamespace = "System" ∧
    (elementSizeForTypeName name.typeName ≠ objectHandleSize ∨ name.typeName = "IntPtr" ∨
      name.typeName = "UIntPtr")

def sizeofType (tables : MethodTables TypeId) (token : Nat) : Option Sized :=
  match frame.program.resolveTypeDesc frame.current token with
  | none => some (tables, none)
  | some type =>
    match frame.program.typeDesc type with
    | none => some (tables, none)
    | some desc =>
      if sizedByName desc.name then some (tables, some (elementSizeForTypeName desc.name.typeName))
      else do
        let (tables, size) ← frame.preparedSize fuel tables type
        return (tables, if frame.methodTableIsValueType type then size else some objectHandleSize)

def computeSizeofToken (tables : MethodTables TypeId) (depth token : Nat) : Option Sized :=
  if tokenMatchesTable token typeSpecTable then do
    let (tables, size) ← frame.resolveSizeofTypespecArgument fuel tables depth token
    match size with
    | some size => return (tables, some size)
    | none => frame.sizeofType fuel tables token
  else frame.sizeofType fuel tables token

/-- What a generic argument is measured by: a number of bytes that is known, or the layout of a
type. -/
inductive Measure where
  | bytes (count : Nat)
  | laidOut (type : TypeId)

def argumentMeasure : (depth : Nat) → GenericArgument → Option Measure
  | 0, _ => none
  | depth + 1, .mk kind elementType token assembly index _ =>
    match kind with
    | .primitive =>
      if sizeFromElementType elementType = 0 then
        none else some (.bytes (sizeFromElementType elementType))
    | .typeVar => frame.typeArgs[index]?.bind (argumentMeasure depth)
    | .methodVar => frame.methodArgs[index]?.bind (argumentMeasure depth)
    | .concreteType | .genericInst =>
      if elementType ∈ referenceElementTypes then some (.bytes objectHandleSize)
      else if tokenIsNil token then none
      else (frame.program.resolveTypeDesc assembly token).map .laidOut

/-- The table of a type records instances with one word of fields behind their header. -/
def RecordsWord (tables : MethodTables TypeId) (type : TypeId) : Prop :=
  ∃ tables' table, typePrepare frame.types fuel tables type = some tables' ∧
    tables' type = some table ∧ table.instanceSize = objectHeaderSize + 8

/-- A type of as many bytes as a reference. -/
def Measure.IsWord (tables : MethodTables TypeId) : Measure → Prop
  | .bytes count => count = 8
  | .laidOut type => frame.RecordsWord fuel tables type

/-- The tokens for which both sizes are the same. `newarr` knows the primitive types by their
simple names and takes all others, and all specifications, for references. -/
def SameSize (tables : MethodTables TypeId) (depth token : Nat) : Prop :=
  let spec := tokenMatchesTable token typeSpecTable
  match if spec then frame.specArgument token else none with
  | some argument =>
    ∃ measure, frame.argumentMeasure depth argument = some measure ∧
      measure.IsWord frame fuel tables
  | none => ∃ type desc, frame.program.resolveTypeDesc frame.current token = some type ∧
      frame.program.typeDesc type = some desc ∧
      if sizedByName desc.name then spec → elementSizeForTypeName desc.name.typeName = 8
      else (spec ∨ desc.name.typeName ∉ narrowNames) ∧
        (frame.methodTableIsValueType type → frame.RecordsWord fuel tables type)

end SizeofFrame

namespace Program

variable {program : Program}

theorem findIn_name (found : program.findIn index name = some type)
    (known : program.typeDesc type = some desc) :
    desc.name = name := by
  obtain ⟨assembly, loaded, found⟩ := bind_eq_some_iff.mp found
  obtain ⟨row, place, same⟩ := bind_eq_some_iff.mp found
  cases same
  obtain ⟨position, searched, rfl⟩ := map_eq_some_iff.mp place
  obtain ⟨inside, named, -⟩ := List.findIdx?_eq_some_iff_getElem.mp searched
  simp only [typeDesc, loaded, bind_eq_bind, bind_some, LoadedAssembly.typeDesc,
    tableRow, Nat.add_eq_zero_iff,
    one_ne_zero, and_false, if_false, Nat.add_sub_cancel, List.getElem?_eq_getElem inside,
      some.injEq] at known
  rw [← known]
  exact of_decide_eq_true named

theorem findOrForward_name (found : program.findOrForward index name = some type)
    (known : program.typeDesc type = some desc) : desc.name = name := by
  rcases or_eq_some_iff.mp found with here | ⟨-, forwarded⟩
  · exact findIn_name here known
  · obtain ⟨assembly, -, forwarded⟩ := bind_eq_some_iff.mp forwarded
    obtain ⟨row, -, forwarded⟩ := bind_eq_some_iff.mp forwarded
    obtain ⟨next, -, forwarded⟩ := bind_eq_some_iff.mp forwarded
    obtain ⟨target, -, there⟩ := bind_eq_some_iff.mp forwarded
    exact findIn_name there known

theorem resolveExternalNamedType_name
    (found : program.resolveExternalNamedType assemblyName name = some type)
    (known : program.typeDesc type = some desc) : desc.name = name := by
  rcases or_eq_some_iff.mp found with preferred | ⟨-, any⟩
  · obtain ⟨index, -, found⟩ := bind_eq_some_iff.mp preferred
    exact findOrForward_name found known
  · obtain ⟨index, -, found⟩ := List.exists_of_findSome?_eq_some any
    exact findOrForward_name found known

/-- A token is resolved to a type of the name that it is spelled with. -/
theorem resolveDefOrRef_name (resolved : program.resolveDefOrRef current token = some type)
    (known : program.typeDesc type = some desc) :
    program.defOrRefName current token = some desc.name := by
  obtain ⟨assembly, loaded, resolved⟩ := bind_eq_some_iff.mp resolved
  by_cases isDef : tokenMatchesTable token typeDefTable
  · rw [if_pos isDef] at resolved
    obtain ⟨own, present, same⟩ := bind_eq_some_iff.mp resolved
    cases same
    simp only [typeDesc, loaded, bind_eq_bind, bind_some, present,
      some.injEq] at known
    simp [defOrRefName, loaded, isDef, present, known]
  · rw [if_neg isDef] at resolved
    by_cases isRef : tokenMatchesTable token typeRefTable
    · rw [if_pos isRef] at resolved
      obtain ⟨row, present, resolved⟩ := bind_eq_some_iff.mp resolved
      obtain ⟨assemblyName, -, resolved⟩ := bind_eq_some_iff.mp resolved
      have named := resolveExternalNamedType_name resolved known
      simp [defOrRefName, loaded, isDef, isRef, present, named]
    · rw [if_neg isRef] at resolved
      cases resolved

end Program

theorem elementSizeForTypeName_pos (typeName : String) : 0 < elementSizeForTypeName typeName := by
  unfold elementSizeForTypeName
  split_ifs <;> decide

namespace SizeofFrame

variable {frame : SizeofFrame} {tables tables' : MethodTables TypeId}

theorem preparedSize_eq_some
    (prepared : frame.preparedSize fuel tables type = some (tables', some size)) :
    ∃ table, typePrepare frame.types fuel tables type = some tables' ∧ tables' type = some table ∧
      table.instanceSize = objectHeaderSize + size := by
  obtain ⟨after, done, prepared⟩ := bind_eq_some_iff.mp prepared
  simp only [pure_def, some.injEq, Prod.mk.injEq] at prepared
  obtain ⟨rfl, measured⟩ := prepared
  obtain ⟨table, present, measured⟩ := bind_eq_some_iff.mp measured
  refine ⟨table, done, present, ?_⟩
  split at measured
  · cases measured
  · cases measured
    omega

theorem recordsWord_iff
    (prepared : frame.preparedSize fuel tables type = some (tables', some size)) :
    frame.RecordsWord fuel tables type ↔ size = 8 := by
  obtain ⟨table, done, present, recorded⟩ := preparedSize_eq_some prepared
  constructor
  · rintro ⟨after, other, again, found, word⟩
    cases done.symm.trans again
    cases present.symm.trans found
    omega
  · rintro rfl
    exact ⟨tables', table, done, present, recorded⟩

theorem argument_isWord_iff
    (computed : frame.computeSizeofGenericArgument fuel tables depth argument =
      some (tables', some size)) :
    size = 8 ↔ ∃ measure, frame.argumentMeasure depth argument = some measure ∧
      measure.IsWord frame fuel tables := by
  induction depth generalizing argument with
  | zero => cases computed
  | succ depth ih =>
    obtain ⟨kind, elementType, token, assembly, index, args⟩ := argument
    cases kind with
    | primitive =>
      by_cases none : sizeFromElementType elementType = 0
      · simp [computeSizeofGenericArgument, none] at computed
      · simp only [computeSizeofGenericArgument, none, if_false] at computed
        cases computed
        simp [argumentMeasure, none, Measure.IsWord]
    | typeVar | methodVar =>
      simp only [computeSizeofGenericArgument] at computed
      split at computed
      · cases computed
      · rename_i found
        simpa [argumentMeasure, found] using ih computed
    | concreteType | genericInst =>
      by_cases reference : elementType ∈ referenceElementTypes
      · simp only [computeSizeofGenericArgument, reference, if_true, some.injEq,
          Prod.mk.injEq] at computed
        simp [argumentMeasure, reference, Measure.IsWord, ← computed.2]
      · by_cases nil : tokenIsNil token
        · simp [computeSizeofGenericArgument, reference, nil] at computed
        · cases resolved : frame.program.resolveTypeDesc assembly token with
          | none => simp [computeSizeofGenericArgument, reference, nil, resolved] at computed
          | some type =>
            simp only [computeSizeofGenericArgument, reference, nil, resolved, if_false,
              Bool.false_eq_true] at computed
            simp [argumentMeasure, reference, nil, resolved, Measure.IsWord,
              recordsWord_iff computed]

theorem preparedSize_rounded (reached : (typeMachine frame.types).Run labels tables)
    (prepared : frame.preparedSize fuel tables type = some (tables', some size)) : 8 ∣ size := by
  obtain ⟨table, done, present, recorded⟩ := preparedSize_eq_some prepared
  have next : (typeMachine frame.types).Run (labels ++ [(fuel, type)]) tables' := .next reached done
  have divides : 8 ∣ table.instanceSize :=
    (Throughout.reached typePrepare_rounded next).2 type table present
  rw [recorded] at divides
  exact (Nat.dvd_add_right (by decide)).mp divides

theorem elementSizeForToken_spec (spec : tokenMatchesTable token typeSpecTable = true) :
    elementSizeForToken frame.program frame.current token = 8 := by
  simp [elementSizeForToken, spec, objectHandleSize]

theorem elementSizeForToken_named (notSpec : tokenMatchesTable token typeSpecTable = false)
    (resolved : frame.program.resolveTypeDesc frame.current token = some type)
    (known : frame.program.typeDesc type = some desc) :
    elementSizeForToken frame.program frame.current token =
      elementSizeForTypeName desc.name.typeName := by
  simp only [Program.resolveTypeDesc, notSpec, Bool.false_eq_true, if_false] at resolved
  simp [elementSizeForToken, notSpec, Program.metadataGetTypeName,
    Program.resolveDefOrRef_name resolved known]

theorem sizeofType_laidOut (reached : (typeMachine frame.types).Run labels tables) (computed : (do
      let (tables, size) ← frame.preparedSize fuel tables type
      return (tables, if frame.methodTableIsValueType type then size else some objectHandleSize)) =
        some (tables', some size)) :
    8 ∣ size ∧
      (size = 8 ↔ (frame.methodTableIsValueType type → frame.RecordsWord fuel tables type)) := by
  obtain ⟨⟨after, laid⟩, prepared, returned⟩ := bind_eq_some_iff.mp computed
  simp only [pure_def, some.injEq, Prod.mk.injEq] at returned
  obtain ⟨rfl, measured⟩ := returned
  by_cases isValue : frame.methodTableIsValueType type
  · simp only [isValue, if_true] at measured
    subst measured
    refine ⟨preparedSize_rounded reached prepared, ?_⟩
    simp [isValue, recordsWord_iff prepared]
  · simp only [isValue, if_false, some.injEq, Bool.false_eq_true] at measured
    subst measured
    exact ⟨Nat.dvd_refl 8, by simp [isValue, objectHandleSize]⟩

theorem sizeofType_same_iff (reached : (typeMachine frame.types).Run labels tables)
    (computed : frame.sizeofType fuel tables token = some (tables', some size)) :
    elementSizeForToken frame.program frame.current token = size ↔
      ∃ type desc, frame.program.resolveTypeDesc frame.current token = some type ∧
        frame.program.typeDesc type = some desc ∧
        if sizedByName desc.name then tokenMatchesTable token typeSpecTable →
          elementSizeForTypeName desc.name.typeName = 8
        else (tokenMatchesTable token typeSpecTable ∨ desc.name.typeName ∉ narrowNames) ∧
          (frame.methodTableIsValueType type → frame.RecordsWord fuel tables type) := by
  cases resolved : frame.program.resolveTypeDesc frame.current token with
  | none => simp [sizeofType, resolved] at computed
  | some type =>
    cases known : frame.program.typeDesc type with
    | none => simp [sizeofType, resolved, known] at computed
    | some desc =>
      simp only [sizeofType, resolved, known] at computed
      have only (holds : TypeId → TypeDesc → Prop) : (∃ one other, some type = some one ∧
          frame.program.typeDesc one = some other ∧ holds one other) ↔ holds type desc := by
        simp [known]
      rw [only]
      by_cases byName : sizedByName desc.name
      · simp only [byName, if_true, some.injEq, Prod.mk.injEq] at computed ⊢
        obtain ⟨-, rfl⟩ := computed
        cases spec : tokenMatchesTable token typeSpecTable with
        | true => simp [elementSizeForToken_spec spec, eq_comm]
        | false => simp [elementSizeForToken_named spec resolved known]
      · simp only [byName, if_false, Bool.false_eq_true] at computed ⊢
        obtain ⟨divides, word⟩ := sizeofType_laidOut reached computed
        rw [← word]
        cases spec : tokenMatchesTable token typeSpecTable with
        | true => simp [elementSizeForToken_spec spec, eq_comm]
        | false =>
          rw [elementSizeForToken_named spec resolved known]
          have positive := elementSizeForTypeName_pos desc.name.typeName
          have bound := elementSizeForTypeName_le desc.name.typeName
          simp only [Bool.false_eq_true, false_or, ← bound.2]
          omega

theorem specArgument_unresolved (stands : frame.specArgument token = some argument)
    (spec : tokenMatchesTable token typeSpecTable = true) :
    frame.program.resolveTypeDesc frame.current token = none := by
  obtain ⟨blob, found, stands⟩ := bind_eq_some_iff.mp stands
  have isVariable : blob.head? = some var ∨ blob.head? = some mvar := by
    by_contra neither
    rw [not_or] at neither
    simp [neither.1, neither.2] at stands
  simp [Program.resolveTypeDesc, spec, frame.variableSpec token blob found isVariable]

/-- `newarr` and `sizeof` agree on a token just where the first is right to go by the name. -/
theorem newarr_sizeof_iff (frame : SizeofFrame) (fuel depth token : Nat)
    (labels : List (Nat × TypeId))
    (tables tables' : MethodTables TypeId) (reached : (typeMachine frame.types).Run labels tables)
    (size : Nat)
    (computed : frame.computeSizeofToken fuel tables depth token = some (tables', some size)) :
    elementSizeForToken frame.program frame.current token = size ↔
      frame.SameSize fuel tables depth token := by
  cases spec : tokenMatchesTable token typeSpecTable with
  | false =>
    simp only [computeSizeofToken, spec, Bool.false_eq_true, if_false] at computed
    rw [sizeofType_same_iff reached computed]
    simp [SameSize, spec]
  | true =>
    simp only [computeSizeofToken, spec, if_true, resolveSizeofTypespecArgument] at computed
    cases stands : frame.specArgument token with
    | none =>
      simp only [stands, bind_eq_bind, bind_some] at computed
      rw [sizeofType_same_iff reached computed]
      simp [SameSize, spec, stands]
    | some argument =>
      simp only [stands] at computed
      obtain ⟨⟨after, measured⟩, argued, computed⟩ := bind_eq_some_iff.mp computed
      cases measured with
      | none => simp [sizeofType, specArgument_unresolved stands spec] at computed
      | some measured =>
        cases computed
        rw [elementSizeForToken_spec spec, eq_comm, argument_isWord_iff argued]
        simp [SameSize, spec, stands]

def plainField (row : Nat) (elementType : UInt8) : FieldDesc TypeId where
  row
  isStatic := false
  signature := some { elementType, typeToken := 0, genericParamIndex := 0, flags := 0 }
  nested := none

/-- `struct Stamp { long Ticks; }` and `struct Point { int X; int Y; long Z; }`, and a type
variable that stands for `long`. -/
def structFrame : SizeofFrame where
  program := ⟨[{
    assemblyName := "App"
    types := [⟨⟨"System", "ValueType"⟩, 0, []⟩, ⟨⟨"App", "Stamp"⟩, typeDefToken 1, []⟩,
      ⟨⟨"App", "Point"⟩, typeDefToken 1, []⟩]
    typeRefs := []
    typeSpecs := []
    exportedTypes := [] }]⟩
  current := 0
  typeArgs := [.mk .primitive 0x0A 0 0 0 []]
  methodArgs := []
  types type :=
    { parent := if type.row = 1 then none else some ⟨0, 1⟩
      isEnum := false
      enumUnderlying := none
      fields := match type.row with
        | 2 => [plainField 1 0x0A]
        | 3 => [plainField 2 0x08, plainField 3 0x08, plainField 4 0x0A]
        | _ => [] }
  specBlob row := if row = 1 then some [var, 0] else none
  variableSpec := by simp [Program.genericToken, tableRow]

theorem stamp_array_agrees :
    (((structFrame.computeSizeofToken 3 (fun _ => none) 1 (typeDefToken 2)).bind (·.2)) = some 8 ∧
      structFrame.SameSize 3 (fun _ => none) 1 (typeDefToken 2)) ∧
    ((structFrame.computeSizeofToken 3 (fun _ => none) 1 0x1B000001).bind (·.2)) = some 8 ∧
      structFrame.SameSize 3 (fun _ => none) 1 0x1B000001 := by
  have size :
      ((structFrame.computeSizeofToken 3 (fun _ => none) 1 (typeDefToken 2)).bind (·.2)) =
        some 8 := by decide
  have specSize :
      ((structFrame.computeSizeofToken 3 (fun _ => none) 1 0x1B000001).bind (·.2)) = some 8 := by
        decide
  obtain ⟨⟨tables, measured⟩, computed, same⟩ := bind_eq_some_iff.mp size
  cases same
  obtain ⟨⟨after, measured⟩, specComputed, same⟩ := bind_eq_some_iff.mp specSize
  cases same
  exact ⟨⟨size, (newarr_sizeof_iff structFrame 3 1 _ [] _ _ (.start rfl) 8 computed).mp
    (by decide)⟩,
    specSize, (newarr_sizeof_iff structFrame 3 1 _ [] _ _ (.start rfl) 8 specComputed).mp
      (by decide)⟩

/-- The elements of an array of a structure of 16 bytes are 8 bytes apart. -/
theorem point_array_overlaps :
    ((structFrame.computeSizeofToken 3 (fun _ => none) 1 (typeDefToken 3)).bind (·.2)) = some 16 ∧
      elementSizeForToken structFrame.program structFrame.current (typeDefToken 3) = 8 := by
  decide

end SizeofFrame

end Zapada.Zaclr
