import Mathlib.Algebra.Group.Nat.Defs
import Mathlib.Data.List.Basic
import Mathlib.Logic.Relation

/-! The metadata of the loaded assemblies and the resolution of type tokens. An assembly is known
by its place in the registry. -/

namespace Zapada.Zaclr

open Option

def tokenTable (token : Nat) : Nat := token / 2 ^ 24 % 2 ^ 8

def tokenRow (token : Nat) : Nat := token % 2 ^ 24

def tokenIsNil (token : Nat) : Bool := tokenRow token = 0

def tokenMatchesTable (token table : Nat) : Bool := tokenTable token = table ∧ !tokenIsNil token

def typeRefTable : Nat := 0x01
def typeDefTable : Nat := 0x02
def typeSpecTable : Nat := 0x1B

def typeDefToken (row : Nat) : Nat := typeDefTable * 2 ^ 24 + row

structure TypeName where
  typeNamespace : String
  typeName : String
deriving DecidableEq

/-- A TypeDef row with its InterfaceImpl rows. -/
structure TypeDesc where
  name : TypeName
  extendsToken : Nat
  interfaces : List Nat
deriving DecidableEq

/-- A TypeRef row; `assemblyName` is missing where the scope is no assembly reference. -/
structure TypeRefRow where
  name : TypeName
  assemblyName : Option String
deriving DecidableEq

/-- An ExportedType row; `forwardedTo` is missing where it names no assembly reference. -/
structure ExportedTypeRow where
  name : TypeName
  forwardedTo : Option String
deriving DecidableEq

/-- An argument as a signature in the metadata has it. -/
inductive ArgumentSignature where
  | primitive (elementType : UInt8)
  | concreteType (elementType : UInt8) (token : Nat)
  | genericInst (elementType : UInt8) (token : Nat) (args : List ArgumentSignature)
  | typeVar (index : Nat)
  | methodVar (index : Nat)
  | array (element : ArgumentSignature)
  | pointer (element : ArgumentSignature)

mutual

/-- Arrays and pointers are refused at any depth. -/
def ArgumentSignature.parses : ArgumentSignature → Bool
  | .array _ | .pointer _ => false
  | .genericInst _ _ args => parsesAll args
  | _ => true

def ArgumentSignature.parsesAll : List ArgumentSignature → Bool
  | [] => true
  | arg :: args => arg.parses && parsesAll args

end

/-- A TypeSpec row that is an instantiation of a class or a value type. -/
structure TypeSpecRow where
  genericToken : Nat
  args : List ArgumentSignature

/-- A loaded assembly; rows are of 24 bits. -/
structure LoadedAssembly where
  assemblyName : String
  types : List TypeDesc
  typeRefs : List TypeRefRow
  typeSpecs : List (Option TypeSpecRow)
  exportedTypes : List ExportedTypeRow
  types_lt : types.length < 2 ^ 24 := by decide

/-- A type: the assembly that defines it, and its row there. -/
structure TypeId where
  assembly : Nat
  row : Nat
deriving DecidableEq

def tableRow (rows : List α) (row : Nat) : Option α := if row = 0 then none else rows[row - 1]?

/-- `zaclr_type_map_find_by_token` for a row. -/
def LoadedAssembly.typeDesc (assembly : LoadedAssembly) (row : Nat) : Option TypeDesc :=
  tableRow assembly.types row

/-- `zaclr_type_system_find_type_by_name`. -/
def LoadedAssembly.findTypeByName (assembly : LoadedAssembly) (name : TypeName) : Option Nat :=
  (assembly.types.findIdx? (·.name = name)).map (· + 1)

/-- The assemblies of the current domain in the order of the registry. -/
structure Program where
  assemblies : List LoadedAssembly

namespace Program

variable (program : Program)

/-- `zaclr_binder_bind` among the loaded assemblies. -/
def bind (assemblyName : String) : Option Nat :=
  program.assemblies.findIdx? (·.assemblyName = assemblyName)

def typeDesc (type : TypeId) : Option TypeDesc := do
  let assembly ← program.assemblies[type.assembly]?
  assembly.typeDesc type.row

def findIn (index : Nat) (name : TypeName) : Option TypeId := do
  let assembly ← program.assemblies[index]?
  let row ← assembly.findTypeByName name
  some ⟨index, row⟩

/-- `zaclr_type_system_resolve_exported_type_forwarder`: only the first row of the name counts. -/
def resolveExportedTypeForwarder (index : Nat) (name : TypeName) : Option TypeId := do
  let assembly ← program.assemblies[index]?
  let row ← assembly.exportedTypes.find? (·.name = name)
  let forwarded ← row.forwardedTo
  let target ← program.bind forwarded
  program.findIn target name

/-- A type by its name in an assembly, or forwarded by it. -/
def findOrForward (index : Nat) (name : TypeName) : Option TypeId :=
  (program.findIn index name).or (program.resolveExportedTypeForwarder index name)

/-- `zaclr_type_system_resolve_external_named_type`: the named assembly first, then all of them. -/
def resolveExternalNamedType (assemblyName : String) (name : TypeName) : Option TypeId :=
  ((program.bind assemblyName).bind (program.findOrForward · name)).or
    ((List.range program.assemblies.length).findSome? (program.findOrForward · name))

/-- `zaclr_type_system_resolve_type_desc` for a TypeDef or TypeRef token. -/
def resolveDefOrRef (current token : Nat) : Option TypeId := do
  let assembly ← program.assemblies[current]?
  if tokenMatchesTable token typeDefTable then
    let _ ← assembly.typeDesc (tokenRow token)
    some ⟨current, tokenRow token⟩
  else if tokenMatchesTable token typeRefTable then
    let row ← tableRow assembly.typeRefs (tokenRow token)
    let assemblyName ← row.assemblyName
    program.resolveExternalNamedType assemblyName row.name
  else none

/-- `zaclr_type_system_parse_typespec` up to the resolution of the generic type. -/
def genericToken (current token : Nat) : Option Nat := do
  let assembly ← program.assemblies[current]?
  let spec ← tableRow assembly.typeSpecs (tokenRow token)
  let spec ← spec
  if ArgumentSignature.parsesAll spec.args then some spec.genericToken else none

/-- `zaclr_type_system_resolve_type_desc`. For an instantiation the token of the generic type is
resolved once to find its assembly, and then again in that assembly. -/
def resolveTypeDesc (current token : Nat) : Option TypeId :=
  if tokenMatchesTable token typeSpecTable then do
    let generic ← program.genericToken current token
    let identity ← program.resolveDefOrRef current generic
    program.resolveDefOrRef identity.assembly generic
  else program.resolveDefOrRef current token

/-- `zaclr_metadata_get_type_name` for a TypeDef or TypeRef token. -/
def defOrRefName (current token : Nat) : Option TypeName := do
  let assembly ← program.assemblies[current]?
  if tokenMatchesTable token typeDefTable then
    let type ← assembly.typeDesc (tokenRow token)
    some type.name
  else if tokenMatchesTable token typeRefTable then
    let row ← tableRow assembly.typeRefs (tokenRow token)
    some row.name
  else none

def metadataGetTypeName (current token : Nat) : Option TypeName :=
  if tokenMatchesTable token typeSpecTable then
    (program.genericToken current token).bind (program.defOrRefName current)
  else program.defOrRefName current token

def tokenIsNamedType (current token : Nat) (typeNamespace typeName : String) : Bool :=
  program.metadataGetTypeName current token = some ⟨typeNamespace, typeName⟩

/-- The base type as the extends token is resolved. -/
def baseType (type : TypeId) : Option TypeId := do
  let desc ← program.typeDesc type
  if tokenIsNil desc.extendsToken then none
  else program.resolveTypeDesc type.assembly desc.extendsToken

theorem findIn_typeDesc {program : Program} (found : program.findIn index name = some type) :
    (program.typeDesc type).isSome := by
  simp only [findIn, bind_eq_bind, bind_eq_some_iff] at found
  obtain ⟨assembly, loaded, row, named, same⟩ := found
  cases same
  obtain ⟨place, at_place, rfl⟩ := map_eq_some_iff.mp named
  obtain ⟨inside, -⟩ := List.findIdx?_eq_some_iff_getElem.mp at_place
  simp [typeDesc, loaded, LoadedAssembly.typeDesc, tableRow, inside]

theorem findOrForward_typeDesc {program : Program}
    (found : program.findOrForward index name = some type) : (program.typeDesc type).isSome := by
  rcases or_eq_some_iff.mp found with here | ⟨-, forwarded⟩
  · exact findIn_typeDesc here
  · simp only [resolveExportedTypeForwarder, bind_eq_bind,
      bind_eq_some_iff] at forwarded
    obtain ⟨-, -, -, -, -, -, target, -, there⟩ := forwarded
    exact findIn_typeDesc there

theorem resolveDefOrRef_typeDesc {program : Program}
    (resolved : program.resolveDefOrRef current token = some type) :
    (program.typeDesc type).isSome := by
  simp only [resolveDefOrRef, bind_eq_bind, bind_eq_some_iff] at resolved
  obtain ⟨assembly, loaded, resolved⟩ := resolved
  split_ifs at resolved
  · obtain ⟨desc, found, same⟩ := bind_eq_some_iff.mp resolved
    cases same
    simp [typeDesc, loaded, found]
  · simp only [bind_eq_some_iff] at resolved
    obtain ⟨row, -, assemblyName, -, named⟩ := resolved
    rcases or_eq_some_iff.mp named with first | ⟨-, anywhere⟩
    · obtain ⟨index, -, found⟩ := bind_eq_some_iff.mp first
      exact findOrForward_typeDesc found
    · obtain ⟨index, -, found⟩ := List.exists_of_findSome?_eq_some anywhere
      exact findOrForward_typeDesc found

theorem resolveTypeDesc_typeDesc {program : Program}
    (resolved : program.resolveTypeDesc current token = some type) :
    (program.typeDesc type).isSome := by
  unfold resolveTypeDesc at resolved
  split at resolved
  · simp only [bind_eq_bind, bind_eq_some_iff] at resolved
    obtain ⟨generic, -, identity, -, again⟩ := resolved
    exact resolveDefOrRef_typeDesc again
  · exact resolveDefOrRef_typeDesc resolved

/-- The TypeDef token of a type is resolved to it in its own assembly. -/
theorem resolveTypeDesc_typeDefToken {program : Program}
    (present : (program.typeDesc type).isSome) :
    program.resolveTypeDesc type.assembly (typeDefToken type.row) = some type := by
  obtain ⟨desc, found⟩ := isSome_iff_exists.mp present
  obtain ⟨assembly, loaded, row⟩ := bind_eq_some_iff.mp found
  have bound := assembly.types_lt
  have inside : type.row ≠ 0 ∧ type.row ≤ assembly.types.length := by
    simp only [LoadedAssembly.typeDesc, tableRow] at row
    split_ifs at row with zero
    have := (List.getElem?_eq_some_iff.mp row).1
    omega
  have table : tokenTable (typeDefToken type.row) = typeDefTable := by
    simp only [tokenTable, typeDefToken, typeDefTable]
    omega
  have same : tokenRow (typeDefToken type.row) = type.row := by
    simp only [tokenRow, typeDefToken, typeDefTable]
    omega
  have notSpec : typeDefTable ≠ typeSpecTable := by decide
  simp [resolveTypeDesc, resolveDefOrRef, tokenMatchesTable, tokenIsNil, table, same,
    inside, notSpec,
    loaded, row]

end Program

/-- What the type tokens name, whatever the runtime makes of them. -/
structure Naming (program : Program) where
  names : (current token : Nat) → Option TypeId
  loaded : ∀ current token type, names current token = some type → (program.typeDesc type).isSome
  typeDef : ∀ type, (program.typeDesc type).isSome →
    names type.assembly (typeDefToken type.row) = some type

namespace Naming

variable {program : Program} (naming : Naming program)

/-- The base class that a type declares. -/
def base (type : TypeId) : Option TypeId := do
  let desc ← program.typeDesc type
  if tokenIsNil desc.extendsToken then none else naming.names type.assembly desc.extendsToken

def Derives : TypeId → TypeId → Prop :=
  Relation.ReflTransGen fun type base => naming.base type = some base

/-- The extends tokens of a type and of its base classes are resolved to what they name. -/
def Linked (type : TypeId) : Prop := ∀ above, naming.Derives type above →
      program.baseType above = naming.base above

end Naming

end Zapada.Zaclr
