import Mathlib.Order.WellFounded
import Zapada.Zaclr.Assemblies

/-! Type tests on objects: what `isinst`, `castclass` and catch clauses decide, and when it is
the subtype relation of the loaded types. -/

namespace Zapada.Zaclr

open Relation.ReflTransGen Option

/-- What a type test reads of an object: a string, a boxed value with the token it was boxed
with and the assembly of the boxing code, or an instance of a class. -/
inductive ManagedObject where
  | string
  | boxed (owningAssembly typeToken : Nat)
  | reference (owningAssembly typeId : Nat)
deriving DecidableEq

namespace Program

variable (program : Program)

/-- `reference_type_matches_target`; `none` while the walk has not ended. -/
def referenceTypeMatchesTarget (target : TypeId) : (fuel : Nat) → TypeId → Option Bool
  | 0, _ => none
  | fuel + 1, current =>
    if current = target then some true
    else
      match program.baseType current with
      | none => some false
      | some base => referenceTypeMatchesTarget target fuel base

def objectMatchesType (fuel current : Nat) (object : ManagedObject) (token : Nat) : Option Bool :=
  if program.tokenIsNamedType current token "System" "Object" then some true
  else
    match object with
    | .string => some (program.tokenIsNamedType current token "System" "String")
    | .boxed _ typeToken => some (typeToken = token)
    | .reference owningAssembly typeId =>
      match program.resolveTypeDesc current token with
      | none => some false
      | some target =>
        match program.typeDesc ⟨owningAssembly, typeId⟩ with
        | none => some false
        | some _ => program.referenceTypeMatchesTarget target fuel ⟨owningAssembly, typeId⟩

/-- A type on the walk over the base types. -/
def BaseClass : TypeId → TypeId → Prop :=
  Relation.ReflTransGen fun type base => program.baseType type = some base

variable {program}

theorem BaseClass.cons (step : program.baseType type = some base)
    (rest : program.BaseClass base target) :
    program.BaseClass type target := head step rest

end Program

namespace Naming

variable {program : Program} (naming : Naming program)

/-- The base class and the interfaces that a type declares. -/
def Declares (type super : TypeId) : Prop :=
  naming.base type = some super ∨ ∃ desc, program.typeDesc type = some desc ∧
    ∃ token ∈ desc.interfaces, naming.names type.assembly token = some super

/-- A type is, derives from or implements another. -/
def IsSubtype : TypeId → TypeId → Prop := Relation.ReflTransGen naming.Declares

/-- The declared supertypes of a type end somewhere. -/
def Acyclic : Prop := WellFounded (Function.swap naming.Declares)

/-- A type is, derives from or implements the type that a token names. -/
def Admits (current token : Nat) (exact : TypeId) : Prop :=
  ∃ target, naming.names current token = some target ∧ naming.IsSubtype exact target

variable {naming}

end Naming

/-- An interface, a class that implements it and one derived from that; a class derived from an
instantiation by an array type; and an assembly whose second type has the row of the first class. -/
def sampleProgram : Program where
  assemblies :=
    [{ assemblyName := "One"
       types := [⟨⟨"One", "IShape"⟩, 0, []⟩, ⟨⟨"One", "Shape"⟩, 0, [typeDefToken 1]⟩,
         ⟨⟨"One", "Square"⟩, typeDefToken 2, []⟩, ⟨⟨"One", "Box"⟩, 0, []⟩,
           ⟨⟨"One", "Ints"⟩, 0x1B000001, []⟩]
       typeRefs := [], typeSpecs :=
         [some ⟨typeDefToken 4, [.array (.primitive 8)]⟩], exportedTypes := [] },
     { assemblyName := "Two"
       types := [⟨⟨"Two", "Point"⟩, 0, []⟩, ⟨⟨"Two", "Size"⟩, 0, []⟩]
       typeRefs := [], typeSpecs := [], exportedTypes := [] }]

def sampleNaming : Naming sampleProgram where
  names current token :=
    if current = 0 ∧
      token = 0x1B000001 then some ⟨0, 4⟩ else sampleProgram.resolveTypeDesc current token
  loaded current token type named := by
    split at named
    · cases named
      decide
    · exact Program.resolveTypeDesc_typeDesc named
  typeDef type present := by
    have resolved := Program.resolveTypeDesc_typeDefToken present
    split
    · rename_i spec
      rw [spec.1, spec.2] at resolved
      have refused : sampleProgram.resolveTypeDesc 0 0x1B000001 = none := by decide
      cases refused.symm.trans resolved
    · exact resolved

theorem sampleNaming_linked : sampleNaming.Linked ⟨0, 3⟩ := by
  intro above derived
  rcases cases_head derived with rfl | ⟨next, step, rest⟩
  · decide
  · cases (show sampleNaming.base ⟨0, 3⟩ = some ⟨0, 2⟩ by decide).symm.trans step
    rcases cases_head rest with rfl | ⟨next, step, _⟩
    · decide
    · cases (show sampleNaming.base ⟨0, 2⟩ = none by decide).symm.trans step

end Zapada.Zaclr
