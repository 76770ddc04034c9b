import Zapada.Zaclr.Assemblies
import Zapada.Foundation.SequentialLayout

namespace Zapada.Zaclr

open Foundation Option

inductive ArgumentKind where
  | concreteType
  | primitive
  | typeVar
  | methodVar
  | genericInst
deriving DecidableEq

inductive GenericArgument where
  | mk (kind : ArgumentKind) (elementType : UInt8) (token assembly genericParamIndex : Nat)
      (instantiationArgs : List GenericArgument)

mutual

def genericArgumentMatches : GenericArgument → GenericArgument → Bool
  | .mk kind elementType token assembly index args, .mk kind' elementType' token' assembly' index' args' =>
    kind = kind' ∧ elementType = elementType' ∧ token = token' ∧ assembly = assembly' ∧
      index = index' ∧
      args.length = args'.length ∧ genericArgumentsMatch args args'

/-- The loop over the arguments of the left side. -/
def genericArgumentsMatch : List GenericArgument → List GenericArgument → Bool
  | [], _ => true
  | left :: lefts, right :: rights =>
    genericArgumentMatches left right && genericArgumentsMatch lefts rights
  | _ :: _, [] => false

end

def genericTypeContextMatches (left right : List GenericArgument) : Bool :=
  left.length = right.length ∧ genericArgumentsMatch left right

mutual

theorem genericArgumentMatches_iff : ∀ left right : GenericArgument,
    genericArgumentMatches left right = true ↔ left = right
  | .mk kind elementType token assembly index args, .mk kind' elementType' token' assembly' index' args' => by
    have all := genericArgumentsMatch_iff args args'
    simp only [genericArgumentMatches, decide_eq_true_eq, GenericArgument.mk.injEq]
    constructor
    · rintro ⟨rfl, rfl, rfl, rfl, rfl, long, same⟩
      exact ⟨rfl, rfl, rfl, rfl, rfl, (all long).mp same⟩
    · rintro ⟨rfl, rfl, rfl, rfl, rfl, rfl⟩
      exact ⟨rfl, rfl, rfl, rfl, rfl, rfl, (all rfl).mpr rfl⟩

theorem genericArgumentsMatch_iff : ∀ lefts rights :
    List GenericArgument, lefts.length = rights.length →
    (genericArgumentsMatch lefts rights = true ↔ lefts = rights)
  | [], [], _ => by simp [genericArgumentsMatch]
  | left :: lefts, right :: rights, long => by
    have head := genericArgumentMatches_iff left right
    have tail := genericArgumentsMatch_iff lefts rights (Nat.succ.inj long)
    simp only [genericArgumentsMatch, Bool.and_eq_true, head, tail, List.cons.injEq]

end

theorem genericTypeContextMatches_iff (left right : List GenericArgument) :
    genericTypeContextMatches left right = true ↔ left = right := by
  rw [genericTypeContextMatches, decide_eq_true_eq]
  constructor
  · rintro ⟨long, same⟩
    exact (genericArgumentsMatch_iff left right long).mp same
  · rintro rfl
    exact ⟨rfl, (genericArgumentsMatch_iff left left rfl).mpr rfl⟩

instance : DecidableEq GenericArgument := fun left right =>
  decidable_of_iff _ (genericArgumentMatches_iff left right)

inductive ClosedType where
  | primitive (elementType : UInt8)
  | type (id : TypeId)
  | inst (id : TypeId) (args : List ClosedType)
  | array (element : ClosedType)
  | pointer (element : ClosedType)

section Arguments

variable (program : Program)

def resolveArgumentAssembly (current token : Nat) : Nat :=
  (program.resolveTypeDesc current token).elim current (·.assembly)

mutual

/-- The token stays as it is spelled in the current assembly, next to the assembly that it
leads to. -/
def decodeInstantiationArgument (current : Nat) : ArgumentSignature → Option GenericArgument
  | .primitive elementType => some (.mk .primitive elementType 0 current 0 [])
  | .concreteType elementType token =>
    some (.mk .concreteType elementType token (resolveArgumentAssembly program current token) 0 [])
  | .genericInst elementType token args =>
    (parseInstantiationArguments current args).map
      (.mk .genericInst elementType token (resolveArgumentAssembly program current token) 0)
  | .typeVar index => some (.mk .typeVar 0x13 0 current index [])
  | .methodVar index => some (.mk .methodVar 0x1E 0 current index [])
  | .array _ | .pointer _ => none

def parseInstantiationArguments (current : Nat) : List ArgumentSignature →
      Option (List GenericArgument)
  | [] => some []
  | arg :: args => do
    let arg ← decodeInstantiationArgument current arg
    let args ← parseInstantiationArguments current args
    return arg :: args

end

mutual

/-- A type variable without type arguments takes a method argument. -/
def substituteArgument (typeArgs methodArgs : List GenericArgument) : GenericArgument →
      GenericArgument
  | .mk kind elementType token assembly index args =>
    let source := .mk kind elementType token assembly index args
    match kind with
    | .typeVar =>
      if typeArgs.isEmpty then methodArgs[index]?.getD source else typeArgs[index]?.getD source
    | .methodVar => methodArgs[index]?.getD source
    | .genericInst =>
      .mk kind elementType token assembly index (substituteArgumentArray typeArgs methodArgs args)
    | _ => source

def substituteArgumentArray (typeArgs methodArgs : List GenericArgument) : List GenericArgument →
      List GenericArgument
  | [] => []
  | arg :: args =>
    substituteArgument typeArgs methodArgs arg :: substituteArgumentArray typeArgs methodArgs args

end

mutual

/-- What a signature means in an assembly, for given type and method arguments. -/
def ArgumentSignature.close (current : Nat) (types methods : List ClosedType) : ArgumentSignature →
      Option ClosedType
  | .primitive elementType => some (.primitive elementType)
  | .concreteType _ token => (program.resolveTypeDesc current token).map .type
  | .genericInst _ token args => do
    let id ← program.resolveTypeDesc current token
    let args ← closeAll current types methods args
    return .inst id args
  | .typeVar index => types[index]?
  | .methodVar index => methods[index]?
  | .array element => (element.close current types methods).map .array
  | .pointer element => (element.close current types methods).map .pointer

def ArgumentSignature.closeAll (current : Nat) (types methods : List ClosedType) :
    List ArgumentSignature → Option (List ClosedType)
  | [] => some []
  | arg :: args => do
    let type ← arg.close current types methods
    let rest ← closeAll current types methods args
    return type :: rest

end

mutual

/-- The closed type that a stored argument means in the assembly recorded with it. -/
def GenericArgument.meaning : GenericArgument → Option ClosedType
  | .mk .primitive elementType _ _ _ _ => some (.primitive elementType)
  | .mk .concreteType _ token assembly _ _ => (program.resolveTypeDesc assembly token).map .type
  | .mk .genericInst _ token assembly _ args => do
    let id ← program.resolveTypeDesc assembly token
    let args ← meanings args
    return .inst id args
  | .mk .typeVar _ _ _ _ _ | .mk .methodVar _ _ _ _ _ => none

def GenericArgument.meanings : List GenericArgument → Option (List ClosedType)
  | [] => some []
  | arg :: args => do
    let type ← arg.meaning
    let types ← meanings args
    return type :: types

end

/-- A token names the same type where it is spelled and in the assembly that it leads to. -/
def Portable (current token : Nat) : Prop :=
  ∀ id, program.resolveTypeDesc current token = some id →
    program.resolveTypeDesc id.assembly token = some id

mutual

def ArgumentSignature.Portable (current : Nat) : ArgumentSignature → Prop
  | .concreteType _ token => Zaclr.Portable program current token
  | .genericInst _ token args => Zaclr.Portable program current token ∧ PortableAll current args
  | _ => True

def ArgumentSignature.PortableAll (current : Nat) : List ArgumentSignature → Prop
  | [] => True
  | arg :: args => arg.Portable current ∧ PortableAll current args

end

variable {program} {typeArgs methodArgs : List GenericArgument} {types methods : List ClosedType}

theorem meanings_eq_some_iff {args : List GenericArgument} :
    GenericArgument.meanings program args = some types ↔
    List.Forall₂ (fun arg type => arg.meaning program = some type) args types := by
  induction args generalizing types with
  | nil => cases types <;> simp [GenericArgument.meanings]
  | cons arg args ih => cases types <;> simp [GenericArgument.meanings, bind_eq_some_iff, ih]

mutual

theorem decode_isSome (current : Nat) : ∀ arg : ArgumentSignature,
    (decodeInstantiationArgument program current arg).isSome = arg.parses
  | .primitive _ | .concreteType _ _ | .typeVar _ | .methodVar _ | .array _ | .pointer _ => rfl
  | .genericInst _ _ args => by
    simpa [decodeInstantiationArgument, ArgumentSignature.parses] using parse_isSome current args

theorem parse_isSome (current : Nat) : ∀ args : List ArgumentSignature,
    (parseInstantiationArguments program current args).isSome = ArgumentSignature.parsesAll args
  | [] => rfl
  | arg :: args => by
    have first := decode_isSome current arg
    have rest := parse_isSome current args
    simp only [parseInstantiationArguments, ArgumentSignature.parsesAll, ← first, ← rest]
    cases decodeInstantiationArgument program current arg <;>
      cases parseInstantiationArguments program current args <;> rfl

end

section Substitution

variable (current : Nat)
  (typesMean : List.Forall₂ (fun arg type => arg.meaning program = some type) typeArgs types)
  (methodsMean : List.Forall₂ (fun arg type => arg.meaning program = some type) methodArgs methods)

include typesMean methodsMean

/-- The arguments of an instantiation are parsed unless they have arrays or pointers in them; with
those of the context in place they mean the types of the signatures if and only if the tokens are
portable. -/
theorem substitution_keeps_meaning : ∀ (signatures : List ArgumentSignature)
    (closedTypes : List ClosedType),
    ArgumentSignature.closeAll program current types methods signatures = some closedTypes →
    (parseInstantiationArguments program current signatures).isSome =
      ArgumentSignature.parsesAll signatures ∧
    ∀ args, parseInstantiationArguments program current signatures = some args →
      (List.Forall₂ (fun arg type => arg.meaning program = some type)
          (substituteArgumentArray typeArgs methodArgs args) closedTypes ↔
        ArgumentSignature.PortableAll program current signatures)
  | [], closedTypes, closed => by
    cases closed
    refine ⟨rfl, fun args parsed => ?_⟩
    cases parsed
    simp [substituteArgumentArray, ArgumentSignature.PortableAll]
  | signature :: signatures, closedTypes, closed => by
    refine ⟨parse_isSome current _, fun args parsed => ?_⟩
    simp only [ArgumentSignature.closeAll] at closed
    obtain ⟨type, first, closed⟩ := bind_eq_some_iff.mp closed
    obtain ⟨rest, others, closed⟩ := bind_eq_some_iff.mp closed
    cases closed
    simp only [parseInstantiationArguments] at parsed
    obtain ⟨arg, decoded, parsed⟩ := bind_eq_some_iff.mp parsed
    obtain ⟨args, parsedRest, parsed⟩ := bind_eq_some_iff.mp parsed
    cases parsed
    have tail := (substitution_keeps_meaning signatures rest others).2 args parsedRest
    rw [substituteArgumentArray, List.forall₂_cons, tail, ArgumentSignature.PortableAll]
    refine and_congr_left fun _ => ?_
    have same : ∀ token id, program.resolveTypeDesc current token = some id →
        resolveArgumentAssembly program current token = id.assembly ∧
        (program.resolveTypeDesc id.assembly token = some id ↔ Portable program current token) := by
      intro token id resolved
      simp [resolveArgumentAssembly, Portable, resolved]
    cases signature with
    | primitive elementType =>
      cases decoded
      cases first
      simp [substituteArgument, GenericArgument.meaning, ArgumentSignature.Portable]
    | concreteType elementType token =>
      cases decoded
      obtain ⟨id, resolved, rfl⟩ := map_eq_some_iff.mp first
      obtain ⟨assembly, portable⟩ := same token id resolved
      simp [substituteArgument, GenericArgument.meaning, ArgumentSignature.Portable,
        assembly, portable]
    | genericInst elementType token arguments =>
      obtain ⟨inner, parsedInner, rfl⟩ := map_eq_some_iff.mp decoded
      simp only [ArgumentSignature.close] at first
      obtain ⟨id, resolved, first⟩ := bind_eq_some_iff.mp first
      obtain ⟨innerTypes, each, first⟩ := bind_eq_some_iff.mp first
      cases first
      obtain ⟨assembly, portable⟩ := same token id resolved
      have nested := (substitution_keeps_meaning arguments innerTypes each).2 inner parsedInner
      simp [substituteArgument, GenericArgument.meaning, ArgumentSignature.Portable,
        assembly, portable,
        bind_eq_some_iff, meanings_eq_some_iff, nested]
    | typeVar index =>
      cases decoded
      obtain ⟨arg, found, means⟩ := forall₂_getElem? typesMean first
      have some : typeArgs.isEmpty = false := by
        cases typeArgs with
        | nil => simp at found
        | cons => rfl
      simpa [substituteArgument, some, found, ArgumentSignature.Portable] using means
    | methodVar index =>
      cases decoded
      obtain ⟨arg, found, means⟩ := forall₂_getElem? methodsMean first
      simpa [substituteArgument, found, ArgumentSignature.Portable] using means
    | array | pointer => cases decoded

end Substitution

end Arguments

/-- A library with a generic class and a class, and a program that refers to the latter. -/
def libraryProgram : Program where
  assemblies :=
    [{ assemblyName := "Core", types := [⟨⟨"Core", "List"⟩, 0, []⟩, ⟨⟨"Core", "Item"⟩, 0, []⟩]
       typeRefs := [], typeSpecs := [], exportedTypes := [] },
     { assemblyName := "App", types := [⟨⟨"App", "Main"⟩, 0, []⟩]
       typeRefs := [⟨⟨"Core", "Item"⟩, some "Core"⟩], typeSpecs := [], exportedTypes := [] }]

/-- Lists of a type parameter and a class of the assembly keep their meaning, the class of another
assembly does not, and an array is refused. -/
theorem substitution_keeps_meaning_library :
    List.Forall₂ (fun arg type => arg.meaning libraryProgram = some type)
      (substituteArgumentArray [.mk .primitive 8 0 0 0 []] []
        [.mk .genericInst 0x12 (typeDefToken 1) 0 0 [.mk .typeVar 0x13 0 0 0 []],
          .mk .concreteType 0x12 (typeDefToken 2) 0 0 []])
      [.inst ⟨0, 1⟩ [.primitive 8], .type ⟨0, 2⟩] ∧
    ¬ List.Forall₂ (fun arg type => arg.meaning libraryProgram = some type)
      (substituteArgumentArray [] [] [.mk .concreteType 0x12 0x01000001 0 0 []]) [.type ⟨0, 2⟩] ∧
    (parseInstantiationArguments libraryProgram 0 [.array (.primitive 8)]).isSome = false := by
  have portable (row : Nat) (present : (libraryProgram.typeDesc ⟨0, row⟩).isSome) :
      Portable libraryProgram 0 (typeDefToken row) := by
    have resolved := Program.resolveTypeDesc_typeDefToken present
    intro id same
    cases resolved.symm.trans same
    exact resolved
  refine ⟨((substitution_keeps_meaning 0 (.cons rfl .nil) .nil
      [.genericInst 0x12 (typeDefToken 1) [.typeVar 0], .concreteType 0x12 (typeDefToken 2)] _
        rfl).2 _ rfl).mpr ?_,
    fun means => ?_, (substitution_keeps_meaning 0 .nil .nil [.array (.primitive 8)] _ rfl).1⟩
  · exact ⟨⟨portable 1 (by decide), trivial, trivial⟩, portable 2 (by decide), trivial⟩
  · have stays :=
      ((substitution_keeps_meaning 1 .nil .nil [.concreteType 0x12 0x01000001] _ rfl).2 _ rfl).mp
        means
    have refused : libraryProgram.resolveTypeDesc 0 0x01000001 = none := by decide
    cases refused.symm.trans (stays.1 ⟨0, 2⟩ (by decide))

end Zapada.Zaclr
