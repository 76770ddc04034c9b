import Zapada.Zaclr.SignatureDecoding
import Zapada.Foundation.Fallible

namespace Zapada.Zaclr

open Foundation SigType MethodSig List

/-- A part of the grammar: with a type it has the types inside it, and its types are short
enough for a blob. -/
structure Fragment where
  types : Set SigType
  closed : ∀ type ∈ types, ∀ part ∈ type.parts, part ∈ types
  counted : ∀ type ∈ types, type.Counted
  short : ∀ type ∈ types, type.encode.length < 2 ^ 29

namespace SigType

def isModified : SigType → Bool
  | modified _ _ _ => true
  | _ => false

def isGeneric : SigType → Bool
  | generic _ _ _ => true
  | _ => false

/-- A by-ref or pinned prefix right before a generic instantiation. -/
def isPrefixedGeneric : SigType → Bool
  | byRef element | pinned element => element.isGeneric
  | _ => false

/-- Neither a custom modifier nor a prefix of a generic instantiation. -/
def Legible (type : SigType) : Prop := type.isModified = false ∧ type.isPrefixedGeneric = false

end SigType

namespace Fragment

variable (fragment : Fragment)

mutual

theorem scans (plain : ∀ type ∈ fragment.types, type.isModified = false) :
    (type : SigType) → type ∈ fragment.types → type.Scans
  | .primitive kind, _ => scans_primitive kind
  | .named isValue token, _ => scans_named isValue token
  | .typeVar ofMethod index, _ => scans_typeVar ofMethod index
  | .pointer element, member =>
    (scans_wrapped (scans plain element (fragment.closed _ member _ (by simp [parts])))).1
  | .szArray element, member =>
    (scans_wrapped (scans plain element (fragment.closed _ member _ (by simp [parts])))).2
  | .array element rank sizes bounds, member =>
    have counted := fragment.counted _ member
    scans_array (scans plain element (fragment.closed _ member _ (by simp [parts])))
      (by simp only [SigType.Counted] at counted; exact counted.2.1)
      (by simp only [SigType.Counted] at counted; exact counted.2.2)
  | .generic isValue token arguments, member =>
    have counted := fragment.counted _ member
    scans_generic (scansAll plain arguments (fragment.closed _ member))
      (by simp only [SigType.Counted] at counted; exact counted.1)
  | .byRef element, member =>
    scans_byRef (scans plain element (fragment.closed _ member _ (by simp [parts])))
  | .pinned element, member =>
    scans_pinned (scans plain element (fragment.closed _ member _ (by simp [parts])))
  | .modified _ _ _, member => nomatch plain _ member

theorem scansAll (plain : ∀ type ∈ fragment.types, type.isModified = false) :
    (types : List SigType) → (∀ type ∈ types, type ∈ fragment.types) → ∀ type ∈ types, type.Scans
  | [], _, _, absent => nomatch absent
  | first :: rest, members, type, present => by
    cases present with
    | head => exact scans plain first (members first (by simp))
    | tail _ later =>
      exact scansAll plain rest (fun other member => members other (by simp [member])) type later

end

/-- The flags of all prefixes are reported when none stands before a generic instantiation. -/
theorem read_eq (legible : ∀ type ∈ fragment.types, type.Legible) :
    (type : SigType) → type ∈ fragment.types → (flags : Nat) → type.isGeneric = false →
      type.read flags = { type.report with flags := flags ||| type.report.flags }
  | .primitive _, _, _, _ | .named _ _, _, _, _ | .typeVar _ _, _, _, _ => by
    simp [SigType.read, report]
  | .pointer _, _, _, _ | .szArray _, _, _, _ | .array _ _ _ _, _, _, _ => by
    simp [SigType.read, report]
  | .generic _ _ _, _, _, isGeneric => nomatch isGeneric
  | .byRef element, member, flags, _ => by
    have inside : element ∈ fragment.types := fragment.closed _ member _ (by simp [parts])
    have inner := read_eq legible element inside (flags ||| flagByref) (legible _ member).2
    simp only [SigType.read, report, inner, Nat.or_assoc, Nat.or_comm flagByref]
  | .pinned element, member, flags, _ => by
    have inside : element ∈ fragment.types := fragment.closed _ member _ (by simp [parts])
    have inner := read_eq legible element inside (flags ||| flagPinned) (legible _ member).2
    simp only [SigType.read, report, inner, Nat.or_assoc, Nat.or_comm flagPinned]
  | .modified _ _ _, member, _, _ => nomatch (legible _ member).1

theorem read_report (legible : ∀ type ∈ fragment.types, type.Legible)
    (member : type ∈ fragment.types) :
    type.read 0 = type.report := by
  cases isGeneric : type.isGeneric with
  | false => simpa using fragment.read_eq legible type member 0 isGeneric
  | true =>
    cases type with
    | generic => rfl
    | _ => nomatch isGeneric

end Fragment

theorem parseMethodWith_ok (parsed : parseMethodWith decode blob = .ok desc) :
    ∃ genericCount offset parameterCount next,
      readGenericParameterCount blob (blob.getD 0 0) 1 = .ok (genericCount, offset) ∧
      decodeCompressedUint blob offset = .ok (parameterCount, next) ∧
      decode blob next = .ok (desc.returnType, desc.parameterTypesOffset) ∧ desc.blob = blob ∧
      desc.parameterCount = parameterCount % 2 ^ 16 := by
  unfold parseMethodWith at parsed
  split at parsed
  · cases parsed
  · obtain ⟨⟨genericCount, offset⟩, generics, parsed⟩ := bind_eq_ok parsed
    obtain ⟨⟨parameterCount, next⟩, parameters, parsed⟩ := bind_eq_ok parsed
    obtain ⟨⟨returnType, typesOffset⟩, decoded, parsed⟩ := bind_eq_ok parsed
    obtain ⟨last, -, parsed⟩ := bind_eq_ok parsed
    cases parsed
    exact ⟨genericCount, offset, parameterCount, next, generics, parameters, decoded, rfl, rfl⟩

namespace MethodSig

variable {signature : MethodSig}

theorem spelled_header (signature : MethodSig) : Spelled signature.encode 0 signature.header :=
  spelled_self [] signature.header _

theorem spelled_types (signature : MethodSig) : Spelled signature.encode signature.header.length
    (signature.returnType.encode ++ encodeAll signature.parameters) := by
  simpa [encode] using spelled_self signature.header
    (signature.returnType.encode ++ encodeAll signature.parameters) []

theorem genericCount_read (small : signature.encode.length < 2 ^ 32)
    (spelled : Spelled signature.encode 1 signature.genericBytes) :
    ∃ count, readGenericParameterCount signature.encode signature.callingConvention 1 =
      .ok (count, 1 + signature.genericBytes.length) := by
  unfold genericBytes at spelled ⊢
  unfold readGenericParameterCount
  split at spelled
  · rename_i isGeneric
    rw [if_pos isGeneric, if_pos isGeneric]
    exact ⟨_, decodeCompressedUint_spell small signature.genericParameterCount.isNumber spelled⟩
  · rename_i notGeneric
    rw [if_neg notGeneric, if_neg notGeneric]
    exact ⟨0, rfl⟩

theorem header_read (wellFormed : signature.WellFormed) : ∃ genericCount offset,
      readGenericParameterCount signature.encode (signature.encode.getD 0 0) 1 =
        .ok (genericCount, offset) ∧
      decodeCompressedUint signature.encode offset =
        .ok (signature.parameters.length, signature.header.length) := by
  have small := wellFormed.size_lt
  have count_lt := wellFormed.count_lt
  have count : signature.parameters.length < 2 ^ 29 := by omega
  have spelled := signature.spelled_header
  have first := spelled.getD
  obtain ⟨-, rest⟩ := spelled
  rw [spelled_append] at rest
  obtain ⟨genericCount, generics⟩ := genericCount_read small rest.1
  have parameters := decodeCompressedUint_spell small (encodeCount_isNumber count) rest.2
  refine ⟨genericCount, _, first ▸ generics, parameters.trans ?_⟩
  simp only [header, length_cons, length_append]
  congr 2
  omega

/-- A signature whose types all scan is parsed, and the types start where they are encoded. -/
theorem parsed_of_scans (wellFormed : signature.WellFormed) (result : signature.returnType.Scans)
    (parameters : ∀ type ∈ signature.parameters, type.Scans) (deep : signature.depth < room) :
    ∃ desc, parseMethod room signature.encode = .ok desc ∧ desc.blob = signature.encode ∧
      desc.parameterCount = signature.parameters.length ∧
        desc.returnType = signature.returnType.read 0 ∧
      desc.parameterTypesOffset = signature.header.length + signature.returnType.encode.length := by
  have small := wellFormed.size_lt
  have count_lt := wellFormed.count_lt
  have spelled := spelled_append.mp signature.spelled_types
  obtain ⟨genericCount, offset, generics, count⟩ := header_read wellFormed
  have returned := result.decode small spelled.1 (Nat.lt_of_le_of_lt (Nat.le_max_left _ _) deep)
  have rest := skipSignatureTypes_encodeAll parameters small spelled.2 (fun type member =>
    Nat.lt_of_le_of_lt (Nat.le_trans (depth_le_depthAll member) (Nat.le_max_right _ _)) deep)
  have some_bytes : signature.encode.length ≠ 0 := by simp [encode, header]
  rw [parseMethod, parseMethodWith, if_neg some_bytes]
  simp only [bind, Except.bind, pure, Except.pure, generics, count, returned,
    Nat.mod_eq_of_lt count_lt, rest]
  exact ⟨_, rfl, rfl, rfl, rfl, rfl⟩

theorem encodeAll_append (first second : List SigType) :
    encodeAll (first ++ second) = encodeAll first ++ encodeAll second := by
  induction first with
  | nil => rfl
  | cons type types ih => simp [encodeAll, ih]

theorem parameter_of_scans (wellFormed : signature.WellFormed)
    (parameters : ∀ type ∈ signature.parameters, type.Scans) (deep : signature.depth < room)
    (blob : desc.blob = signature.encode)
    (count : desc.parameterCount = signature.parameters.length)
    (start : desc.parameterTypesOffset = signature.header.length +
      signature.returnType.encode.length)
    (present : signature.parameters[index]? = some type) :
    parameterOffset room desc index = .ok (signature.offsetOf index) ∧
      readMethodParameter room desc index = .ok (type.read 0) := by
  obtain ⟨inside, found⟩ := List.getElem?_eq_some_iff.mp present
  have split : signature.parameters = signature.parameters.take index ++
      (type :: signature.parameters.drop (index + 1)) := by
    rw [← found, ← drop_eq_getElem_cons, take_append_drop]
  have spelled := (spelled_append.mp signature.spelled_types).2
  rw [split, encodeAll_append, encodeAll, spelled_append, spelled_append, ← start] at spelled
  have member : type ∈ signature.parameters := mem_of_getElem? present
  have lower : ∀ other ∈ signature.parameters, other.depth < room := fun other one =>
    Nat.lt_of_le_of_lt (Nat.le_trans (depth_le_depthAll one) (Nat.le_max_right _ _)) deep
  have skipped := skipSignatureTypes_encodeAll
    (fun other one => parameters other (mem_of_mem_take one)) wellFormed.size_lt spelled.1
    (fun other one => lower other (mem_of_mem_take one))
  rw [length_take_of_le (Nat.le_of_lt inside)] at skipped
  have decoded := (parameters type member).decode wellFormed.size_lt spelled.2.1 (lower type member)
  have place : parameterOffset room desc index = .ok (signature.offsetOf index) := by
    rw [parameterOffset, if_neg (by omega), blob, skipped, start, offsetOf]
  refine ⟨place, ?_⟩
  rw [readMethodParameter, place, offsetOf, ← start]
  simp only [bind, Except.bind, blob, decoded]
  rfl

/-- All types of the signature are of the fragment. -/
def Over (fragment : Fragment) (signature : MethodSig) : Prop :=
  signature.returnType ∈ fragment.types ∧ ∀ type ∈ signature.parameters, type ∈ fragment.types

/-- A method that takes a type and returns it. -/
def identity (type : SigType) : MethodSig := ⟨0, 0, type, [type]⟩

theorem identity_header (type : SigType) : (identity type).header = [0, 1] := by
  have generics : (identity type).genericBytes = [] := if_neg (by simp [identity])
  have count : encodeCount 1 = [1] := by decide
  simp only [header, generics, nil_append]
  exact congrArg (cons 0) count

theorem identity_wellFormed {fragment : Fragment} (member : type ∈ fragment.types) :
    (identity type).WellFormed where
  returnType := fragment.counted type member
  parameters := ⟨fragment.counted type member, trivial⟩
  count_lt := by simp [identity]
  size_lt := by
    have short := fragment.short type member
    rw [encode, identity_header]
    simp only [identity, encodeAll, length_append, length_cons, length_nil]
    omega

end MethodSig

/-- The decoder takes a custom modifier for a whole type of one byte. -/
theorem decode_modified (small : blob.length < 2 ^ 32)
    (spelled : Spelled blob offset (modified required token element).encode) (deep : 0 < room) :
    ∃ type, decodeSignatureType room blob offset = .ok (type, offset + 1) := by
  have inside := spelled.fits
  cases room with
  | zero => cases deep
  | succ room =>
    rw [decodeSignatureType, if_neg (by omega), spelled.getD, advance_eq small (by omega)]
    obtain ⟨left, some_bytes⟩ :=
      Nat.exists_eq_add_of_lt (Nat.lt_of_lt_of_le (Nat.succ_pos _) inside)
    rw [some_bytes]
    cases required <;> exact ⟨_, rfl⟩

namespace MethodSig

/-- After a modified return type the parameter is looked for too early. -/
theorem identity_modified (wellFormed : (identity (.modified required token element)).WellFormed) :
    ¬ (identity (.modified required token element)).Decoded := by
  intro decoded
  obtain ⟨desc, parsed, parameters, -, read⟩ := decoded _ (Nat.lt_succ_self _)
  obtain ⟨_, offset, _, next, generics, count, returned, -, -⟩ := parseMethodWith_ok parsed
  obtain ⟨_, offset', generics', count'⟩ := header_read wellFormed
  obtain ⟨-, rfl⟩ := Prod.mk.inj (Except.ok.inj (generics'.symm.trans generics))
  obtain ⟨-, rfl⟩ := Prod.mk.inj (Except.ok.inj (count'.symm.trans count))
  have spelled :=
    (spelled_append.mp (spelled_types (identity (.modified required token element)))).1
  obtain ⟨type, taken⟩ := decode_modified wellFormed.size_lt spelled (Nat.succ_pos _)
  have start := (Prod.mk.inj (Except.ok.inj (returned.symm.trans taken))).2
  have place := (read 0 _ rfl).1
  rw [parameterOffset, if_neg (by simp [parameters, identity]), skipSignatureTypes, start] at place
  have same := Except.ok.inj place
  simp only [offsetOf, identity, SigType.encode, take_zero, encodeAll, length_cons,
    length_append, length_nil] at same
  obtain ⟨byte, bytes, form⟩ := element.encode_ne_nil
  rw [form, length_cons] at same
  omega

theorem prefixed_flags {type : SigType} (hidden : type.isPrefixedGeneric) :
    (type.read 0).flags = 0 ∧ 0 < type.report.flags := by
  cases type with
  | byRef element =>
    cases element with
    | generic => exact ⟨rfl, (by decide : 0 < 0 ||| flagByref)⟩
    | _ => cases hidden
  | pinned element =>
    cases element with
    | generic => exact ⟨rfl, (by decide : 0 < 0 ||| flagPinned)⟩
    | _ => cases hidden
  | _ => cases hidden

theorem identity_prefixed {fragment : Fragment} (member : type ∈ fragment.types)
    (plain : ∀ type ∈ fragment.types, type.isModified = false) (hidden : type.isPrefixedGeneric) :
    ¬ (identity type).Decoded := by
  intro decoded
  have wellFormed := identity_wellFormed member
  have result := fragment.scans plain type member
  have parameters : ∀ other ∈ (identity type).parameters, other.Scans := by
    intro other one
    rw [mem_singleton.mp one]
    exact result
  obtain ⟨desc, parsed, count, -, read⟩ := decoded _ (Nat.lt_succ_self _)
  obtain ⟨desc', parsed', blob, -, -, start⟩ :=
    parsed_of_scans wellFormed result parameters (Nat.lt_succ_self _)
  cases Except.ok.inj (parsed.symm.trans parsed')
  have reported := (read 0 type rfl).2
  have given := (parameter_of_scans wellFormed parameters (Nat.lt_succ_self _) blob count start
    (show (identity type).parameters[0]? = some type from rfl)).2
  have flags := congrArg SignatureType.flags (Except.ok.inj (reported.symm.trans given))
  have bit := prefixed_flags hidden
  omega

end MethodSig

namespace Fragment

variable (fragment : Fragment)

theorem decoded_of_legible (legible : ∀ type ∈ fragment.types, type.Legible) {signature : MethodSig}
    (wellFormed : signature.WellFormed) (within : signature.Over fragment) : signature.Decoded := by
  intro room deep
  have plain : ∀ type ∈ fragment.types, type.isModified = false := fun type member =>
    (legible type member).1
  have parameters := fragment.scansAll plain signature.parameters within.2
  obtain ⟨desc, parsed, blob, count, result, start⟩ :=
    parsed_of_scans wellFormed (fragment.scans plain _ within.1) parameters deep
  rw [fragment.read_report legible within.1] at result
  refine ⟨desc, parsed, count, result, ?_⟩
  intro index type present
  have read := parameter_of_scans wellFormed parameters deep blob count start present
  rwa [fragment.read_report legible (within.2 type (mem_of_getElem? present))] at read

/-- The signatures over a part of the grammar are all decoded exactly when it has no
custom modifiers and no by-ref or pinned generic instantiations. -/
theorem decoded_iff : (∀ signature : MethodSig, signature.WellFormed → signature.Over fragment →
    signature.Decoded) ↔ ∀ type ∈ fragment.types, type.Legible := by
  constructor
  · intro decoded
    have identity : ∀ type ∈ fragment.types, (identity type).Decoded := fun type member =>
      decoded _ (identity_wellFormed member)
        ⟨member, fun other one => by rwa [mem_singleton.mp one]⟩
    have plain : ∀ type ∈ fragment.types, type.isModified = false := by
      intro type member
      cases type with
      | modified =>
        exact absurd (identity _ member) (identity_modified (identity_wellFormed member))
      | _ => rfl
    intro type member
    refine ⟨plain type member, ?_⟩
    by_contra hidden
    rw [Bool.not_eq_false] at hidden
    exact identity_prefixed member plain hidden (identity type member)
  · exact fun legible signature wellFormed within =>
      fragment.decoded_of_legible legible wellFormed within

def ints : Fragment where
  types := { type | type = .primitive .i4 ∨ type = .byRef (.primitive .i4) ∨
    type = .generic false ⟨.typeref, 1⟩ [.primitive .i4] }
  closed := by
    rintro type (rfl | rfl | rfl) part inside <;> simp_all [parts]
  counted := by
    rintro type (rfl | rfl | rfl)
    · trivial
    · trivial
    · exact ⟨by decide, trivial, trivial⟩
  short := by rintro type (rfl | rfl | rfl) <;> decide

theorem decoded_ints : ∀ signature : MethodSig, signature.WellFormed → signature.Over ints →
      signature.Decoded := by
  apply (decoded_iff ints).mpr
  rintro type (rfl | rfl | rfl) <;> exact ⟨rfl, rfl⟩

end Fragment

namespace MethodSig

theorem Decoded.reads {signature : MethodSig} (decoded : signature.Decoded)
    (deep : signature.depth < room) (present : signature.parameters[index]? = some type) :
    (parseMethod room signature.encode).toOption.bind (fun desc =>
      (readMethodParameter room desc index).toOption) = some type.report := by
  obtain ⟨desc, parsed, -, -, read⟩ := decoded room deep
  rw [parsed, Except.toOption, Option.bind_some, (read index type present).2]
  rfl

def refList : MethodSig :=
  ⟨0, 0, .primitive .void, [.byRef (.generic false ⟨.typeref, 1⟩ [.primitive .i4])]⟩

def modifiedInt : MethodSig :=
  ⟨0, 0, .primitive .void, [.modified false ⟨.typeref, 1⟩ (.primitive .i4)]⟩

/-- The by-ref flag of the one and the type behind the modifier of the other are lost. -/
theorem not_decoded_samples : (refList.WellFormed ∧ ¬ refList.Decoded) ∧
    (modifiedInt.WellFormed ∧ ¬ modifiedInt.Decoded) := by
  refine ⟨⟨⟨?_, ?_, ?_, ?_⟩, fun decoded => ?_⟩, ⟨?_, ?_, ?_, ?_⟩, fun decoded => ?_⟩
  · trivial
  · exact ⟨⟨by decide, trivial, trivial⟩, trivial⟩
  · decide
  · decide
  · have reads := decoded.reads (show refList.depth < 2 by decide)
      (show refList.parameters[0]? = some _ from rfl)
    revert reads
    decide
  · trivial
  · exact ⟨trivial, trivial⟩
  · decide
  · decide
  · have reads := decoded.reads (show modifiedInt.depth < 2 by decide)
      (show modifiedInt.parameters[0]? = some _ from rfl)
    revert reads
    decide

end MethodSig

end Zapada.Zaclr
