import Zapada.Zaclr.Signatures

namespace Zapada.Zaclr

open ElementType

/-- The bytes stand in the blob from an offset on. -/
def Spelled (blob : Blob) : (offset : Nat) → List UInt8 → Prop
  | _, [] => True
  | offset, byte :: bytes => blob[offset]? = some byte ∧ Spelled blob (offset + 1) bytes

section Spelling

variable {blob : Blob}

theorem spelled_append : Spelled blob offset (first ++ second) ↔
      Spelled blob offset first ∧ Spelled blob (offset + first.length) second := by
  induction first generalizing offset with
  | nil => simp [Spelled]
  | cons byte bytes ih =>
    simp only [List.cons_append, Spelled, ih, List.length_cons, and_assoc]
    rw [show offset + 1 + bytes.length = offset + (bytes.length + 1) by omega]

theorem Spelled.fits (spelled : Spelled blob offset (byte :: bytes)) :
    offset + (bytes.length + 1) ≤ blob.length := by
  induction bytes generalizing offset byte with
  | nil =>
    obtain ⟨inside, -⟩ := List.getElem?_eq_some_iff.mp spelled.1
    exact inside
  | cons next bytes ih =>
    have rest := ih spelled.2
    simp only [List.length_cons]
    omega

theorem spelled_self (before bytes after : List UInt8) :
    Spelled (before ++ (bytes ++ after)) before.length bytes := by
  induction bytes generalizing before with
  | nil => trivial
  | cons byte bytes ih =>
    constructor
    · simp
    · simpa using ih (before ++ [byte])

theorem Spelled.getD (spelled : Spelled blob offset (byte :: bytes)) :
    blob.getD offset 0 = byte := by
  rw [List.getD_eq_getElem?_getD, spelled.1, Option.getD_some]

theorem advance_eq (small : blob.length < 2 ^ 32) (inside : offset + count ≤ blob.length) :
    advance offset count = offset + count := Nat.mod_eq_of_lt (by omega)

end Spelling

/-- The bytes are a form of a compressed number. -/
def IsNumber (value : Nat) (bytes : List UInt8) : Prop :=
  ∃ width : Width, value < 2 ^ width.bits ∧ bytes = width.spell value

theorem Width.spell_ne_nil (width : Width) (value : Nat) :
    ∃ byte bytes, width.spell value = byte :: bytes := by
  cases width <;> exact ⟨_, _, rfl⟩

theorem one_form : ∀ high < 128, high &&& 0x80 = 0 := by decide

theorem two_form : ∀ high < 64, (0x80 + high) &&& 0x80 ≠ 0 ∧ (0x80 + high) &&& 0xC0 = 0x80 ∧
    (0x80 + high) &&& 0x3F = high := by decide

theorem four_form : ∀ high < 32, (0xC0 + high) &&& 0x80 ≠ 0 ∧ (0xC0 + high) &&& 0xC0 ≠ 0x80 ∧
    (0xC0 + high) &&& 0xE0 = 0xC0 ∧ (0xC0 + high) &&& 0x1F = high := by decide

theorem shiftLeft_or (high low bits : Nat) (small : low < 2 ^ bits) :
    high <<< bits ||| low = high * 2 ^ bits + low := by
  rw [← Nat.shiftLeft_add_eq_or_of_lt small, Nat.shiftLeft_eq]

theorem four_bytes (top high middle low : Nat) (high_lt : high < 2 ^ 8) (middle_lt : middle < 2 ^ 8)
    (low_lt : low < 2 ^ 8) : top <<< 24 ||| high <<< 16 ||| middle <<< 8 ||| low =
      ((top * 2 ^ 8 + high) * 2 ^ 8 + middle) * 2 ^ 8 + low := by
  rw [← shiftLeft_or top high 8 high_lt, ← shiftLeft_or _ middle 8 middle_lt,
    ← shiftLeft_or _ low 8 low_lt]
  simp [Nat.shiftLeft_or_distrib, ← Nat.shiftLeft_add]

theorem toNat_ofNat_of_lt (small : value < 256) : (UInt8.ofNat value).toNat = value := by
  simpa using Nat.mod_eq_of_lt small

theorem decodeCompressedUint_spell (small : blob.length < 2 ^ 32)
    (number : IsNumber value bytes) (spelled : Spelled blob offset bytes) :
    decodeCompressedUint blob offset = .ok (value, offset + bytes.length) := by
  obtain ⟨width, bound, rfl⟩ := number
  obtain ⟨byte, rest, form⟩ := width.spell_ne_nil value
  have inside := (form ▸ spelled : Spelled blob offset (byte :: rest)).fits
  unfold decodeCompressedUint
  rw [if_neg (by omega)]
  cases width with
  | one =>
    simp only [Width.bits] at bound
    rw [spelled.getD, toNat_ofNat_of_lt (by omega), if_pos (one_form value bound)]
    rw [advance_eq small (by omega)]
    rfl
  | two =>
    simp only [Width.bits] at bound
    obtain ⟨-, rfl⟩ := form
    simp only [Width.spell] at spelled ⊢
    have high : value / 2 ^ 8 < 64 := by omega
    obtain ⟨notOne, isTwo, payload⟩ := two_form _ high
    simp only [List.length_cons, List.length_nil] at inside
    have second := spelled.2.getD
    rw [spelled.getD, toNat_ofNat_of_lt (by omega), if_neg notOne, if_pos isTwo, payload,
      advance_eq small (by omega), if_neg (by omega), advance_eq small (by omega), second]
    have low : (UInt8.ofNat value).toNat = value % 2 ^ 8 := by simp
    rw [low, shiftLeft_or _ _ _ (Nat.mod_lt _ (by decide)), Nat.div_add_mod']
    rfl
  | four =>
    simp only [Width.bits] at bound
    obtain ⟨-, rfl⟩ := form
    simp only [Width.spell] at spelled ⊢
    have high : value / 2 ^ 24 < 32 := by omega
    obtain ⟨notOne, notTwo, isFour, payload⟩ := four_form _ high
    simp only [List.length_cons, List.length_nil] at inside
    have second := spelled.2.getD
    have third := spelled.2.2.getD
    have fourth := spelled.2.2.2.getD
    rw [spelled.getD, toNat_ofNat_of_lt (by omega), if_neg notOne, if_neg notTwo,
      if_pos isFour, payload,
      advance_eq small (by omega), if_neg (by omega), advance_eq small (by omega),
      advance_eq small (by omega), advance_eq small (by omega), second, third, fourth]
    have byte : ∀ part, (UInt8.ofNat part).toNat = part % 2 ^ 8 := by simp
    rw [byte, byte, byte, four_bytes _ _ _ _ (by omega) (by omega) (by omega)]
    have split :
        ((value / 2 ^ 24 * 2 ^ 8 + value / 2 ^ 16 % 2 ^ 8) * 2 ^ 8 + value / 2 ^ 8 % 2 ^ 8) * 2 ^
          8 +
        value % 2 ^ 8 = value := by omega
    rw [split]
    rfl

theorem Compressible.isNumber (value : Compressible) : IsNumber value.val value.encode := by
  refine ⟨value.width, ?_, rfl⟩
  have bound := value.isLt
  unfold Compressible.width
  split_ifs with one two
  · exact one
  · exact two
  · exact bound

theorem LowerBound.rotated_lt (bound : LowerBound) : bound.rotated < 2 ^ bound.width.bits := by
  unfold LowerBound.rotated
  generalize bound.width = width
  cases width <;> simp only [Width.bits] <;> omega

theorem LowerBound.isNumber (bound : LowerBound) : IsNumber bound.rotated bound.encode :=
  ⟨bound.width, bound.rotated_lt, rfl⟩

theorem encodeCount_isNumber (small : count < 2 ^ 29) : IsNumber count (encodeCount count) := by
  have number := Compressible.isNumber (Fin.ofNat (2 ^ 29) count)
  rwa [Fin.val_ofNat, Nat.mod_eq_of_lt small] at number

theorem skipCompressedUints_flatMap (small : blob.length < 2 ^ 32)
    {encode : α → List UInt8} (numbers : ∀ item, ∃ value, IsNumber value (encode item))
    {items : List α}
    (spelled : Spelled blob offset (items.flatMap encode)) :
    skipCompressedUints blob items.length offset =
      .ok (offset + (items.flatMap encode).length) := by
  induction items generalizing offset with
  | nil => rfl
  | cons item items ih =>
    rw [List.flatMap_cons, spelled_append] at spelled
    obtain ⟨value, number⟩ := numbers item
    simp only [List.length_cons, skipCompressedUints,
      decodeCompressedUint_spell small number spelled.1]
    have rest := ih spelled.2
    rw [List.flatMap_cons, List.length_append, ← Nat.add_assoc]
    exact rest

theorem typeTokenOf_coded (token : TypeToken) : typeTokenOf token.coded.val = token.raw := by
  have row := token.row.isLt
  have tag : token.tag < 2 ^ 2 := by unfold TypeToken.tag; split <;> decide
  have low : token.coded.val &&& 0x3 = token.tag := by
    have mask := Nat.and_two_pow_sub_one_eq_mod token.coded.val 2
    have value : token.coded.val % 2 ^ 2 = token.tag := by
      simp only [TypeToken.coded]
      omega
    rw [← value, ← mask]
  have high : token.coded.val >>> 2 = token.row.val := by
    simp only [TypeToken.coded, Nat.shiftRight_eq_div_pow]
    omega
  simp only [typeTokenOf, low, high]
  rw [shiftLeft_or _ _ _ row, TypeToken.raw]
  unfold TypeToken.tag
  split <;> rfl

namespace SigType

/-- What the decoder reports of a type behind prefixes that have set `flags`. -/
def read : SigType → (flags : Nat) → SignatureType
  | byRef element, flags => element.read (flags ||| flagByref)
  | pinned element, flags => element.read (flags ||| flagPinned)
  | generic isValue token arguments, _ => (generic isValue token arguments).report
  | type, flags => { type.report with flags := flags }

/-- The decoder, from the loop over the prefixes on, reads the type and stops behind it. -/
def Scans (type : SigType) : Prop :=
  ∀ (blob : Blob) (offset room left flags : Nat), blob.length < 2 ^ 32 →
    Spelled blob offset type.encode → type.depth ≤ room → type.encode.length ≤ left →
    (readModifiers blob left (blob.getD offset 0) flags (offset + 1) >>= fun (elementType,
      flags, offset) =>
        decodeElement (decodeSignatureType room) blob elementType flags offset) =
      .ok (type.read flags, offset + type.encode.length)

theorem encode_ne_nil (type : SigType) : ∃ byte bytes, type.encode = byte :: bytes := by
  cases type <;> exact ⟨_, _, rfl⟩

theorem Scans.decode {type : SigType} (scans : type.Scans) (small : blob.length < 2 ^ 32)
    (spelled : Spelled blob offset type.encode) (deep : type.depth < room) :
    decodeSignatureType room blob offset = .ok (type.read 0, offset + type.encode.length) := by
  obtain ⟨byte, bytes, form⟩ := type.encode_ne_nil
  have inside := (form ▸ spelled : Spelled blob offset (byte :: bytes)).fits
  cases room with
  | zero => omega
  | succ room =>
    rw [decodeSignatureType, if_neg (by omega), advance_eq small (by omega)]
    refine scans blob offset room blob.length 0 small spelled (by omega) ?_
    rw [form, List.length_cons]
    omega

theorem Scans.skip {type : SigType} (scans : type.Scans) (small : blob.length < 2 ^ 32)
    (spelled : Spelled blob offset type.encode) (deep : type.depth < room) :
    skipSignatureType (decodeSignatureType room) blob offset =
      .ok (offset + type.encode.length) := by
  rw [skipSignatureType, scans.decode small spelled deep]
  rfl

theorem depth_le_depthAll (member : type ∈ types) : type.depth ≤ depthAll types := by
  induction types with
  | nil => cases member
  | cons head rest ih =>
    cases member with
    | head => exact Nat.le_max_left _ _
    | tail _ later => exact Nat.le_trans (ih later) (Nat.le_max_right _ _)

theorem skipSignatureTypes_encodeAll {types : List SigType} (scans : ∀ type ∈ types, type.Scans)
    (small : blob.length < 2 ^ 32) (spelled : Spelled blob offset (encodeAll types))
    (deep : ∀ type ∈ types, type.depth < room) :
    skipSignatureTypes (decodeSignatureType room) blob types.length offset =
      .ok (offset + (encodeAll types).length) := by
  induction types generalizing offset with
  | nil => rfl
  | cons type types ih =>
    rw [encodeAll, spelled_append] at spelled
    have first := (scans type (by simp)).skip small spelled.1 (deep type (by simp))
    have rest := ih (fun other member => scans other (by simp [member])) spelled.2
      (fun other member => deep other (by simp [member]))
    simp only [List.length_cons, skipSignatureTypes, first]
    rw [encodeAll, List.length_append, ← Nat.add_assoc]
    exact rest

/-- A type that starts with no prefix scans if the `switch` reads it. -/
theorem scans_of_element {type : SigType} (form : type.encode = code :: rest)
    (plain : ¬ (code = byref ∨ code = ElementType.pinned))
    (element : ∀ (blob : Blob) (offset room flags : Nat), blob.length < 2 ^ 32 →
      Spelled blob offset rest → type.depth ≤ room →
        decodeElement (decodeSignatureType room) blob code flags offset =
        .ok (type.read flags, offset + rest.length)) : type.Scans := by
  intro blob offset room left flags small spelled deep enough
  rw [form] at spelled enough ⊢
  cases left with
  | zero => simp at enough
  | succ left =>
    rw [spelled.getD, readModifiers, if_neg plain, List.length_cons, Nat.add_comm rest.length,
      ← Nat.add_assoc]
    exact element blob (offset + 1) room flags small spelled.2 deep

theorem scans_of_prefixed {type inner : SigType} (scans : inner.Scans)
    (form : type.encode = code :: inner.encode)
    (marked : code = byref ∨ code = ElementType.pinned) (deeper : type.depth = inner.depth)
    (same : ∀ flags, type.read flags =
      inner.read (flags ||| if code = byref then flagByref else flagPinned)) : type.Scans := by
  intro blob offset room left flags small spelled deep enough
  rw [form] at spelled enough ⊢
  have inside := spelled.fits
  obtain ⟨byte, bytes, some_bytes⟩ := inner.encode_ne_nil
  have positive : 0 < inner.encode.length := by simp [some_bytes]
  cases left with
  | zero => simp at enough
  | succ left =>
    have rest := scans blob (offset + 1) room left
      (flags ||| if code = byref then flagByref else flagPinned) small spelled.2
      (deeper ▸ deep) (by simpa using enough)
    rw [spelled.getD, readModifiers, if_pos marked, if_neg (by omega),
      advance_eq small (by omega), rest,
      same, List.length_cons, Nat.add_comm inner.encode.length, ← Nat.add_assoc]

theorem scans_primitive (kind : Primitive) : (primitive kind).Scans := by
  apply scans_of_element (show (primitive kind).encode = kind.code :: [] from rfl)
  · cases kind <;> decide
  · intro blob offset room flags _ _ _
    cases kind <;> rfl

theorem scans_named (isValue : Bool) (token : TypeToken) : (named isValue token).Scans := by
  apply scans_of_element rfl
  · cases isValue <;> decide
  · intro blob offset room flags small spelled _
    have number := decodeCompressedUint_spell small token.coded.isNumber spelled
    have branch : namedCode isValue = class' ∨ namedCode isValue = valuetype := by
      cases isValue <;> decide
    rw [decodeElement, if_pos branch, number]
    simp only [bind, Except.bind, pure, Except.pure, typeTokenOf_coded]
    rfl

theorem scans_typeVar (ofMethod : Bool) (index : Compressible) :
    (typeVar ofMethod index).Scans := by
  apply scans_of_element rfl
  · cases ofMethod <;> decide
  · intro blob offset room flags small spelled _
    have number := decodeCompressedUint_spell small index.isNumber spelled
    have other : ¬ (variableCode ofMethod = class' ∨ variableCode ofMethod = valuetype) := by
      cases ofMethod <;> decide
    have branch : variableCode ofMethod = var ∨ variableCode ofMethod = mvar := by
      cases ofMethod <;> decide
    rw [decodeElement, if_neg other, if_pos branch, number]
    rfl

theorem scans_wrapped (scans : element.Scans) :
    (pointer element).Scans ∧ (szArray element).Scans := by
  constructor <;>
  · apply scans_of_element rfl (by decide)
    intro blob offset room flags small spelled deep
    have inner := scans.skip small spelled (Nat.lt_of_succ_le deep)
    rw [decodeElement, if_neg (by decide), if_neg (by decide), if_pos (by decide), inner]
    rfl

theorem skipArrayShape_spell {blob : Blob} (small : blob.length < 2 ^ 32)
    (sizes_lt : sizes.length < 2 ^ 29) (bounds_lt : bounds.length < 2 ^ 29)
    (spelled : Spelled blob offset (encodeShape rank sizes bounds)) :
    skipArrayShape blob offset = .ok (offset + (encodeShape rank sizes bounds).length) := by
  simp only [encodeShape, spelled_append] at spelled
  obtain ⟨rankAt, sizeCountAt, sizesAt, boundCountAt, boundsAt⟩ := spelled
  have rankRead := decodeCompressedUint_spell small rank.isNumber rankAt
  have sizeCount := decodeCompressedUint_spell small (encodeCount_isNumber sizes_lt) sizeCountAt
  have sizesRead :=
    skipCompressedUints_flatMap small (fun size => ⟨_, Compressible.isNumber size⟩) sizesAt
  have boundCount := decodeCompressedUint_spell small (encodeCount_isNumber bounds_lt) boundCountAt
  have boundsRead :=
    skipCompressedUints_flatMap small (fun bound => ⟨_, LowerBound.isNumber bound⟩) boundsAt
  simp only [skipArrayShape, bind, Except.bind, rankRead, sizeCount, sizesRead,
    boundCount, boundsRead]
  simp [encodeShape, Nat.add_assoc]

theorem scans_array (scans : element.Scans) (sizes_lt : sizes.length < 2 ^ 29)
    (bounds_lt : bounds.length < 2 ^ 29) : (array element rank sizes bounds).Scans := by
  apply scans_of_element rfl (by decide)
  intro blob offset room flags small spelled deep
  rw [spelled_append] at spelled
  have inner := scans.skip small spelled.1 (Nat.lt_of_succ_le deep)
  have shape := skipArrayShape_spell small sizes_lt bounds_lt spelled.2
  rw [decodeElement, if_neg (by decide), if_neg (by decide), if_neg (by decide), if_pos (by decide)]
  simp only [bind, Except.bind, inner, shape]
  rw [List.length_append, ← Nat.add_assoc]
  rfl

theorem scans_generic (scans : ∀ argument ∈ arguments, argument.Scans)
    (arguments_lt : arguments.length < 2 ^ 29) : (generic isValue token arguments).Scans := by
  apply scans_of_element rfl (by decide)
  intro blob offset room flags small spelled deep
  have lower : depthAll arguments < room := Nat.lt_of_succ_le deep
  rw [spelled_append, spelled_append] at spelled
  have head : decodeSignatureType room blob offset = _ :=
    (scans_named isValue token).decode small spelled.1 (Nat.zero_lt_of_lt lower)
  have count := decodeCompressedUint_spell small (encodeCount_isNumber arguments_lt) spelled.2.1
  have rest := skipSignatureTypes_encodeAll scans small spelled.2.2
    (fun argument member => Nat.lt_of_le_of_lt (depth_le_depthAll member) lower)
  rw [decodeElement, if_neg (by decide), if_neg (by decide), if_neg (by decide), if_neg (by decide),
    if_pos (by decide)]
  simp only [bind, Except.bind, head, encode, count, rest]
  rw [List.length_append, List.length_append, ← Nat.add_assoc, ← Nat.add_assoc]
  rfl

theorem scans_byRef (scans : element.Scans) : (byRef element).Scans :=
  scans_of_prefixed scans rfl (by decide) rfl (fun _ => rfl)

theorem scans_pinned (scans : element.Scans) : (pinned element).Scans :=
  scans_of_prefixed scans rfl (by decide) rfl (fun _ => rfl)

end SigType

end Zapada.Zaclr
