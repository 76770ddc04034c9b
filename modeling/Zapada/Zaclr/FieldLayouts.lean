import Zapada.Zaclr.TableGrowth
import Mathlib.Tactic.IntervalCases

namespace Zapada.Zaclr

open Foundation Option

theorem dvd_eight (divides : alignment ∣ 8) : alignment = 1 ∨ alignment = 2 ∨ alignment = 4 ∨
      alignment = 8 := by
  have bound : alignment ≤ 8 := Nat.le_of_dvd (by decide) divides
  interval_cases alignment <;> revert divides <;> decide

theorem alignment_pos (divides : alignment ∣ 8) : 0 < alignment :=
  Nat.pos_of_dvd_of_pos divides (by decide)

theorem alignTo_eq (divides : alignment ∣ 8) (value : Nat) :
    alignTo value alignment = roundUp value alignment := by
  have four := Nat.and_two_pow_sub_one_eq_mod (value + 4 - 1) 2
  have eight := Nat.and_two_pow_sub_one_eq_mod (value + 8 - 1) 3
  rcases dvd_eight divides with rfl | rfl | rfl | rfl <;> simp_all [alignTo, roundUp] <;> omega

theorem sizeFromElementType_cases (elementType : UInt8) :
    sizeFromElementType elementType = 0 ∨ sizeFromElementType elementType ∣ 8 := by
  unfold sizeFromElementType
  split_ifs <;> decide

theorem computeAlignment_dvd (elementType : UInt8) : computeAlignment elementType ∣ 8 := by
  unfold computeAlignment
  rcases sizeFromElementType_cases elementType with none | divides
  · rw [none]
    decide
  · rcases dvd_eight divides with same | same | same | same <;> rw [same] <;> decide

theorem dvd_max (first : one ∣ 8) (second : other ∣ 8) :
    max one other ∣ 8 ∧ one ∣ max one other ∧ other ∣ max one other := by
  rcases dvd_eight first with rfl | rfl | rfl | rfl <;> rcases dvd_eight second with rfl | rfl |
    rfl | rfl <;>
    decide

section Field

variable (progress : LayoutProgress) (row : Nat) (signature : SignatureType) (size : Nat)

theorem LayoutProgress.place_requirement (isStatic : Bool) (divides : alignment ∣ 8) :
    (progress.place row isStatic signature size alignment).alignmentRequirement =
      max progress.alignmentRequirement alignment := by
  have coarser : (if progress.alignmentRequirement < alignment then alignment
      else progress.alignmentRequirement) = max progress.alignmentRequirement alignment := by
    split_ifs <;> omega
  cases isStatic <;> simp [LayoutProgress.place, Nat.ne_of_gt (alignment_pos divides), coarser]

theorem LayoutProgress.place_instance (divides : alignment ∣ 8) :
    let placed := progress.place row false signature size alignment
    placed.currentOffset = roundUp progress.currentOffset alignment + size ∧
      placed.instanceFields.map (·.byteOffset) =
        progress.instanceFields.map (·.byteOffset) ++
          [roundUp progress.currentOffset alignment] := by
  simp [LayoutProgress.place, Nat.ne_of_gt (alignment_pos divides), alignTo_eq divides]

end Field

/-- The fields of a pass are placed with the sizes and alignments that were reserved. -/
structure LayoutProgress.Advances (before after : LayoutProgress) (reserved : List LayoutItem) :
    Prop where
  offset : after.currentOffset = LayoutItem.finish before.currentOffset reserved
  offsets : after.instanceFields.map (·.byteOffset) = before.instanceFields.map (·.byteOffset) ++
    (LayoutItem.spans before.currentOffset reserved).map (·.start)
  requirement : after.alignmentRequirement ∣ 8
  keeps : before.alignmentRequirement ∣ after.alignmentRequirement
  covers : ∀ item ∈ reserved, item.alignment ∣ after.alignmentRequirement

namespace LayoutProgress.Advances

variable {before after : LayoutProgress} {reserved : List LayoutItem}

theorem nothing (required : before.alignmentRequirement ∣ 8) : before.Advances before [] where
  offset := rfl
  offsets := by simp [LayoutItem.spans]
  requirement := required
  keeps := Nat.dvd_refl _
  covers := by simp

theorem instanceField (divides : alignment ∣ 8) (required : before.alignmentRequirement ∣ 8)
    (rest : (before.place row false signature size alignment).Advances after reserved) :
    before.Advances after (⟨size, alignment⟩ :: reserved) := by
  obtain ⟨offset, offsets⟩ := before.place_instance row signature size divides
  have coarser := dvd_max required divides
  rw [← before.place_requirement row signature size false divides] at coarser
  exact {
    offset := by rw [rest.offset, offset]; rfl
    offsets := by rw [rest.offsets, offsets, offset]; simp [LayoutItem.spans]
    requirement := rest.requirement
    keeps := Nat.dvd_trans coarser.2.1 rest.keeps
    covers := by
      intro item member
      rcases List.mem_cons.mp member with rfl | later
      · exact Nat.dvd_trans coarser.2.2 rest.keeps
      · exact rest.covers item later }

theorem staticField (divides : alignment ∣ 8) (required : before.alignmentRequirement ∣ 8)
    (rest : (before.place row true signature size alignment).Advances after reserved) :
    before.Advances after reserved := by
  have coarser := dvd_max required divides
  rw [← before.place_requirement row signature size true divides] at coarser
  exact { rest with keeps := Nat.dvd_trans coarser.2.1 rest.keeps }

end LayoutProgress.Advances

section Tables

variable {α : Type} {types : α → TypeInfo α} (sizing : Sizing types)

/-- A complete table: its fields are placed after those of the base, with room for what
they need, and a value of the type has room in it. -/
structure Sound (tables : MethodTables α) (type : α) (table : MethodTable α) : Prop where
  root : (types type).parent = none → table.baseInstanceSize = 0
  base : ∀ parent, (types type).parent = some parent →
    ∃ parentTable, tables parent = some parentTable ∧
    parentTable.state = .complete ∧ table.baseInstanceSize = parentTable.instanceBytes
  places : ∃ reserved : List LayoutItem,
    List.Forall₂ LayoutItem.Fits ((instanceFields types type).map sizing.item) reserved ∧
    (∀ item ∈ reserved, item.alignment ∣ 8) ∧
    table.instanceFields.map (·.byteOffset) =
      (LayoutItem.spans table.baseInstanceSize reserved).map (·.start) ∧
    LayoutItem.finish table.baseInstanceSize reserved ≤ table.instanceBytes
  size : table.instanceSize = objectHeaderSize + table.instanceBytes
  isEnum : table.isEnum = (types type).isEnum
  value : sizing.value type ≤ table.instanceBytes
  alignment : sizing.alignment type ∣ table.fieldAlignmentRequirement
  requirement : table.fieldAlignmentRequirement ∣ 8

def AllSound (tables : MethodTables α) : Prop :=
  ∀ type table, tables type = some table → table.state = .complete → Sound sizing tables type table

variable {sizing}

theorem Sound.mono (sound : Sound sizing before type table)
    (kept : ∀ other table, before other = some table → table.state = .complete →
      after other = some table) : Sound sizing after type table :=
  { sound with
    base parent found := by
      obtain ⟨parentTable, present, complete, size⟩ := sound.base parent found
      exact ⟨parentTable, kept _ _ present complete, complete, size⟩ }

theorem valueType_of_nested {field : FieldDesc α} (signed : field.signature = some signature)
    (isValue : signature.elementType = ElementType.valuetype) (found : field.nested = some nested) :
    field.valueType = some nested := by
  simp [FieldDesc.valueType, FieldDesc.elementType, signed, isValue, found]

/-- A complete table of a value type offers room for a field of it. -/
theorem nestedExtent_complete
    (sound : AllSound sizing tables) (present : tables nested = some table)
    (complete : table.state = .complete) (isValue : field.valueType = some nested)
    (known : (types nested).isEnum → ∃ underlying, (types nested).enumUnderlying = some underlying ∧
      sizeFromElementType underlying ≠ 0) (isStatic : Bool) :
    ∃ size alignment, nestedExtent types tables isStatic nested = some (size, alignment) ∧
      alignment ∣ 8 ∧ (field.isByRef = false → (sizing.item field).Fits ⟨size, alignment⟩) := by
  have here := sound nested table present complete
  rw [nestedExtent, present]
  simp only [complete, ne_eq, not_true_eq_false, and_false, if_false]
  cases isEnum : (types nested).isEnum with
  | true =>
    obtain ⟨underlying, found, sized⟩ := known isEnum
    rw [here.isEnum, isEnum, if_pos rfl, found, map_some, if_neg sized]
    refine ⟨_, _, rfl, computeAlignment_dvd underlying, fun plain => ?_⟩
    simp [Sizing.item, fieldItem, isValue, isEnum, found, plain, LayoutItem.Fits]
  | false =>
    have large : ¬ table.instanceSize < objectHeaderSize := by have := here.size; omega
    have positive := alignment_pos here.requirement
    rw [here.isEnum, isEnum, if_neg (by simp), if_neg large, if_pos (Nat.ne_of_gt positive)]
    refine ⟨_, _, rfl, here.requirement, fun plain => ?_⟩
    have room : sizing.value nested ≤ table.instanceSize - objectHeaderSize := by
      have := here.size
      have := here.value
      omega
    simpa [Sizing.item, fieldItem, isValue, isEnum, plain, LayoutItem.Fits] using
      And.intro room here.alignment

theorem elementExtent_fits (signed : field.signature = some signature)
    (notValue : signature.elementType ≠ ElementType.valuetype) (fits : (sizing.kind field).Fits) :
    (sizing.item field).Fits ⟨(elementExtent signature.elementType).1,
      (elementExtent signature.elementType).2⟩ := by
  have element : field.elementType = signature.elementType := by
    simp [FieldDesc.elementType, signed]
  have none : field.valueType = none := by simp [FieldDesc.valueType, element, notValue]
  simp only [FieldKind.Fits, Sizing.kind, element, if_neg notValue] at fits
  simp only [Sizing.item, fieldItem, none, element]
  exact ⟨fits, Nat.dvd_refl _⟩

theorem mem_instanceFields (member : field ∈ (types type).fields)
    (notStatic : field.isStatic = false) :
    field ∈ instanceFields types type := by
  simp [instanceFields, member, notStatic]

/-- The tables that a field is laid out with give it a size and an alignment. -/
theorem Seen.extent (seen : Seen types (WhenComplete (Sound sizing)) type tables' field tables)
    (preparable : Preparable types)
    (fit : ∀ type, ∀ field ∈ instanceFields types type, (sizing.kind field).Fits)
    (member : field ∈ (types type).fields) :
    ∃ size alignment, fieldExtent types tables field = some (size, alignment) ∧ alignment ∣ 8 ∧
      (field.isStatic = false → (sizing.item field).Fits ⟨size, alignment⟩) := by
  obtain ⟨signature, signed, resolved⟩ := preparable.signed type field member
  by_cases isValue : signature.elementType = ElementType.valuetype
  · obtain ⟨nested, found⟩ := isSome_iff_exists.mp (resolved isValue)
    have valueType := valueType_of_nested signed isValue found
    have same :
        fieldExtent types tables field = nestedExtent types tables field.isStatic nested := by
      simp [fieldExtent, signed, isValue, found]
    obtain ⟨table, present⟩ := seen.present nested valueType
    rw [same]
    by_cases complete : table.state = .complete
    · obtain ⟨size, alignment, extent, divides, fits⟩ :=
        nestedExtent_complete seen.all present complete
        valueType (preparable.enums type field member nested valueType) field.isStatic
      refine ⟨size, alignment, extent, divides, fun notStatic => fits ?_⟩
      have plain := fit type field (mem_instanceFields member notStatic)
      simpa [FieldKind.Fits, Sizing.kind, FieldDesc.elementType, signed, isValue] using plain
    · -- the nested type is being prepared further up, so the field is static
      have isStatic : field.isStatic = true := by
        by_contra notStatic
        rw [Bool.not_eq_true] at notStatic
        exact preparable.contained type field (mem_instanceFields member notStatic) nested valueType
          (seen.pending nested table present complete)
      exact ⟨0, 1, by simp [nestedExtent, present, isStatic, complete], by decide,
        fun notStatic => by simp [isStatic] at notStatic⟩
  · exact ⟨_, _, by simp [fieldExtent, signed, isValue, elementExtent],
      computeAlignment_dvd signature.elementType,
      fun notStatic =>
        elementExtent_fits signed isValue (fit type field (mem_instanceFields member notStatic))⟩

/-- The pass over the fields of a type does not fail, and reserves what they need. -/
theorem LaidFields.sound
    (laid : LaidFields types (WhenComplete (Sound sizing)) type tables' fields progress result)
    (preparable : Preparable types)
    (fit : ∀ type, ∀ field ∈ instanceFields types type, (sizing.kind field).Fits)
    (subset : ∀ field ∈ fields, field ∈ (types type).fields)
    (required : progress.alignmentRequirement ∣ 8) :
    ∃ after reserved, result = some after ∧ progress.Advances after reserved ∧
      (∀ item ∈ reserved, item.alignment ∣ 8) ∧
      List.Forall₂ LayoutItem.Fits ((fields.filter fun field => !field.isStatic).map sizing.item)
        reserved := by
  induction laid with
  | @nil progress => exact ⟨progress, [], rfl, .nothing required, by simp, .nil⟩
  | stop seen fails =>
    obtain ⟨size, alignment, extent, -⟩ := seen.extent preparable fit (subset _ (by simp))
    rw [fails] at extent
    cases extent
  | @cons field tables signature size alignment fields result progress seen signed extent rest ih =>
    obtain ⟨_, _, same, divides, fits⟩ := seen.extent preparable fit (subset field (by simp))
    cases extent.symm.trans same
    have next :
        (progress.place field.row field.isStatic signature size alignment).alignmentRequirement ∣
          8 := by
      rw [progress.place_requirement field.row signature size field.isStatic divides]
      exact (dvd_max required divides).1
    obtain ⟨after, reserved, found, advances, small, fitRest⟩ :=
      ih (fun other later => subset other (by simp [later])) next
    refine ⟨after, ?_⟩
    cases isStatic : field.isStatic with
    | false =>
      rw [isStatic] at advances
      refine ⟨⟨size, alignment⟩ :: reserved, found, advances.instanceField divides required, ?_, ?_⟩
      · intro item one
        rcases List.mem_cons.mp one with rfl | later
        · exact divides
        · exact small item later
      · simp only [List.filter_cons, isStatic, Bool.not_false, if_true, List.map_cons]
        exact .cons (fits isStatic) fitRest
    | true =>
      rw [isStatic] at advances
      refine ⟨reserved, found, advances.staticField divides required, small, ?_⟩
      simpa [isStatic] using fitRest

end Tables

end Zapada.Zaclr
