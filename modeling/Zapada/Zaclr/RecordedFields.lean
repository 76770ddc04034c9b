import Zapada.Zaclr.PreparedTables

namespace Zapada.Zaclr

open Foundation Option

variable {α : Type} (types : α → TypeInfo α)

/-- The bytes that an instance field asks for: those of its element type, of the
type under an enumeration, or of an instance of its value type without the header. -/
def reservedBytes (tables : MethodTables α) (field : FieldDesc α) : Option Nat :=
  match field.valueType with
  | none => some (elementExtent field.elementType).1
  | some nested =>
    if (types nested).isEnum then
      (types nested).enumUnderlying.map fun underlying =>
        if sizeFromElementType underlying = 0 then 4 else sizeFromElementType underlying
    else (tables nested).bind fun table =>
      if table.state = .complete then some (table.instanceSize - objectHeaderSize) else none

/-- The instances of the value type of a field take fewer than 256 bytes. -/
def FieldDesc.Short (tables : MethodTables α) (field : FieldDesc α) : Prop :=
  ∀ nested, field.valueType = some nested → (types nested).isEnum = false →
    ∀ table, tables nested = some table → table.instanceSize - objectHeaderSize < 2 ^ 8

/-- The fields of a table take so many bytes, one behind the other from the end of the base to
the end of an instance. -/
def MethodTable.Reserves (table : MethodTable α) (sizes : List Nat) : Prop :=
  ∃ last, Zaclr.Reserves table.baseInstanceSize table.instanceFields sizes last ∧
    table.instanceSize = alignTo (objectHeaderSize + last) 8

/-- The sizes in a table are cut from the reserved ones; a table that is being prepared has no
size yet. -/
structure Recorded (tables : MethodTables α) (type : α) (table : MethodTable α) : Prop where
  begun : table.state ≠ .complete → table.instanceSize = 0
  isEnum : table.isEnum = (types type).isEnum ∨ table.isEnum = false ∧ table.instanceSize = 0
  sizes : table.state = .complete → ∃ sizes, table.Reserves sizes ∧
    List.Forall₂ (fun layout size => layout.fieldSize = size % 2 ^ 8) table.instanceFields sizes ∧
    (table.instanceFields = [] ∨
      List.Forall₂ (fun size field => reservedBytes types tables field = some size) sizes
        (instanceFields types type))

variable {types}

theorem reservedBytes_kept (reserved : reservedBytes types before field = some size)
    (kept : ∀ other table, before other = some table → table.state = .complete →
      after other = some table) :
    reservedBytes types after field = some size := by
  unfold reservedBytes at reserved ⊢
  cases isValue : field.valueType with
  | none => simpa [isValue] using reserved
  | some nested =>
    simp only [isValue] at reserved ⊢
    split at reserved
    · rename_i isEnum
      simpa [isEnum] using reserved
    · obtain ⟨table, present, measured⟩ := bind_eq_some_iff.mp reserved
      split at measured
      · rename_i notEnum complete
        simp [notEnum, kept nested table present complete, complete, ← measured]
      · cases measured

theorem Recorded.lasting : Lasting (Recorded types) := by
  intro before after type table recorded kept
  refine ⟨recorded.begun, recorded.isEnum, fun complete => ?_⟩
  obtain ⟨sizes, reserves, cut, asked⟩ := recorded.sizes complete
  exact ⟨sizes, reserves, cut, asked.imp_right fun asked =>
    asked.imp fun _ _ reserved => reservedBytes_kept reserved kept⟩

/-- The size of an instance field that is placed is the one that is reserved for good. -/
theorem Seen.reserved (seen : Seen types (Recorded types) type tables' field tables)
    (plain : field.isStatic = false)
    (extent : fieldExtent types tables field = some (size, alignment)) :
    reservedBytes types tables' field = some size := by
  obtain ⟨signature, signed, extent⟩ := bind_eq_some_iff.mp extent
  have element : field.elementType = signature.elementType := by
    simp [FieldDesc.elementType, signed]
  split at extent
  · rename_i isValue
    obtain ⟨nested, found, extent⟩ := bind_eq_some_iff.mp extent
    have valueType := valueType_of_nested signed isValue found
    obtain ⟨table, present⟩ := seen.present nested valueType
    have recorded := seen.all nested table present
    simp only [nestedExtent, present, plain, Bool.false_eq_true, false_and, if_false] at extent
    simp only [reservedBytes, valueType]
    split at extent
    · rename_i isEnum
      have same : (types nested).isEnum = true := by simpa [isEnum] using recorded.isEnum.symm
      obtain ⟨underlying, under, pair⟩ := map_eq_some_iff.mp extent
      cases pair
      simp [same, under]
    · rename_i notEnum
      split at extent
      · cases extent
      · rename_i large
        cases extent
        have sized : table.instanceSize ≠ 0 := by
          intro zero
          simp [zero, objectHeaderSize] at large
        have same : (types nested).isEnum = false := by
          simpa [notEnum, sized] using recorded.isEnum.symm
        have complete : table.state = .complete := by
          by_contra incomplete
          exact sized (recorded.begun incomplete)
        simp [same, seen.grows.kept nested table present, complete]
  · rename_i notValue
    have none : field.valueType = none := by simp [FieldDesc.valueType, element, notValue]
    cases extent
    simp [reservedBytes, none, element, elementExtent]

variable [DecidableEq α]

omit [DecidableEq α] in
theorem finishTable_size (info : TypeInfo α) (fields : Option LayoutProgress)
    (behind : bytes ≤ (fields.map (·.currentOffset)).getD bytes) :
    (finishTable info bytes fields).instanceSize =
      alignTo (objectHeaderSize + (fields.map (·.currentOffset)).getD bytes) 8 := by
  have same : objectHeaderSize + bytes +
      (fields.map fun progress => progress.currentOffset - bytes).getD 0 =
        objectHeaderSize + (fields.map (·.currentOffset)).getD bytes := by
    cases fields with
    | none => rfl
    | some progress =>
      simp only [map_some, getD_some] at behind ⊢
      omega
  have raised := le_alignTo (objectHeaderSize + (fields.map (·.currentOffset)).getD bytes) 8
  simp only [finishTable, same]
  exact if_neg (by omega)

theorem typePrepare_recorded (fuel : Nat) :
    Prepares types (Recorded types) (typePrepare types fuel) := by
  refine typePrepare_prepares Recorded.lasting (fun _ _ => ⟨fun _ => rfl, .inr ⟨rfl, rfl⟩, nofun⟩)
    (fun _ _ _ => ⟨fun _ => rfl, .inl rfl, nofun⟩) ?_ fuel
  intro tables type bytes fields laid _
  refine ⟨fun incomplete => absurd rfl incomplete, .inl rfl, fun _ => ?_⟩
  cases fields with
  | none => exact ⟨[], ⟨bytes, .nil, finishTable_size _ none (Nat.le_refl _)⟩, .nil, .inl rfl⟩
  | some after =>
    obtain ⟨added, sizes, grown, -, extents, cut, reserves⟩ := laid.added rfl
    have listed : (finishTable (types type) bytes (some after)).instanceFields = added := grown
    have size := finishTable_size (types type) (some after) (reserves.inOrder cut).1
    refine ⟨sizes, ⟨_, listed ▸ reserves, size⟩, listed ▸ cut, .inr (extents.imp ?_)⟩
    rintro size field ⟨plain, before, alignment, seen, extent⟩
    exact seen.reserved plain extent

omit [DecidableEq α] in
theorem reservedBytes_lt_iff (reserved : reservedBytes types tables field = some size) :
    size < 2 ^ 8 ↔ field.Short types tables := by
  unfold reservedBytes at reserved
  unfold FieldDesc.Short
  split at reserved
  · rename_i none
    cases reserved
    simpa [none] using elementExtent_lt field.elementType
  · rename_i nested isValue
    split at reserved
    · rename_i isEnum
      obtain ⟨underlying, -, same⟩ := map_eq_some_iff.mp reserved
      have short : size < 256 := by
        rcases sizeFromElementType_cases underlying with zero | divides
        · simp [← same, zero]
        · rcases dvd_eight divides with eq | eq | eq | eq <;> simp [← same, eq]
      simp [isValue, isEnum, short]
    · rename_i notEnum
      obtain ⟨table, present, measured⟩ := bind_eq_some_iff.mp reserved
      split at measured
      · cases measured
        simp [isValue, notEnum, present]
      · cases measured

/-- The size that is recorded for an instance field is the number of bytes that it takes in the
layout just if an instance of its value type takes fewer than 256 bytes. -/
theorem fieldSize_reserved_iff {α : Type} [DecidableEq α] (types : α → TypeInfo α)
    (labels : List (Nat × α)) (tables : MethodTables α)
    (run : (typeMachine types).Run labels tables)
    (type : α) (table : MethodTable α) (present : tables type = some table) :
    ∃ sizes, table.Reserves sizes ∧
      ∀ (index : Nat) layout, table.instanceFields[index]? = some layout → ∃ field size,
        (instanceFields types type)[index]? = some field ∧ sizes[index]? = some size ∧
        reservedBytes types tables field = some size ∧
        (layout.fieldSize = size ↔ field.Short types tables) := by
  obtain ⟨complete, recorded⟩ := Throughout.reached typePrepare_recorded run
  obtain ⟨sizes, reserves, cut, asked⟩ :=
    (recorded type table present).sizes (complete type table present)
  refine ⟨sizes, reserves, fun index layout listed => ?_⟩
  rcases asked with none | asked
  · simp [none] at listed
  · obtain ⟨size, sized, cut⟩ := forall₂_getElem? cut.flip listed
    obtain ⟨field, found, reserved⟩ := forall₂_getElem? asked.flip sized
    refine ⟨field, size, found, sized, reserved, ?_⟩
    rw [← reservedBytes_lt_iff reserved, cut]
    omega

/-- A structure of some fields of type `long`, and a class with a field of it. -/
def longs (count : Nat) : Bool → TypeInfo Bool
  | false => plain ((List.range count).map fun row => field row 0x0A none)
  | true => plain [field count ElementType.valuetype (some false)]
where
  plain (fields : List (FieldDesc Bool)) : TypeInfo Bool :=
    { parent := none, isEnum := false, enumUnderlying := none, fields }
  field (row : Nat) (elementType : UInt8) (nested : Option Bool) : FieldDesc Bool :=
    { row
      isStatic := false
      signature := some { elementType, typeToken := 0, genericParamIndex := 0, flags := 0 }
      nested }

namespace longs

def prepared (count : Nat) : MethodTables Bool :=
  (typePrepare (longs count) 2 (fun _ => none) true).getD fun _ => none

theorem run (done : (typePrepare (longs count) 2 (fun _ => none) true).isSome) :
    (typeMachine (longs count)).Run [(2, true)] (prepared count) := by
  obtain ⟨tables, same⟩ := isSome_iff_exists.mp done
  have taken : typePrepare (longs count) 2 (fun _ => none) true = some (prepared count) := by
    simp [prepared, same]
  exact .next (.start rfl) taken

def layouts (count : Nat) : List FieldLayout :=
  ((prepared count true).map (·.instanceFields)).getD []

theorem small_kept : ∃ table sizes, prepared 2 true = some table ∧ table.Reserves sizes ∧
    ∃ field size, (instanceFields (longs 2) true)[0]? = some field ∧ sizes[0]? = some size ∧
      reservedBytes (longs 2) (prepared 2) field = some size ∧
      (16 = size ↔ field.Short (longs 2) (prepared 2)) := by
  obtain ⟨table, present⟩ :=
    isSome_iff_exists.mp (by decide : (prepared 2 true).isSome = true)
  have listed : table.instanceFields[0]? = some
      ⟨2, 0, 0, ElementType.valuetype, false, false, 16⟩ := by
    have same : ((prepared 2 true).bind fun table => table.instanceFields[0]?) = some
        ⟨2, 0, 0, ElementType.valuetype, false, false, 16⟩ := by decide +kernel
    rwa [present] at same
  obtain ⟨sizes, reserves, sized⟩ :=
    fieldSize_reserved_iff (longs 2) _ _ (run (by decide +kernel)) true table present
  exact ⟨table, sizes, present, reserves, sized 0 _ listed⟩

/-- For 264 bytes a size of 8 is recorded. -/
theorem large_cut : (typeMachine (longs 33)).Run [(2, true)] (prepared 33) ∧
    (layouts 33).map (fun layout => (layout.byteOffset, layout.fieldSize)) = [(0, 8)] ∧
    (prepared 33 true).map (·.instanceSize) = some (objectHeaderSize + 264) ∧
    (instanceFields (longs 33) true).map (reservedBytes (longs 33) (prepared 33)) = [some 264] :=
  ⟨run (by decide +kernel), by decide +kernel, by decide +kernel, by decide +kernel⟩

end longs

end Zapada.Zaclr
