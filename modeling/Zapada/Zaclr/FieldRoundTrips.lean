import Zapada.Zaclr.FieldEncodings

namespace Zapada.Zaclr

open Foundation List Option

section Places

variable {α : Type} {layout : FieldLayout} {field : FieldDesc α} {memory memory' : Memory}

theorem isReference_extent (reference : isReference elementType = true) :
    (elementExtent elementType).1 = 8 := by
  simp only [isReference, decide_eq_true_eq, mem_cons, not_mem_nil, or_false] at reference
  rcases reference with rfl | rfl | rfl | rfl | rfl <;> rfl

theorem FieldLayout.Of.reference_size (of : layout.Of field)
    (reference : layout.isReference = true) :
    layout.fieldSize = 8 := by
  rw [of.isReference] at reference
  rw [of.fieldSize, isReference_extent reference]
  intro value
  rw [value] at reference
  cases reference

theorem FieldLayout.Of.storeCode_width (of : layout.Of field)
    (code : layout.storeCode value = some (width, number)) :
    width = layout.fieldSize ∧ layout.fieldSize ∈ [1, 2, 4, 8] := by
  unfold storeCode at code
  split_ifs at code with refused reference sized
  · have size := of.reference_size reference
    split at code <;> cases code <;> simp [size]
  · split at code <;> cases code
    exact ⟨rfl, sized⟩
  · split at code <;> cases code

theorem FieldLayout.Of.loadFieldValue_congr (of : layout.Of field)
    (same : ∀ byte, address ≤ byte → byte < address + layout.fieldSize →
      memory byte = memory' byte) :
    loadFieldValue memory address layout = loadFieldValue memory' address layout := by
  have loaded : memory.load address layout.fieldSize = memory'.load address layout.fieldSize :=
    Memory.load_congr _ _ _ _ same
  have payload :
      payloadAt memory address layout.fieldSize = payloadAt memory' address layout.fieldSize := by
    apply map_congr_left
    intro i member
    have inside := mem_range.mp member
    exact same (address + i) (by omega) (by omega)
  unfold loadFieldValue
  split_ifs with value reference small wide
  · rw [payload]
  · rw [← of.reference_size reference, loaded]
  · rw [loaded]
  · rw [← wide, loaded]
  · rfl

theorem loads_differ (sized : layout.fieldSize ∈ [1, 2, 4, 8]) (address : Nat) :
    loadFieldValue (fun _ => 0) address layout ≠ loadFieldValue (fun _ => 1) address layout := by
  have sizes : layout.fieldSize = 1 ∨ layout.fieldSize = 2 ∨ layout.fieldSize = 4 ∨
    layout.fieldSize = 8 := by
    simpa using sized
  unfold loadFieldValue
  split_ifs with value reference small wide
  · rcases sizes with size | size | size | size <;> simp [payloadAt, size]
  · simp [Memory.load]
  · rcases sizes with size | size | size | size <;> simp [Memory.load, size] at small ⊢
  · simp [Memory.load]
  · omega

theorem FieldLayout.Of.load_store_apart {other : FieldLayout} {otherField : FieldDesc α}
    (of : layout.Of field)
    (otherOf : other.Of otherField) (code : layout.storeCode value = some (width, number))
    (apart : layout.byteOffset + layout.fieldSize ≤ other.byteOffset ∨
      other.byteOffset + other.fieldSize ≤ layout.byteOffset) (base : Nat) :
    loadFieldValue (memory.store (base + layout.byteOffset) width number)
      (base + other.byteOffset) other =
      loadFieldValue memory (base + other.byteOffset) other := by
  obtain ⟨rfl, -⟩ := of.storeCode_width code
  apply otherOf.loadFieldValue_congr
  intro byte low high
  exact Memory.store_outside _ _ _ _ _ (by omega)

end Places

section Search

variable {α : Type} {types : α → TypeInfo α} {tables : MethodTables α} {table : MethodTable α}
variable {layout otherLayout : FieldLayout} {index later : Nat}

section

variable (settled : Settled types tables)

include settled

/-- A layout in a table is the one of a field of the type. -/
theorem Settled.described (present : tables owner = some table)
    (listed : table.instanceFields[index]? = some layout) :
    ∃ desc, (instanceFields types owner)[index]? = some desc ∧ layout.Of desc := by
  rcases (settled.arranged owner table present).described with none | described
  · simp [none] at listed
  · exact forall₂_getElem? described.flip listed

/-- What a token leads to is a field of the object, with the row of the token. -/
theorem fieldLayout_sound (found : fieldLayout tables fuel token type = some layout) :
    ∃ entry : FieldAbove types (Inherits types) type, entry.layout tables = some layout ∧
      layout.Of entry.desc ∧ entry.desc.row = tokenRow token := by
  simp only [fieldLayout, bind_eq_bind, bind_eq_some_iff] at found
  obtain ⟨⟨owner, index⟩, place, table, present, listed⟩ := found
  obtain ⟨chain, table', present', here⟩ := findFieldLayout_sound settled place
  rw [present] at present'
  cases present'
  obtain ⟨desc, declared, of⟩ := settled.described present listed
  refine ⟨⟨owner, index, chain, desc, declared⟩, by simp [FieldAbove.layout, present, listed], of,
    ?_⟩
  unfold findInstanceFieldLayoutInMethodTable at here
  split at here
  · obtain ⟨inside, same, -⟩ := findIdx?_eq_some_iff_getElem.mp here
    rw [(List.getElem?_eq_some_iff.mp listed).2] at same
    simp only [Bool.and_eq_true, decide_eq_true_eq] at same
    rw [← of.row, same.2]
  · cases here

variable (tables) in
/-- One field ends before another one starts. -/
def EndsBefore (one other : FieldAbove types (Inherits types) type) : Prop :=
  ∀ layout otherLayout, one.layout tables = some layout → other.layout tables = some otherLayout →
    layout.byteOffset + layout.fieldSize ≤ otherLayout.byteOffset

theorem Settled.own_first (one other : FieldAbove types (Inherits types) type)
    (same : one.owner = other.owner) (before : one.index < other.index) :
    EndsBefore tables one other := by
  intro layout otherLayout laid otherLaid
  obtain ⟨table, present, listed⟩ := bind_eq_some_iff.mp laid
  rw [FieldAbove.layout, ← same, present, bind_some] at otherLaid
  obtain ⟨inside, rfl⟩ := List.getElem?_eq_some_iff.mp listed
  obtain ⟨otherInside, rfl⟩ := List.getElem?_eq_some_iff.mp otherLaid
  exact pairwise_iff_getElem.mp (settled.arranged _ table present).inOrder.apart _ _ inside
    otherInside before

/-- The fields of a base end before those of a type that inherits from it. -/
theorem Settled.base_first (one other : FieldAbove types (Inherits types) type)
    (chain : Relation.ReflTransGen (Inherits types) one.owner other.owner)
    (different : other.owner ≠ one.owner) : EndsBefore tables other one := by
  intro otherLayout layout otherLaid laid
  obtain ⟨table, present, listed⟩ := bind_eq_some_iff.mp laid
  obtain ⟨otherTable, otherPresent, otherListed⟩ := bind_eq_some_iff.mp otherLaid
  rcases Relation.ReflTransGen.cases_head chain with same | ⟨next, inherits, above⟩
  · exact absurd same.symm different
  · obtain ⟨baseTable, basePresent, behind⟩ := settled.base_le present inherits above
    rw [otherPresent] at basePresent
    cases basePresent
    have low :=
      ((settled.arranged _ table present).inOrder.inside layout (mem_of_getElem? listed)).1
    have high :=
      ((settled.arranged _ otherTable otherPresent).inOrder.inside otherLayout
        (mem_of_getElem? otherListed)).2
    omega

end

end Search

section Trips

variable {α : Type} {types : α → TypeInfo α} {tables : MethodTables α}

/-- The fields have rows that fit into a token. -/
def Numbered (types : α → TypeInfo α) : Prop :=
  ∀ type, ∀ field ∈ (types type).fields, 0 < field.row ∧ field.row < 2 ^ 24

theorem fieldToken_row (small : row < 2 ^ 24) : tokenRow (fieldToken row) = row := by
  unfold tokenRow fieldToken
  omega

theorem Numbered.row (numbered : Numbered types) (entry : InstanceField types type) :
    0 < entry.desc.row ∧ entry.desc.row < 2 ^ 24 :=
  numbered entry.owner entry.desc (mem_filter.mp (mem_of_getElem? entry.found)).1

theorem FieldAbove.same_desc {one : FieldAbove types above type}
    {other : FieldAbove types above' type}
    (same : (one.owner, one.index) = (other.owner, other.index)) : one.desc = other.desc := by
  rw [Prod.mk.injEq] at same
  have found := one.found
  rw [same.1, same.2, other.found] at found
  exact (some.inj found).symm

theorem fieldLayout_found {field : InstanceField types type}
    (laid : field.layout tables = some layout)
    (found : findFieldLayout tables token fuel (some type) = some (field.owner, field.index)) :
    fieldLayout tables fuel token type = some layout := by
  obtain ⟨ownerTable, ownerPresent, listed⟩ := bind_eq_some_iff.mp laid
  simp [fieldLayout, found, ownerPresent, listed]

theorem Settled.describes (settled : Settled types tables) {field : InstanceField types type}
    (laid : field.layout tables = some layout) : layout.Of field.desc := by
  obtain ⟨ownerTable, present, listed⟩ := bind_eq_some_iff.mp laid
  obtain ⟨desc, declared, of⟩ := settled.described present listed
  rw [field.found, some.injEq] at declared
  exact declared ▸ of

/-- A field that was stored by its own layout: what a round trip is then. -/
theorem fieldRoundTrips_found {field : InstanceField types type}
    (found : findFieldLayout tables (fieldToken field.desc.row) fuel (some type) =
      some (field.owner, field.index)) (laid : field.layout tables = some layout) :
    FieldRoundTrips instantiated tables fuel object field value ↔
      ∀ memory : Memory, ∃ width number, layout.storeCode value = some (width, number) ∧
        let place := object + referenceDataOffset + layout.byteOffset
        (∃ result, loadFieldValue (memory.store place width number) place layout = some result ∧
          (field.desc.declared instantiated).Represents value result) ∧
        ∀ other :
            InstanceField types type, (other.owner, other.index) ≠ (field.owner, field.index) →
          referenceObjectLoadField tables fuel object (fieldToken other.desc.row) type
              (memory.store place width number) =
            referenceObjectLoadField tables fuel object (fieldToken other.desc.row) type
              memory := by
  have itself := fieldLayout_found laid found
  unfold FieldRoundTrips
  simp only [referenceObjectStoreField, storeFieldValue, found, itself, bind_eq_bind,
    bind_some, true_and]
  cases code : layout.storeCode value with
  | none => simp
  | some written =>
    obtain ⟨width, number⟩ := written
    simp [referenceObjectLoadField, itself]

/-- A field shares its row with no other one if storing to it changes none. -/
theorem FieldRoundTrips.alone (settled : Settled types tables) {field : InstanceField types type}
    (found : findFieldLayout tables (fieldToken field.desc.row) fuel (some type) =
      some (field.owner, field.index)) (laid : field.layout tables = some layout)
    (trips : FieldRoundTrips instantiated tables fuel object field value) : field.Alone := by
  intro other different same
  have of := settled.describes laid
  rw [fieldRoundTrips_found found laid] at trips
  obtain ⟨width, number, code, -, clear⟩ := trips fun _ => 0
  obtain ⟨_, _, code', -, set⟩ := trips fun _ => 1
  rw [code] at code'
  cases code'
  have zeros := clear other different
  have ones := set other different
  simp only [referenceObjectLoadField, same, fieldLayout_found laid found, bind_eq_bind,
    bind_some] at zeros ones
  obtain ⟨rfl, sized⟩ := of.storeCode_width code
  apply loads_differ sized (object + referenceDataOffset + layout.byteOffset)
  rw [← zeros, ← ones]
  exact of.loadFieldValue_congr fun byte low high => Memory.store_inside _ _ _ _ _ low high

theorem FieldRoundTrips.sufficient (numbered : Numbered types) (settled : Settled types tables)
    {field : InstanceField types type} (admits : (field.desc.declared instantiated).Admits value)
    (found : findFieldLayout tables (fieldToken field.desc.row) fuel (some type) =
      some (field.owner, field.index)) (laid : field.layout tables = some layout)
    (alone : field.Alone) (faithful : field.desc.Faithful instantiated value) :
    FieldRoundTrips instantiated tables fuel object field value := by
  rw [fieldRoundTrips_found found laid]
  intro memory
  have of := settled.describes laid
  obtain ⟨width, number, code, back⟩ := (of.givesBack_iff admits _).mpr faithful
  refine ⟨width, number, code, back, fun other different => ?_⟩
  cases otherFound : fieldLayout tables fuel (fieldToken other.desc.row) type with
  | none => simp [referenceObjectLoadField, otherFound]
  | some otherLayout =>
    obtain ⟨entry, entryLaid, entryOf, named⟩ := fieldLayout_sound settled otherFound
    rw [fieldToken_row (numbered.row other).2] at named
    have elsewhere : (entry.owner, entry.index) ≠ (field.owner, field.index) := by
      intro same
      rw [FieldAbove.same_desc same] at named
      exact alone other different named.symm
    simp only [referenceObjectLoadField, otherFound, bind_eq_bind, bind_some]
    apply of.load_store_apart entryOf code
    -- both fields lie on the way up that the search takes
    let itself : FieldAbove types (Inherits types) type :=
      { field with inherited := (findFieldLayout_sound settled found).1 }
    rcases FieldAbove.ordered settled.own_first settled.base_first entry itself elsewhere with
      before | after
    · exact .inr (before _ _ entryLaid laid)
    · exact .inl (after _ _ laid entryLaid)

end Trips

namespace twoClasses

theorem numbered : Numbered (twoClasses 2) := by
  intro type field member
  cases type <;> simp only [twoClasses, mem_singleton] at member <;> subst member <;> decide

end twoClasses

/-- A class with a field of type `sbyte`. -/
def sbyteClass : Unit → TypeInfo Unit := fun _ =>
  { parent := none, isEnum := false, enumUnderlying := none, fields := [sbyteField] }
where
  sbyteField : FieldDesc Unit :=
    { row := 1
      isStatic := false
      signature := some { elementType := 0x04, typeToken := 0, genericParamIndex := 0, flags := 0 }
      nested := none }

namespace sbyteClass

def prepared : MethodTables Unit := (typePrepare sbyteClass 1 (fun _ => none) ()).getD fun _ => none

def field : InstanceField sbyteClass () where
  owner := ()
  index := 0
  inherited := .refl
  desc := sbyteField
  found := rfl

end sbyteClass

end Zapada.Zaclr
