import Zapada.Zaclr.FieldLayouts

namespace Zapada.Zaclr

open Foundation ElementType FieldAbove LayoutProgress List Option

section Instances

variable {α : Type} {types : α → TypeInfo α} {sizing : Sizing types} {tables : MethodTables α}
variable {table : MethodTable α} {type : α}

theorem Sound.spans (sound : Sound sizing tables type table) :
    ∃ spans : List Span, table.instanceFields.map (·.byteOffset) = spans.map (·.start) ∧
      List.Forall₂ (fun span field => (sizing.item field).alignment ∣ span.start ∧
        (sizing.item field).size ≤ span.size) spans (instanceFields types type) ∧
      (spans.Pairwise fun one other => one.stop ≤ other.start) ∧
      ∀ span ∈ spans, table.baseInstanceSize ≤ span.start ∧ span.stop ≤ table.instanceBytes := by
  obtain ⟨reserved, fits, small, offsets, room⟩ := sound.places
  have positive : ∀ item ∈ reserved, 0 < item.alignment := fun item member =>
    alignment_pos (small item member)
  refine ⟨_, offsets, ?_, LayoutItem.spans_pairwise positive _, ?_⟩
  · have aligned := LayoutItem.spans_aligned table.baseInstanceSize reserved
    rw [forall₂_map_left_iff] at fits
    generalize LayoutItem.spans table.baseInstanceSize reserved = spans at aligned ⊢
    generalize instanceFields types type = fields at fits ⊢
    clear offsets room small positive
    induction fits generalizing spans with
    | nil =>
      cases aligned
      exact .nil
    | cons first rest ih =>
      cases aligned with
      | cons here later =>
        exact .cons ⟨Nat.dvd_trans first.2 here.1, here.2 ▸ first.1⟩ (ih _ later)
  · intro span member
    have inside := LayoutItem.spans_bounds positive _ span member
    exact ⟨inside.1, Nat.le_trans inside.2 room⟩

theorem Sound.base_le (sound : Sound sizing tables type table) :
    table.baseInstanceSize ≤ table.instanceBytes := by
  obtain ⟨reserved, -, small, -, room⟩ := sound.places
  exact Nat.le_trans
    (LayoutItem.le_finish (fun item member => alignment_pos (small item member)) _) room

section

variable (sound : AllSound sizing tables)

include sound

/-- The bases of a complete type are complete, and their fields come before its own. -/
theorem AllSound.ancestor {owner : α}
    (chain : Relation.ReflTransGen (Inherits types) type owner) (present : tables type = some table)
    (complete : table.state = .complete) :
    ∃ ownerTable, tables owner = some ownerTable ∧ ownerTable.state = .complete ∧
      (owner = type ∨ ownerTable.instanceBytes ≤ table.baseInstanceSize) := by
  induction chain using Relation.ReflTransGen.head_induction_on generalizing table with
  | refl => exact ⟨table, present, complete, .inl rfl⟩
  | head step rest ih =>
    obtain ⟨parentTable, parentPresent, parentComplete, base⟩ :=
      (sound _ _ present complete).base _ step
    obtain ⟨ownerTable, ownerPresent, ownerComplete, order⟩ := ih parentPresent parentComplete
    refine ⟨ownerTable, ownerPresent, ownerComplete, .inr ?_⟩
    rcases order with rfl | before
    · rw [parentPresent, some.injEq] at ownerPresent
      rw [base, ownerPresent]
    · have inside := (sound _ _ parentPresent parentComplete).base_le
      omega

/-- The place of an instance field: behind the bases of its owner, and before its end. -/
theorem AllSound.span (present : tables type = some table)
    (complete : table.state = .complete) (field : FieldAbove types (Inherits types) type) :
    ∃ ownerTable, ∃ span : Span, tables field.owner = some ownerTable ∧
      ownerTable.state = .complete ∧
      field.offset tables = some span.start ∧ (sizing.item field.desc).alignment ∣ span.start ∧
      (sizing.item field.desc).size ≤ span.size ∧ ownerTable.baseInstanceSize ≤ span.start ∧
      span.stop ≤ ownerTable.instanceBytes := by
  obtain ⟨ownerTable, ownerPresent, ownerComplete, -⟩ :=
    sound.ancestor field.inherited present complete
  obtain ⟨spans, offsets, related, -, bounds⟩ := (sound _ _ ownerPresent ownerComplete).spans
  obtain ⟨span, found, aligned, room⟩ := forall₂_getElem? related field.found
  have offset : field.offset tables = some span.start := by
    rw [offset, ownerPresent, bind_some, ← List.getElem?_map, offsets,
      List.getElem?_map, found]
    rfl
  exact ⟨ownerTable, span, ownerPresent, ownerComplete, offset, aligned, room,
    bounds span (mem_of_getElem? found)⟩

variable (sizing tables) in
/-- One field ends before another one starts. -/
def Ahead (one other : FieldAbove types (Inherits types) type) : Prop :=
  ∀ first second, one.offset tables = some first → other.offset tables = some second →
    first + (sizing.item one.desc).size ≤ second

theorem AllSound.own_first (present : tables type = some table)
    (complete : table.state = .complete) (one other : FieldAbove types (Inherits types) type)
    (same : one.owner = other.owner)
    (before : one.index < other.index) : Ahead sizing tables one other := by
  intro first second firstAt secondAt
  obtain ⟨ownerTable, -, ownerPresent, ownerComplete, -⟩ := sound.span present complete one
  obtain ⟨spans, offsets, related, ordered, -⟩ := (sound _ _ ownerPresent ownerComplete).spans
  obtain ⟨span, found, -, room⟩ := forall₂_getElem? related one.found
  obtain ⟨span', found', -, -⟩ := forall₂_getElem? related (same ▸ other.found)
  rw [offset, ownerPresent, bind_some, ← List.getElem?_map, offsets,
    List.getElem?_map, found,
    map_some, some.injEq] at firstAt
  rw [offset, ← same, ownerPresent, bind_some, ← List.getElem?_map, offsets,
    List.getElem?_map,
    found', map_some, some.injEq] at secondAt
  obtain ⟨inside, rfl⟩ := List.getElem?_eq_some_iff.mp found
  obtain ⟨inside', rfl⟩ := List.getElem?_eq_some_iff.mp found'
  have apart := pairwise_iff_getElem.mp ordered one.index other.index inside inside' before
  simp only [Span.stop] at apart
  omega

/-- The fields of a base end before those of a type that inherits from it start. -/
theorem AllSound.base_first (present : tables type = some table)
    (complete : table.state = .complete) (one other : FieldAbove types (Inherits types) type)
    (chain : Relation.ReflTransGen (Inherits types) one.owner other.owner)
    (different : other.owner ≠ one.owner) :
    Ahead sizing tables other one := by
  intro second first secondAt firstAt
  obtain ⟨oneTable, oneSpan, onePresent, oneComplete, oneOffset, -, -, low, -⟩ :=
    sound.span present complete one
  obtain ⟨otherTable, otherSpan, otherPresent, -, otherOffset, -, room, -, high⟩ :=
    sound.span present complete other
  obtain ⟨otherTable', otherPresent', -, order⟩ := sound.ancestor chain onePresent oneComplete
  rw [otherPresent] at otherPresent'
  cases otherPresent'
  have before := order.resolve_left different
  rw [oneOffset, some.injEq] at firstAt
  rw [otherOffset, some.injEq] at secondAt
  simp only [Span.stop] at high
  omega

theorem AllSound.laidOut (resolved : Resolved types type) (present : tables type = some table)
    (complete : table.state = .complete) : LaidOut sizing tables type table where
  placed field := by
    obtain ⟨ownerTable, span, ownerPresent, ownerComplete, offset, aligned, room, -, high⟩ :=
      sound.span present complete (resolved.walked field)
    obtain ⟨ownerTable', ownerPresent', -, order⟩ :=
      sound.ancestor (resolved.inherits field.inherited) present complete
    obtain rfl := some.inj (ownerPresent.symm.trans ownerPresent')
    change (sizing.item field.desc).size ≤ span.size at room
    have here := sound type table present complete
    have inside : ownerTable.instanceBytes ≤ table.instanceBytes := by
      rcases order with same | before
      · rw [same, present, some.injEq] at ownerPresent'
        rw [ownerPresent']
      · exact Nat.le_trans before here.base_le
    refine ⟨span.start, offset, aligned, ?_⟩
    rw [here.size]
    simp only [Span.stop] at high
    omega
  apart one other first second different firstAt secondAt := by
    rcases ordered (sound.own_first present complete) (sound.base_first present complete)
      (resolved.walked one) (resolved.walked other) different with before | after
    · exact .inl (before first second firstAt secondAt)
    · exact .inr (after second first secondAt firstAt)

end

end Instances

/-- A field of a kind; a value type is the enumeration `false`. -/
def kindField (kind : FieldKind) : FieldDesc Bool :=
  { row := 1
    isStatic := false
    signature := some { elementType := kind.elementType, typeToken := 0, genericParamIndex := 0,
                        flags := if kind.byRef then flagByref else 0 }
    nested := some false }

/-- A class `true` with two fields of a kind, and an enumeration `false` of one byte. -/
def pairTypes (kind : FieldKind) : Bool → TypeInfo Bool
  | true =>
    { parent := none, isEnum := false, enumUnderlying := none, fields := [kindField kind, kindField kind] }
  | false => { parent := none, isEnum := true, enumUnderlying := some 0x05, fields := [] }

namespace pairTypes

variable (kind : FieldKind)

theorem kindField_byRef : (kindField kind).isByRef = kind.byRef := by
  cases byRef : kind.byRef <;> simp [FieldDesc.isByRef, kindField, byRef, flagByref]

theorem not_reaches : ¬ Reaches (pairTypes kind) false true := by
  intro reaches
  rcases Relation.ReflTransGen.cases_head reaches with same | ⟨next, uses, -⟩
  · cases same
  · rcases uses with parent | ⟨field, member, -⟩
    · cases parent
    · cases member

theorem resolved : Resolved (pairTypes kind) type := fun derived _ => by cases derived <;> rfl

theorem preparable : Preparable (pairTypes kind) where
  parent type parent found := by cases type <;> cases found
  contained type field member value found := by
    cases type
    · cases member
    · have listed : field = kindField kind := by
        simpa [instanceFields, pairTypes] using (mem_filter.mp member).1
      subst listed
      have same : value = false := by
        unfold FieldDesc.valueType at found
        split at found
        · exact (some.inj found).symm
        · cases found
      exact same ▸ not_reaches kind
  signed type field member := by
    cases type
    · cases member
    · have listed : field = kindField kind := by simpa [pairTypes] using member
      exact listed ▸ ⟨_, rfl, fun _ => rfl⟩
  enums type field member value found isEnum := by
    cases value
    · exact ⟨_, rfl, by decide⟩
    · cases isEnum

/-- What one field is; it does not depend on how large value types are. -/
def item : LayoutItem :=
  fieldItem (pairTypes kind) (fun _ => kind.instantiated) (fun _ => 0) (fun _ => 1) (kindField kind)

theorem fieldItem_eq (value alignment : Bool → Nat) :
    fieldItem (pairTypes kind) (fun _ => kind.instantiated) value alignment (kindField kind) =
      item kind := by
  by_cases valued : kind.elementType = valuetype
  · simp [item, fieldItem, FieldDesc.valueType, FieldDesc.elementType, kindField, pairTypes, valued]
  · simp [item, fieldItem, FieldDesc.valueType, FieldDesc.elementType, kindField, valued]

theorem instanceFields_class :
    instanceFields (pairTypes kind) true = [kindField kind, kindField kind] := rfl

def sizing : Sizing (pairTypes kind) where
  instantiated := fun _ => kind.instantiated
  alignment type := if type then max 1 (item kind).alignment else 1
  value type :=
    if type then roundUp (LayoutItem.finish 0 [item kind, item kind]) (max 1 (item kind).alignment)
    else 0
  alignment_eq type := by
    cases type
    · rfl
    · simp [instanceFields_class, fieldItem_eq]
  value_eq type := by
    cases type
    · simp [instanceFields, pairTypes, LayoutItem.finish, roundUp]
    · simp [instanceFields_class, fieldItem_eq]

/-- The second field is placed right after the bytes that the first one gets. -/
theorem place_pair (signature : SignatureType) (row : Nat) (divides : alignment ∣ 8)
    (multiple : alignment ∣ size) :
    (((mk 0 1 [] [] 0).place row false signature size alignment).place row false signature size
      alignment).instanceFields.map (·.byteOffset) = [0, size] := by
  have positive := alignment_pos divides
  obtain ⟨current, offsets⟩ := (mk 0 1 [] [] 0).place_instance row signature size divides
  obtain ⟨-, offsets'⟩ := ((mk 0 1 [] [] 0).place row false signature size
    alignment).place_instance row signature size divides
  rw [offsets', offsets, current, roundUp_of_dvd (Nat.dvd_zero _) positive, Nat.zero_add,
    roundUp_of_dvd multiple positive]
  rfl

theorem computeAlignment_dvd_reserved (elementType : UInt8) :
    computeAlignment elementType ∣ (elementExtent elementType).1 := by
  unfold elementExtent computeAlignment
  rcases sizeFromElementType_cases elementType with none | divides
  · simp [none]
  · rcases dvd_eight divides with same | same | same | same <;> rw [same] <;> decide

/-- The tables when the fields of the class are laid out. -/
def started : MethodTables Bool :=
  Function.update (Function.update (fun _ => none) true (some MethodTable.allocated)) true
    (some (startTable (pairTypes kind true) 0))

/-- The bytes that each of the two fields gets. -/
def reserved : Nat :=
  if kind.elementType = ElementType.valuetype then 1 else (elementExtent kind.elementType).1

theorem laid :
    ∃ tables signature alignment, layoutFields (pairTypes kind) (typePrepare (pairTypes kind) 1)
      [kindField kind, kindField kind] (started kind) ⟨0, 1, [], [], 0⟩ =
        some (tables, some (((mk 0 1 [] [] 0).place 1 false signature (reserved kind)
          alignment).place 1 false signature (reserved kind) alignment)) ∧
      alignment ∣ 8 ∧ alignment ∣ reserved kind := by
  by_cases valued : kind.elementType = valuetype
  · simp only [layoutFields, kindField, reserved, valued, if_true]
    exact ⟨_, _, 1, rfl, by decide, by decide⟩
  · simp only [layoutFields, kindField, reserved, if_neg valued]
    exact ⟨_, _, _, rfl, computeAlignment_dvd _, computeAlignment_dvd_reserved _⟩

/-- The class is prepared, with one field right after the other. -/
theorem prepared :
    ∃ tables table, typePrepare (pairTypes kind) 2 (fun _ => none) true = some tables ∧
      tables true = some table ∧ table.state = .complete ∧
      table.instanceFields.map (·.byteOffset) = [0, reserved kind] := by
  obtain ⟨tables, signature, alignment, laid, divides, multiple⟩ := laid kind
  have prepared :
      typePrepare (pairTypes kind) 2 (fun _ => none) true = some (Function.update tables true (some
      (finishTable (pairTypes kind true) 0 (some (((mk 0 1 [] [] 0).place 1 false signature
        (reserved kind) alignment).place 1 false signature (reserved kind) alignment))))) := by
    exact congrArg (· >>= _) laid
  exact ⟨_, _, prepared, Function.update_self .., rfl, place_pair signature 1 divides multiple⟩

theorem within (member : kind ∈ kinds) : (sizing kind).Over kinds := by
  intro type field found
  cases type
  · cases found
  · have listed : field = kindField kind := by simpa [instanceFields_class] using found
    have same : (sizing kind).kind field = kind := by
      rw [listed, Sizing.kind, kindField_byRef]
      rfl
    rw [same]
    exact member

end pairTypes

end Zapada.Zaclr
