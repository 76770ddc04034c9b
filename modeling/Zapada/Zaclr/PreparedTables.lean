import Zapada.Zaclr.FieldLayouts

namespace Zapada.Zaclr

open Foundation

section Rounding

variable {α : Type} [DecidableEq α] {types : α → TypeInfo α}

omit [DecidableEq α] in
theorem finishTable_rounded (info : TypeInfo α) :
    8 ∣ (finishTable info bytes fields).instanceSize := by
  simp only [finishTable]
  split
  · decide
  · rw [alignTo_eq (Nat.dvd_refl 8)]
    exact dvd_roundUp _ _

/-- Instances are a multiple of 8 bytes. -/
theorem typePrepare_rounded (fuel : Nat) :
    Prepares types (fun _ _ table => 8 ∣ table.instanceSize) (typePrepare types fuel) :=
  typePrepare_prepares (fun _ _ _ _ held _ => held) (fun _ _ => Nat.dvd_zero 8)
    (fun _ _ _ => Nat.dvd_zero 8)
    (fun _ type _ _ _ _ => finishTable_rounded (types type)) fuel

end Rounding

structure FieldLayout.Of (layout : FieldLayout) (field : FieldDesc α) : Prop where
  row : layout.fieldTokenRow = field.row
  notStatic : layout.isStatic = false
  elementType : layout.elementType = field.elementType
  isReference : layout.isReference = Zaclr.isReference field.elementType
  fieldSize : field.elementType ≠ ElementType.valuetype →
    layout.fieldSize = (elementExtent field.elementType).1

/-- Fields behind a start and before an end, one after the other. -/
structure InOrder (first last : Nat) (layouts : List FieldLayout) : Prop where
  apart : layouts.Pairwise fun one other => one.byteOffset + one.fieldSize ≤ other.byteOffset
  inside : ∀ layout ∈ layouts, first ≤ layout.byteOffset ∧
    layout.byteOffset + layout.fieldSize ≤ last

theorem InOrder.cons (rest : InOrder middle last layouts) (low : first ≤ layout.byteOffset)
    (high : layout.byteOffset + layout.fieldSize ≤ middle) (order : middle ≤ last) :
    InOrder first last (layout :: layouts) where
  apart :=
    List.pairwise_cons.mpr ⟨fun other member => Nat.le_trans high (rest.inside other member).1,
      rest.apart⟩
  inside := by
    intro other member
    rcases List.mem_cons.mp member with rfl | later
    · exact ⟨low, Nat.le_trans high order⟩
    · have between := rest.inside other later
      exact ⟨by omega, between.2⟩

theorem InOrder.widen (inOrder : InOrder first middle layouts) (order : middle ≤ last) :
    InOrder first last layouts where
  apart := inOrder.apart
  inside layout member :=
    ⟨(inOrder.inside layout member).1, Nat.le_trans (inOrder.inside layout member).2 order⟩

theorem le_alignTo (value alignment : Nat) : value ≤ alignTo value alignment := by
  have masked : (value + alignment - 1) &&& (alignment - 1) ≤ alignment - 1 := Nat.and_le_right
  unfold alignTo
  split
  · exact Nat.le_refl _
  · simp only
    omega

theorem elementExtent_lt (elementType : UInt8) : (elementExtent elementType).1 < 2 ^ 8 := by
  unfold elementExtent
  rcases sizeFromElementType_cases elementType with none | divides
  · simp [none]
  · rcases dvd_eight divides with same | same | same | same <;> simp [same]

variable {α : Type} {types : α → TypeInfo α} {holds : MethodTables α → α → MethodTable α → Prop}

/-- Fields that are placed one behind the other: each begins where the one before it ends, up to
an alignment, and ends behind the bytes that are reserved for it. -/
inductive Reserves : Nat → List FieldLayout → List Nat → Nat → Prop where
  | nil : Reserves offset [] [] offset
  | cons {layout : FieldLayout} {offset alignment size : Nat}
      (start : layout.byteOffset = alignTo offset alignment)
      (rest : Reserves (layout.byteOffset + size) layouts sizes last) :
      Reserves offset (layout :: layouts) (size :: sizes) last

theorem Reserves.inOrder (reserves : Reserves first layouts sizes last)
    (cut : List.Forall₂ (fun layout size => layout.fieldSize = size % 2 ^ 8) layouts sizes) :
    first ≤ last ∧ InOrder first last layouts := by
  induction reserves with
  | nil => exact ⟨Nat.le_refl _, .nil, by simp⟩
  | @cons _ _ _ layout offset alignment size start rest ih =>
    obtain ⟨here, cut⟩ := List.forall₂_cons.mp cut
    obtain ⟨order, inOrder⟩ := ih cut
    have aligned := le_alignTo offset alignment
    have small : layout.fieldSize ≤ size := here ▸ Nat.mod_le _ _
    exact ⟨by omega, inOrder.cons (by omega) (Nat.add_le_add_left small _) order⟩

variable (types holds) in
/-- The size of an instance field that the tables gave when it was placed. -/
def FieldDesc.Extends (type : α) (tables' : MethodTables α) (size : Nat)
    (field : FieldDesc α) : Prop :=
  field.isStatic = false ∧ ∃ tables alignment, Seen types holds type tables' field tables ∧
    fieldExtent types tables field = some (size, alignment)

/-- What placing fields adds to those that were placed before. -/
theorem LaidFields.added (laid : LaidFields types holds type tables' fields progress result)
    (ended : result = some after) :
    ∃ added sizes, after.instanceFields = progress.instanceFields ++ added ∧
      List.Forall₂ FieldLayout.Of added (fields.filter fun field => !field.isStatic) ∧
      List.Forall₂ (FieldDesc.Extends types holds type tables') sizes
        (fields.filter fun field => !field.isStatic) ∧
      List.Forall₂ (fun layout size => layout.fieldSize = size % 2 ^ 8) added sizes ∧
      Reserves progress.currentOffset added sizes after.currentOffset := by
  induction laid with
  | nil =>
    cases ended
    exact ⟨[], [], by simp, .nil, .nil, .nil, .nil⟩
  | stop => cases ended
  | @cons field tables signature size alignment fields result progress seen signed extent rest ih =>
    obtain ⟨added, sizes, grown, described, extents, cut, reserves⟩ := ih ended
    have element : field.elementType = signature.elementType := by
      simp [FieldDesc.elementType, signed]
    cases isStatic : field.isStatic with
    | true =>
      rw [isStatic] at grown reserves
      exact ⟨added, sizes, grown, by simpa [isStatic] using described,
        by simpa [isStatic] using extents, cut, reserves⟩
    | false =>
      rw [isStatic] at grown reserves
      simp only [LayoutProgress.place, Bool.false_eq_true, if_false] at grown reserves
      rw [List.filter_cons_of_pos (by simp [isStatic])]
      refine ⟨_ :: added, size :: sizes, by rw [grown, List.append_assoc, List.singleton_append],
        ?_,
        .cons ⟨isStatic, _, _, seen, extent⟩ extents, .cons rfl cut, .cons rfl reserves⟩
      refine .cons ⟨rfl, rfl, element.symm, by rw [element], fun notValue => ?_⟩ described
      rw [element] at notValue
      simp only [fieldExtent, signed, Option.bind_some, if_neg notValue,
        Option.some.injEq] at extent
      have short := elementExtent_lt signature.elementType
      rw [extent] at short
      rw [element, extent]
      exact Nat.mod_eq_of_lt short

/-- The table of a type lists its instance fields, or none if the pass over them failed, behind
the fields of the base. -/
structure Arranged (info : TypeInfo α) (table : MethodTable α) : Prop where
  described : table.instanceFields = [] ∨
    List.Forall₂ FieldLayout.Of table.instanceFields
      (info.fields.filter fun field => !field.isStatic)
  inOrder : InOrder table.baseInstanceSize table.instanceBytes table.instanceFields
  parent : table.state = .complete → table.parent = info.parent
  room : table.state = .complete → table.baseInstanceSize ≤ table.instanceBytes

theorem Arranged.incomplete {info : TypeInfo α} {table : MethodTable α}
    (none : table.instanceFields = [])
    (incomplete : table.state ≠ .complete) : Arranged info table where
  described := .inl none
  inOrder := by rw [none]; exact ⟨.nil, by simp⟩
  parent complete := absurd complete incomplete
  room complete := absurd complete incomplete

/-- The instances have room for the base and what was placed behind it. -/
theorem finishTable_bytes (info : TypeInfo α) (bytes : Nat) (fields : Option LayoutProgress) :
    bytes + (fields.map fun progress => progress.currentOffset - bytes).getD 0 ≤
      (finishTable info bytes fields).instanceBytes := by
  have raised := le_alignTo (objectHeaderSize + bytes +
    (fields.map fun progress => progress.currentOffset - bytes).getD 0) 8
  simp only [MethodTable.instanceBytes, finishTable]
  split_ifs <;> omega

theorem finishTable_arranged
    (laid : LaidFields types holds type tables' (types type).fields ⟨bytes, 1, [], [], 0⟩ fields) :
    Arranged (types type) (finishTable (types type) bytes fields) := by
  have bound := finishTable_bytes (types type) bytes fields
  have room : bytes ≤ (finishTable (types type) bytes fields).instanceBytes :=
    Nat.le_trans (Nat.le_add_right ..) bound
  cases fields with
  | none => exact ⟨.inl rfl, ⟨.nil, fun _ member => (by cases member)⟩, fun _ => rfl, fun _ => room⟩
  | some after =>
    obtain ⟨added, sizes, grown, described, -, cut, reserves⟩ := laid.added rfl
    obtain ⟨behind, inOrder⟩ := reserves.inOrder cut
    have listed : (finishTable (types type) bytes (some after)).instanceFields = added := grown
    refine ⟨.inr (listed ▸ described), ?_, fun _ => rfl, fun _ => room⟩
    rw [listed]
    apply inOrder.widen
    simp only [Option.map_some, Option.getD_some] at bound behind
    omega

section Hierarchy

variable [DecidableEq α]

theorem typePrepare_arranged (fuel : Nat) :
    Prepares types (fun _ type table => Arranged (types type) table) (typePrepare types fuel) :=
  typePrepare_prepares (fun _ _ _ _ held _ => held)
    (fun _ _ => .incomplete rfl (by simp [MethodTable.allocated]))
    (fun _ _ _ => .incomplete rfl (by simp [startTable, MethodTable.allocated]))
    (fun _ _ _ _ laid _ => finishTable_arranged laid) fuel

variable (types) in
/-- The fields of a type begin where the instances of its base end. -/
def Based (tables : MethodTables α) (type : α) (table : MethodTable α) : Prop :=
  BaseBytes types tables type table.baseInstanceSize

omit [DecidableEq α] in
theorem Based.lasting : Lasting (Based types) := by
  intro before after type table based kept
  refine ⟨based.root, fun parent inherits => ?_⟩
  obtain ⟨parentTable, present, complete, size⟩ := based.base parent inherits
  exact ⟨parentTable, kept parent parentTable present complete, complete, size⟩

theorem typePrepare_based (acyclic : Acyclic types) (fuel : Nat) :
    Prepares types (WhenComplete (Based types)) (typePrepare types fuel) :=
  typePrepare_prepares Based.lasting.whenComplete (fun _ _ => nofun) (fun _ _ _ => nofun)
    (fun _ _ _ _ _ base _ => base acyclic) fuel

structure Settled (types : α → TypeInfo α) (tables : MethodTables α) : Prop where
  complete : ∀ type table, tables type = some table → table.state = .complete
  based : AllComplete (Based types) tables
  arranged : AllTables (fun type table => Arranged (types type) table) tables

/-- In every run all tables are complete, and they fit to each other. -/
theorem typeMachine_settled (acyclic : Acyclic types)
    (run : (typeMachine types).Run labels tables) :
    Settled types tables := by
  obtain ⟨complete, based⟩ := Throughout.reached (typePrepare_based acyclic) run
  exact ⟨complete, based, (Throughout.reached typePrepare_arranged run).2⟩

omit [DecidableEq α] in
/-- The instances of a base end before the own fields of a type begin. -/
theorem Settled.base_le (settled : Settled types tables) (present : tables type = some table)
    (inherits : Inherits types type next)
    (chain : Relation.ReflTransGen (Inherits types) next owner) :
    ∃ ownerTable, tables owner = some ownerTable ∧
      ownerTable.instanceBytes ≤ table.baseInstanceSize := by
  induction chain using Relation.ReflTransGen.head_induction_on generalizing type table with
  | refl =>
    obtain ⟨ownerTable, found, -, size⟩ :=
      (settled.based type table present (settled.complete _ _ present)).base _ inherits
    exact ⟨ownerTable, found, size.ge⟩
  | head above chain ih =>
    obtain ⟨nextTable, found, complete, size⟩ :=
      (settled.based type table present (settled.complete _ _ present)).base _ inherits
    obtain ⟨ownerTable, ownerFound, less⟩ := ih found above
    have room := (settled.arranged _ nextTable found).room complete
    exact ⟨ownerTable, ownerFound, by omega⟩

end Hierarchy

end Zapada.Zaclr
