import Zapada.Zaclr.Assemblies
import Zapada.Zaclr.PreparedTables

namespace Zapada.Zaclr

open Foundation List Option

def fieldTable : Nat := 0x04

section Lookup

variable {α : Type} (tables : MethodTables α) (token : Nat)

/-- The place of the layout in the table. -/
def findInstanceFieldLayoutInMethodTable (table : MethodTable α) : Option Nat :=
  if tokenMatchesTable token fieldTable then
    table.instanceFields.findIdx? fun layout =>
      !layout.isStatic && layout.fieldTokenRow = tokenRow token
  else none

/-- `find_field_layout` for an object of a type with at most `fuel` bases: the type in whose table
the layout is, and its place there. -/
def findFieldLayout : (fuel : Nat) → Option α → Option (α × Nat)
  | 0, _ | _, none => none
  | fuel + 1, some type =>
    match tables type with
    | none => none
    | some table =>
      match findInstanceFieldLayoutInMethodTable token table with
      | some index => some (type, index)
      | none => findFieldLayout fuel table.parent

end Lookup

/-- The layout of a field, in the table of the type that declares it. -/
def FieldAbove.layout {types : α → TypeInfo α} {above : α → α → Prop} {type : α}
    (field : FieldAbove types above type) (tables : MethodTables α) : Option FieldLayout :=
  (tables field.owner).bind fun table => table.instanceFields[field.index]?

/-- No type that comes before the owner on the way up from the object's type has a field with the
same row. -/
def NotHidden (types : α → TypeInfo α) (tables : MethodTables α) (type owner : α)
    (row : Nat) : Prop :=
  ∀ derived table, Relation.ReflTransGen (Inherits types) type derived →
    Relation.TransGen (Inherits types) derived owner →
    tables derived = some table → ∀ layout ∈ table.instanceFields, layout.fieldTokenRow ≠ row

/-- The bases that are resolved lead from the object's type to the owner, and do not hide the
field. -/
def Reachable (types : α → TypeInfo α) (tables : MethodTables α) (type owner : α)
    (row : Nat) : Prop :=
  Relation.ReflTransGen (Inherits types) type owner ∧ NotHidden types tables type owner row

/-- The fields of a type have rows of their own. -/
def OwnRows (types : α → TypeInfo α) : Prop := ∀ type, ((types type).fields.map (·.row)).Nodup

section Tables

variable {α : Type} {types : α → TypeInfo α} {table : MethodTable α}

section

variable {type : α} (arranged : Arranged (types type) table)

include arranged

theorem Arranged.rows (some : table.instanceFields ≠ []) :
    table.instanceFields.map (·.fieldTokenRow) = (instanceFields types type).map (·.row) := by
  rcases arranged.described with none | described
  · exact absurd none some
  · have same :
        List.Forall₂ (fun layout field => layout.fieldTokenRow = field.row) table.instanceFields
        (instanceFields types type) := described.imp fun _ _ of => of.row
    rwa [← forall₂_eq_eq_eq, forall₂_map_left_iff, forall₂_map_right_iff]

theorem Arranged.notStatic : ∀ layout ∈ table.instanceFields, layout.isStatic = false := by
  intro layout member
  rcases arranged.described with none | described
  · simp [none] at member
  · have both :
        List.Forall₂ (fun layout field => layout.isStatic = false ∧ layout.Of field)
          table.instanceFields
        (instanceFields types type) := described.imp fun _ _ of => ⟨of.notStatic, of⟩
    exact ((forall₂_and_left _ _).mp both).1 layout member

theorem findInstance_none_iff (named : tokenMatchesTable token fieldTable = true) :
    findInstanceFieldLayoutInMethodTable token table = none ↔
      ∀ layout ∈ table.instanceFields, layout.fieldTokenRow ≠ tokenRow token := by
  simp only [findInstanceFieldLayoutInMethodTable, named, if_true, findIdx?_eq_none_iff]
  constructor
  · intro unlike layout member same
    have negative := unlike layout member
    simp [arranged.notStatic layout member, same] at negative
  · intro unlike layout member
    simp [unlike layout member]

/-- A search in the table of the owner finds the field. -/
theorem findInstance_own (own : OwnRows types) (named : tokenMatchesTable token fieldTable = true)
    (found : (instanceFields types type)[index]? = some desc)
    (row : tokenRow token = desc.row) (present : table.instanceFields[index]? = some layout) :
    findInstanceFieldLayoutInMethodTable token table = some index := by
  obtain ⟨inside, isLayout⟩ := List.getElem?_eq_some_iff.mp present
  have rows := arranged.rows (ne_nil_of_length_pos (Nat.zero_lt_of_lt inside))
  have distinct : (table.instanceFields.map (·.fieldTokenRow)).Nodup := by
    rw [rows]
    exact (own type).sublist (filter_sublist.map _)
  have here : table.instanceFields[index].fieldTokenRow = tokenRow token := by
    have listed := congrArg (·[index]?) rows
    simp only [List.getElem?_map, found, present, map_some, some.injEq] at listed
    rw [isLayout, listed, row]
  simp only [findInstanceFieldLayoutInMethodTable, named, if_true, findIdx?_eq_some_iff_getElem]
  refine ⟨inside, ?_, fun earlier before same => ?_⟩
  · simp [arranged.notStatic _ (getElem_mem inside), here]
  · simp only [Bool.and_eq_true, decide_eq_true_eq] at same
    have equal : (table.instanceFields.map (·.fieldTokenRow))[index]? =
        (table.instanceFields.map (·.fieldTokenRow))[earlier]? := by
      simp [List.getElem?_eq_getElem inside, List.getElem?_eq_getElem (Nat.lt_trans before inside),
        same.2, here]
    have := (List.getElem?_inj (by simpa using inside) distinct).mp equal
    omega

end

theorem Inherits.reaches (chain : Relation.ReflTransGen (Inherits types) type owner) :
    Reaches types type owner :=
  Relation.ReflTransGen.mono (fun _ _ inherits => Or.inl inherits) _ _ chain

theorem Acyclic.ne (acyclic : Acyclic types) (inherits : Inherits types type base)
    (chain : Relation.ReflTransGen (Inherits types) base owner) : type ≠ owner := by
  rintro rfl
  exact acyclic type base inherits (Inherits.reaches chain)

variable {tables : MethodTables α}

theorem NotHidden.self (acyclic : Acyclic types) : NotHidden types tables owner owner row := by
  intro derived table up down
  obtain ⟨next, inherits, chain⟩ := Relation.TransGen.head'_iff.mp down
  exact absurd rfl (acyclic.ne inherits (chain.trans up))

/-- A field is not hidden if it is neither by the type of the object nor from its base on. -/
theorem NotHidden.step_iff (present : tables type = some table)
    (inherits : Inherits types type base)
    (chain : Relation.ReflTransGen (Inherits types) base owner) :
    NotHidden types tables type owner row ↔
      (∀ layout ∈ table.instanceFields, layout.fieldTokenRow ≠ row) ∧
        NotHidden types tables base owner row := by
  constructor
  · intro notHidden
    refine ⟨notHidden type table .refl (.head' inherits chain) present, fun derived found up => ?_⟩
    exact notHidden derived found (.head inherits up)
  · rintro ⟨here, above⟩ derived found up down known
    rcases Relation.ReflTransGen.cases_head up with rfl | ⟨base', inherits', up⟩
    · rw [present, some.injEq] at known
      exact known ▸ here
    · have same : base' = base := some.inj (inherits'.symm.trans inherits)
      exact above derived found (same ▸ up) down known

theorem findFieldLayout_iff (acyclic : Acyclic types) (own : OwnRows types)
    (settled : Settled types tables) (named : tokenMatchesTable token fieldTable = true)
    (found : (instanceFields types owner)[index]? = some desc)
    (row : tokenRow token = desc.row) (ownerPresent : tables owner = some ownerTable)
    (layoutPresent : ownerTable.instanceFields[index]? = some layout)
    (chain : Relation.ReflTransGen (Inherits types) type owner)
    (present : tables type = some table) :
    ∃ enough, ∀ fuel, enough ≤ fuel →
      (findFieldLayout tables token fuel (some type) = some (owner, index) ↔
        NotHidden types tables type owner desc.row) := by
  induction chain using Relation.ReflTransGen.head_induction_on generalizing table with
  | refl =>
    have here :=
      findInstance_own (settled.arranged owner ownerTable ownerPresent) own named found row
        layoutPresent
    refine ⟨1, fun fuel more => ?_⟩
    obtain ⟨fuel, rfl⟩ := Nat.exists_eq_add_of_le' more
    simp [findFieldLayout, ownerPresent, here, NotHidden.self acyclic]
  | @head type next inherits chain ih =>
    have arranged := settled.arranged type table present
    have complete := settled.complete type table present
    have parent : table.parent = some next := (arranged.parent complete).trans inherits
    obtain ⟨nextTable, nextPresent, -, -⟩ :=
      (settled.based type table present complete).base next inherits
    obtain ⟨enough, sufficient⟩ := ih nextPresent
    refine ⟨enough + 1, fun fuel more => ?_⟩
    obtain ⟨fuel, rfl⟩ : ∃ less, fuel = less + 1 := ⟨fuel - 1, by omega⟩
    rw [NotHidden.step_iff present inherits chain, ← row,
      ← findInstance_none_iff arranged named, row,
      ← sufficient fuel (by omega)]
    cases here : findInstanceFieldLayoutInMethodTable token table with
    | none => simp [findFieldLayout, present, here, parent]
    | some other => simp [findFieldLayout, present, here, acyclic.ne inherits chain]

theorem findFieldLayout_sound (settled : Settled types tables)
    (found : findFieldLayout tables token fuel (some type) = some (owner, index)) :
    Relation.ReflTransGen (Inherits types) type owner ∧ ∃ table, tables owner = some table ∧
      findInstanceFieldLayoutInMethodTable token table = some index := by
  induction fuel generalizing type with
  | zero => cases found
  | succ fuel ih =>
    cases present : tables type with
    | none => simp [findFieldLayout, present] at found
    | some table =>
      cases here : findInstanceFieldLayoutInMethodTable token table with
      | some place =>
        simp only [findFieldLayout, present, here] at found
        cases found
        exact ⟨.refl, table, present, here⟩
      | none =>
        simp only [findFieldLayout, present, here] at found
        cases inherits : table.parent with
        | none => cases fuel <;> simp [inherits, findFieldLayout] at found
        | some next =>
          rw [inherits] at found
          obtain ⟨chain, result⟩ := ih found
          have complete := settled.complete type table present
          have parent := (settled.arranged type table present).parent complete
          exact ⟨.head (parent.symm.trans inherits) chain, result⟩

/-- The search ends at a field that has been laid out just if it is reachable. -/
theorem findFieldLayout_reachable_iff (acyclic : Acyclic types) (own : OwnRows types)
    (settled : Settled types tables) (named : tokenMatchesTable token fieldTable = true)
    (field : InstanceField types type) (row : tokenRow token = field.desc.row)
    (laid : (field.layout tables).isSome) (present : tables type = some table) :
    ∃ enough, ∀ fuel, enough ≤ fuel →
      (findFieldLayout tables token fuel (some type) = some (field.owner, field.index) ↔
        Reachable types tables type field.owner field.desc.row) := by
  obtain ⟨layout, laid⟩ := isSome_iff_exists.mp laid
  obtain ⟨ownerTable, ownerPresent, layoutPresent⟩ := bind_eq_some_iff.mp laid
  by_cases chain : Relation.ReflTransGen (Inherits types) type field.owner
  · obtain ⟨enough, found⟩ :=
      findFieldLayout_iff acyclic own settled named field.found row ownerPresent
      layoutPresent chain present
    exact ⟨enough, fun fuel more => (found fuel more).trans (by simp [Reachable, chain])⟩
  · refine ⟨0, fun fuel _ => ⟨fun found => ?_, fun reachable => absurd reachable.1 chain⟩⟩
    exact absurd (findFieldLayout_sound settled found).1 chain

end Tables

/-- The token of a field, as code of its own assembly has it, leads to the layout of the field just
if the resolved bases lead to its owner, and none before it has a field with the same row. -/
theorem field_lookup_iff {α : Type} [DecidableEq α] (types : α → TypeInfo α)
    (acyclic : Acyclic types) (own : OwnRows types) (labels : List (Nat × α))
    (tables : MethodTables α) (run : (typeMachine types).Run labels tables) (type : α)
    (table : MethodTable α) (present : tables type = some table) (field : InstanceField types type)
    (laid : (field.layout tables).isSome) (token : Nat)
    (named : tokenMatchesTable token fieldTable = true) (row : tokenRow token = field.desc.row) :
    ∃ enough, ∀ fuel, enough ≤ fuel →
      (findFieldLayout tables token fuel (some type) = some (field.owner, field.index) ↔
        Reachable types tables type field.owner field.desc.row) :=
  findFieldLayout_reachable_iff acyclic own (typeMachine_settled acyclic run) named _ row
    laid present

/-- A base class with a field in row 1 of its assembly, and a class of another assembly with a
field in some row of that one. -/
def twoClasses (row : Nat) : Bool → TypeInfo Bool
  | false => { parent := none, isEnum := false, enumUnderlying := none, fields := [intField 1] }
  | true =>
    { parent := some false, isEnum := false, enumUnderlying := none, fields := [intField row] }
where
  intField (row : Nat) : FieldDesc Bool :=
    { row
      isStatic := false
      signature := some { elementType := 0x08, typeToken := 0, genericParamIndex := 0, flags := 0 }
      nested := none }

namespace twoClasses

theorem acyclic : Acyclic (twoClasses row) := by
  intro type parent inherits reaches
  cases type with
  | false => cases inherits
  | true =>
    cases inherits
    rcases Relation.ReflTransGen.cases_head reaches with same | ⟨next, uses, -⟩
    · cases same
    · rcases uses with base | ⟨field, member, value⟩
      · cases base
      · simp only [twoClasses, mem_singleton] at member
        subst member
        cases value

theorem ownRows : OwnRows (twoClasses row) := by
  intro type
  cases type <;> simp [twoClasses]

/-- The field of the base in an instance of the class. -/
def baseField : InstanceField (twoClasses row) true where
  owner := false
  index := 0
  inherited := .single rfl
  desc := intField 1
  found := rfl

def prepared (row : Nat) : MethodTables Bool :=
  (typePrepare (twoClasses row) 2 (fun _ => none) true).getD fun _ => none

theorem run (row : Nat) : (typeMachine (twoClasses row)).Run [(2, true)] (prepared row) := by
  have isSome : (typePrepare (twoClasses row) 2 (fun _ => none) true).isSome = true := rfl
  obtain ⟨tables, done⟩ := isSome_iff_exists.mp isSome
  have same : prepared row = tables := by simp [prepared, done]
  rw [same]
  exact Machine.Run.ofExecution [(2, true)] (by simp [done])

theorem base_field_found : ∃ enough, ∀ fuel, enough ≤ fuel →
    (findFieldLayout (prepared 2) 0x04000001 fuel (some true) = some (false, 0) ↔
      Reachable (twoClasses 2) (prepared 2) true false 1) := by
  obtain ⟨table, present⟩ :=
    isSome_iff_exists.mp (by decide : (prepared 2 true).isSome = true)
  exact field_lookup_iff (twoClasses 2) acyclic ownRows [(2, true)] (prepared 2) (run 2) true table
    present baseField (by decide) 0x04000001 (by decide) (by decide)

/-- The token of the base's field leads to the field of the other class. -/
theorem base_field_hidden :
    findFieldLayout (prepared 1) 0x04000001 2 (some true) = some (true, 0) := by
  decide

end twoClasses

end Zapada.Zaclr
