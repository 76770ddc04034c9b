import Zapada.Zaclr.TypePrepare

namespace Zapada.Zaclr

open Foundation Function MethodTable Option

section Growth

variable {α : Type} {types : α → TypeInfo α}

/-- Two fields are in order if those of one type are, and those of its base come before them. -/
theorem FieldAbove.ordered
    {ahead : FieldAbove types (Inherits types) type → FieldAbove types (Inherits types) type → Prop}
    (own : ∀ one other, one.owner = other.owner → one.index < other.index → ahead one other)
    (base : ∀ one other, Relation.ReflTransGen (Inherits types) one.owner other.owner →
      other.owner ≠ one.owner → ahead other one)
      (one other : FieldAbove types (Inherits types) type)
    (different : (one.owner, one.index) ≠ (other.owner, other.index)) :
    ahead one other ∨ ahead other one := by
  by_cases same : one.owner = other.owner
  · have indexes : one.index ≠ other.index := fun equal => different (by rw [same, equal])
    rcases Nat.lt_or_gt_of_ne indexes with before | after
    · exact .inl (own one other same before)
    · exact .inr (own other one same.symm after)
  · have unique : Relator.RightUnique (Inherits types) := fun _ _ _ first second =>
      some.inj (first.symm.trans second)
    rcases Relation.ReflTransGen.total_of_right_unique unique one.inherited
      other.inherited with chain | chain
    · exact .inr (base one other chain (Ne.symm same))
    · exact .inl (base other one chain same)

/-- Tables are only added, and complete ones. -/
structure Grows (before after : MethodTables α) : Prop where
  kept : ∀ type table, before type = some table → after type = some table
  fresh : ∀ type table, after type = some table → table.state ≠ .complete → before type = some table

theorem Grows.refl (tables : MethodTables α) : Grows tables tables :=
  ⟨fun _ _ => id, fun _ _ present _ => present⟩

theorem Grows.trans {first second third : MethodTables α} (earlier : Grows first second)
    (later : Grows second third) : Grows first third where
  kept type table present := later.kept type table (earlier.kept type table present)
  fresh type table present pending :=
    earlier.fresh type table (later.fresh type table present pending) pending

variable (types) in
/-- What is being prepared asks for the type. -/
def Pending (tables : MethodTables α) (type : α) : Prop :=
  ∀ other table, tables other = some table → table.state ≠ .complete → Reaches types other type

theorem Pending.grows (pending : Pending types before type)
    (grows : Grows before after) : Pending types after type :=
  fun other table present incomplete =>
    pending other table (grows.fresh other table present incomplete) incomplete

theorem Pending.uses (pending : Pending types tables type)
    (uses : Uses types type other) : Pending types tables other :=
  fun origin table present incomplete => (pending origin table present incomplete).tail uses

theorem Pending.update [DecidableEq α] (pending : Pending types tables type)
    (new : Option (MethodTable α)) : Pending types (update tables type new) type := by
  intro other table present incomplete
  by_cases here : other = type
  · exact here ▸ .refl
  · rw [update_of_ne here] at present
    exact pending other table present incomplete

/-- A table that was not there is complete after it has been begun twice. -/
theorem Grows.filled [DecidableEq α] {tables based laid : MethodTables α}
    (absent : tables type = none) (first : Grows (update tables type begun) based)
    (second : Grows (update based type started) laid) (complete : new.state = .complete) :
    Grows tables (update laid type (some new)) where
  kept other table present := by
    have different : other ≠ type := by
      rintro rfl
      rw [absent] at present
      cases present
    rw [update_of_ne different]
    apply second.kept
    rw [update_of_ne different]
    apply first.kept
    rwa [update_of_ne different]
  fresh other table present incomplete := by
    have different : other ≠ type := by
      rintro rfl
      rw [update_self, some.injEq] at present
      exact incomplete (present ▸ complete)
    rw [update_of_ne different] at present
    have middle := second.fresh other table present incomplete
    rw [update_of_ne different] at middle
    have before := first.fresh other table middle incomplete
    rwa [update_of_ne different] at before

end Growth

section Preparing

variable {α : Type} [DecidableEq α] {types : α → TypeInfo α}
  {holds : MethodTables α → α → MethodTable α → Prop}

/-- A property of a table that only looks at complete ones. -/
def Lasting (holds : MethodTables α → α → MethodTable α → Prop) : Prop :=
  ∀ before after type table, holds before type table →
    (∀ other table, before other = some table → table.state = .complete →
      after other = some table) →
    holds after type table

/-- A property of all tables, also of those that are being prepared. -/
def Throughout (holds : MethodTables α → α → MethodTable α → Prop)
    (tables : MethodTables α) : Prop :=
  ∀ type table, tables type = some table → holds tables type table

def AllComplete (holds : MethodTables α → α → MethodTable α → Prop)
    (tables : MethodTables α) : Prop :=
  ∀ type table, tables type = some table → table.state = .complete → holds tables type table

def WhenComplete (holds : MethodTables α → α → MethodTable α → Prop)
    (tables : MethodTables α) (type : α)
    (table : MethodTable α) : Prop := table.state = .complete → holds tables type table

omit [DecidableEq α] in
theorem Lasting.whenComplete (lasting : Lasting holds) : Lasting (WhenComplete holds) :=
  fun _ _ _ _ held kept complete => lasting _ _ _ _ (held complete) kept

def AllTables (holds : α → MethodTable α → Prop) (tables : MethodTables α) : Prop :=
  ∀ type table, tables type = some table → holds type table

theorem Throughout.update (lasting : Lasting holds) (all : Throughout holds tables)
    (incomplete : ∀ table, tables type = some table → table.state ≠ .complete)
    (fresh : holds tables type new) :
    Throughout holds (Function.update tables type (some new)) := by
  have kept : ∀ other table, tables other = some table → table.state = .complete →
      Function.update tables type (some new) other = some table := by
    intro other table present complete
    have different : other ≠ type := by
      rintro rfl
      exact incomplete table present complete
    rwa [update_of_ne different]
  intro other table present
  by_cases here : other = type
  · subst here
    rw [update_self] at present
    cases present
    exact lasting _ _ _ _ fresh kept
  · rw [update_of_ne here] at present
    exact lasting _ _ _ _ (all other table present) kept

variable (types) in
/-- What a call that prepares a type does to the tables. -/
def Prepares (holds : MethodTables α → α → MethodTable α → Prop)
    (prepare : MethodTables α → α → Option (MethodTables α)) : Prop :=
  ∀ tables type tables', prepare tables type = some tables' → Throughout holds tables →
    Pending types tables type →
    Grows tables tables' ∧ Throughout holds tables' ∧ ∃ table, tables' type = some table

variable (types) in
/-- No type inherits from itself, not even through the types of fields. -/
def Acyclic : Prop := ∀ type parent, (types type).parent = some parent → ¬ Reaches types parent type

variable (types) in
/-- So many bytes are taken by the fields of the base. -/
structure BaseBytes (tables : MethodTables α) (type : α) (bytes : Nat) : Prop where
  root : (types type).parent = none → bytes = 0
  base : ∀ parent, (types type).parent = some parent →
    ∃ parentTable, tables parent = some parentTable ∧
    parentTable.state = .complete ∧ bytes = parentTable.instanceBytes

omit [DecidableEq α] in
/-- The base of a type is complete when its fields are laid out, if it does not ask for the type. -/
theorem resolveParent_prepares (spec : Prepares types holds prepare)
    (done : resolveParentMethodTable prepare tables (types type).parent = some tables')
    (all : Throughout holds tables) (pending : Pending types tables type) :
    Grows tables tables' ∧ Throughout holds tables' ∧ (Acyclic types →
      BaseBytes types tables' type (((types type).parent.bind tables').elim 0 instanceBytes)) := by
  cases inherits : (types type).parent with
  | none =>
    simp only [inherits, resolveParentMethodTable] at done
    cases done
    exact ⟨.refl tables, all, fun _ => ⟨fun _ => rfl, by simp [inherits]⟩⟩
  | some parent =>
    simp only [inherits, resolveParentMethodTable] at done
    obtain ⟨grows, allAfter, table, present⟩ :=
      spec tables parent tables' done all (pending.uses (.inl inherits))
    refine ⟨grows, allAfter, fun acyclic => ⟨by simp [inherits], ?_⟩⟩
    have complete : table.state = .complete := by
      by_contra incomplete
      exact acyclic type parent inherits
        (pending parent table (grows.fresh parent table present incomplete) incomplete)
    rw [inherits]
    rintro other ⟨⟩
    exact ⟨table, present, complete, by simp [present]⟩

variable (types) in
/-- The size and the alignment of a field, whose type has been asked for. -/
def fieldExtent (tables : MethodTables α) (field : FieldDesc α) : Option (Nat × Nat) :=
  field.signature.bind fun signature =>
    if signature.elementType = ElementType.valuetype then
      field.nested.bind (nestedExtent types tables field.isStatic)
    else some (elementExtent signature.elementType)

omit [DecidableEq α] in
/-- The pass asks for the type of its first field, and ends there or goes on behind it. -/
theorem layoutFields_cons
    (done : layoutFields types prepare (field :: rest) tables progress = some (tables', result)) :
    ∃ middle, (field.valueType = none ∧ middle = tables ∨
        ∃ nested, field.valueType = some nested ∧ prepare tables nested = some middle) ∧
      (tables' = middle ∧ result = none ∧ fieldExtent types middle field = none ∨
        ∃ signature size alignment, field.signature = some signature ∧
          fieldExtent types middle field = some (size, alignment) ∧
            layoutFields types prepare rest middle
            (progress.place field.row field.isStatic signature size alignment) =
              some (tables', result)) := by
  rw [layoutFields] at done
  split at done
  · rename_i unsigned
    cases done
    have none : field.valueType = none := by
      simp [FieldDesc.valueType, FieldDesc.elementType, unsigned, ElementType.valuetype]
    exact ⟨_, .inl ⟨none, rfl⟩, .inl ⟨rfl, rfl, by simp [fieldExtent, unsigned]⟩⟩
  · rename_i signature signed
    have element : field.elementType = signature.elementType := by
      simp [FieldDesc.elementType, signed]
    split at done
    · rename_i isValue
      have valueType : field.valueType = field.nested := by
        simp [FieldDesc.valueType, element, isValue]
      simp only [valueType, fieldExtent, signed, bind_some, if_pos isValue]
      split at done
      · rename_i unresolved
        cases done
        exact ⟨_, .inl ⟨unresolved, rfl⟩, .inl ⟨rfl, rfl, by simp [unresolved]⟩⟩
      · rename_i nested found
        simp only [found, bind_some]
        split at done
        · cases done
        · rename_i middle prepared
          refine ⟨middle, .inr ⟨nested, rfl, prepared⟩, ?_⟩
          split at done
          · rename_i fails
            cases done
            exact .inl ⟨rfl, rfl, fails⟩
          · rename_i size alignment extent
            exact .inr ⟨signature, size, alignment, rfl, extent, done⟩
    · rename_i notValue
      exact ⟨tables, .inl ⟨by simp [FieldDesc.valueType, element, notValue], rfl⟩,
        .inr ⟨signature, _, _, signed, by simp [fieldExtent, signed, notValue], done⟩⟩

variable (types) in
/-- The tables that a field of a type is laid out with, seen from those after the pass. -/
structure Seen (holds : MethodTables α → α → MethodTable α → Prop) (type : α)
    (tables' : MethodTables α)
    (field : FieldDesc α) (tables : MethodTables α) : Prop where
  grows : Grows tables tables'
  all : Throughout holds tables
  pending : Pending types tables type
  present : ∀ nested, field.valueType = some nested → ∃ table, tables nested = some table

variable (types) in
/-- What the pass over the fields of a type places, up to one that fails. -/
inductive LaidFields (holds : MethodTables α → α → MethodTable α → Prop) (type : α)
    (tables' : MethodTables α) :
    List (FieldDesc α) → LayoutProgress → Option LayoutProgress → Prop where
  | nil : LaidFields holds type tables' [] progress (some progress)
  | stop (seen : Seen types holds type tables' field tables) (fails : fieldExtent types tables field = none) :
      LaidFields holds type tables' (field :: fields) progress none
  | cons (seen : Seen types holds type tables' field tables) (signed : field.signature = some signature)
      (extent : fieldExtent types tables field = some (size, alignment))
      (rest : LaidFields holds type tables' fields
        (progress.place field.row field.isStatic signature size alignment) result) :
      LaidFields holds type tables' (field :: fields) progress result

omit [DecidableEq α] in
theorem layoutFields_prepares (spec : Prepares types holds prepare)
    (subset : ∀ field ∈ fields, field ∈ (types type).fields)
    (done : layoutFields types prepare fields tables progress = some (tables', result))
    (all : Throughout holds tables) (pending : Pending types tables type) :
    Grows tables tables' ∧ Throughout holds tables' ∧
      LaidFields types holds type tables' fields progress result := by
  induction fields generalizing tables progress with
  | nil =>
    simp only [layoutFields, some.injEq, Prod.mk.injEq] at done
    obtain ⟨rfl, rfl⟩ := done
    exact ⟨.refl tables, all, .nil⟩
  | cons field rest ih =>
    obtain ⟨middle, asked, ended⟩ := layoutFields_cons done
    have step : Grows tables middle ∧ Throughout holds middle ∧
        ∀ nested, field.valueType = some nested → ∃ table, middle nested = some table := by
      rcases asked with ⟨none, rfl⟩ | ⟨nested, isValue, prepared⟩
      · exact ⟨.refl _, all, by simp [none]⟩
      · obtain ⟨grows, allMiddle, present⟩ := spec tables nested middle prepared all
          (pending.uses (.inr ⟨field, subset field (by simp), isValue⟩))
        exact ⟨grows, allMiddle, by simpa [isValue] using present⟩
    obtain ⟨grows, allMiddle, present⟩ := step
    have pendingMiddle := pending.grows grows
    rcases ended with ⟨rfl, rfl, fails⟩ | ⟨signature, size, alignment, signed, extent, done⟩
    · exact ⟨grows, allMiddle, .stop ⟨.refl _, allMiddle, pendingMiddle, present⟩ fails⟩
    · obtain ⟨later, allAfter, laid⟩ :=
        ih (fun other member => subset other (by simp [member])) done allMiddle
        pendingMiddle
      exact ⟨grows.trans later, allAfter, .cons ⟨later, allMiddle, pendingMiddle, present⟩ signed
        extent laid⟩

/-- Preparing a type keeps a lasting property that a table has when it is begun, and when it is
finished from the pass over the fields. -/
theorem typePrepare_prepares (lasting : Lasting holds)
    (begun : ∀ tables type, holds tables type allocated)
    (started : ∀ tables type bytes, holds tables type (startTable (types type) bytes))
    (finished : ∀ tables type bytes fields,
      LaidFields types holds type tables (types type).fields ⟨bytes, 1, [], [], 0⟩ fields →
      (Acyclic types → BaseBytes types tables type bytes) →
        holds tables type (finishTable (types type) bytes fields))
    (fuel : Nat) : Prepares types holds (typePrepare types fuel) := by
  induction fuel with
  | zero =>
    intro tables type tables' done
    cases done
  | succ fuel ih =>
    intro tables type tables' done all pending
    rw [typePrepare] at done
    split at done
    · rename_i present
      cases done
      exact ⟨.refl tables, all, isSome_iff_exists.mp present⟩
    · rename_i absent
      have none : tables type = none := by simpa using absent
      obtain ⟨based, resolved, done⟩ := bind_eq_some_iff.mp done
      obtain ⟨⟨laid, fields⟩, layout, done⟩ := bind_eq_some_iff.mp done
      cases done
      -- the tables while the base is resolved
      have pendingBegun := pending.update (some allocated)
      obtain ⟨growsBased, allBased, bytes⟩ := resolveParent_prepares ih resolved
        (all.update lasting (by simp [none]) (begun _ _)) pendingBegun
      have hereBased : based type = some allocated := growsBased.kept _ _ (update_self ..)
      -- the tables while the fields are laid out
      generalize ((types type).parent.bind based).elim 0 instanceBytes = base at layout bytes ⊢
      obtain ⟨growsLaid, allLaid, placed⟩ := layoutFields_prepares ih (fun _ => id) layout
        (allBased.update lasting (by simp [hereBased, allocated]) (started _ _ _))
        ((pendingBegun.grows growsBased).update _)
      have hereLaid : laid type = some (startTable (types type) base) :=
        growsLaid.kept _ _ (update_self ..)
      have bytesLaid : Acyclic types → BaseBytes types laid type base := by
        intro acyclic
        refine ⟨(bytes acyclic).root, fun parent inherits => ?_⟩
        have different : parent ≠ type := by
          rintro rfl
          exact acyclic _ _ inherits .refl
        obtain ⟨parentTable, present, complete, size⟩ := (bytes acyclic).base parent inherits
        refine ⟨parentTable, growsLaid.kept _ _ ?_, complete, size⟩
        rwa [update_of_ne different]
      have allAfter := allLaid.update lasting (by simp [hereLaid, startTable, allocated])
        (finished _ _ _ _ placed bytesLaid)
      exact ⟨.filled none growsBased growsLaid rfl, allAfter, _, update_self ..⟩

/-- Between two preparations all tables are complete and have what preparing a type keeps. -/
theorem Throughout.reached (spec : ∀ fuel, Prepares types holds (typePrepare types fuel))
    (run : (typeMachine types).Run labels tables) :
    (∀ type table, tables type = some table → table.state = .complete) ∧
      Throughout holds tables := by
  have rule : (typeMachine types).Inductive fun tables =>
      (∀ type table, tables type = some table → table.state = .complete) ∧
        Throughout holds tables :=
    { initially := by
        rintro _ rfl
        exact ⟨fun _ _ present => (by cases present), fun _ _ present => (by cases present)⟩
      preserved := by
        rintro before ⟨fuel, type⟩ after ⟨complete, all⟩ taken
        have pending : Pending types before type :=
          fun other table present incomplete => absurd (complete other table present) incomplete
        obtain ⟨grows, allAfter, -⟩ := spec fuel before type after taken all pending
        refine ⟨fun other table present => ?_, allAfter⟩
        by_contra incomplete
        exact incomplete (complete other table (grows.fresh other table present incomplete)) }
  exact rule.reached run

end Preparing

end Zapada.Zaclr
