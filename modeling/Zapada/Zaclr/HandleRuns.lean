import Zapada.Foundation.Machine
import Zapada.Zaclr.HandleTable

namespace Zapada.Zaclr

open Foundation HandleTable Option

/-- What a program may expect of one handle: the object it stored last. -/
structure HandleCell where
  value : Int
  kind : GcHandleKind
  content : Nat
  live : Bool

/-- The table, and the handles in the order of their allocation. -/
structure HandleSystem where
  table : HandleTable
  cells : List HandleCell

/-- An operation names a handle by its place in the order of allocations. A collection
marks the objects it finds reachable and frees some of the others. -/
inductive HandleEvent where
  | alloc (object : Nat) (type : Int) (allocated : Nat)
  | get (id : Nat)
  | set (id object : Nat)
  | compareExchange (id object comparand : Nat)
  | free (id : Nat)
  | collect (marked freed : Nat → Bool)

/-- A weak handle loses an object that was collected. -/
def HandleCell.collect (marked freed : Nat → Bool) (cell : HandleCell) : HandleCell :=
  if cell.content ≠ 0 ∧ ((cell.kind = .weak ∧ ¬ marked cell.content) ∨
      (cell.kind = .weakTrackResurrection ∧ freed cell.content)) then
    { cell with content := 0 }
  else cell

namespace HandleSystem

def update (system : HandleSystem) (table : HandleTable) (id : Nat)
    (change : HandleCell → HandleCell) : HandleSystem :=
  { table, cells := system.cells.modify id change }

def step (system : HandleSystem) : HandleEvent → Option HandleSystem
  | .alloc object type allocated =>
    match HandleTable.kindOfType type, system.table.internalAlloc object type allocated with
    | some kind, some (value, table) =>
      some { table, cells := system.cells ++ [{ value, kind, content := object, live := true }] }
    | _, _ => some system
  | .get id => if id < system.cells.length then some system else none
  | .set id object =>
    match system.cells[id]? with
    | none => none
    | some cell =>
      match system.table.internalSet cell.value object with
      | none => some system
      | some table => some (system.update table id ({ · with content := object }))
  | .compareExchange id object comparand =>
    match system.cells[id]? with
    | none => none
    | some cell =>
      match system.table.internalCompareExchange cell.value object comparand with
      | none => some system
      | some (_, table) => some (system.update table id fun cell =>
          if cell.content = comparand then { cell with content := object } else cell)
  | .free id =>
    match system.cells[id]? with
    | none => none
    | some cell =>
      some (system.update (system.table.internalFree cell.value).2 id ({ · with live := false }))
  | .collect marked freed =>
    some { table := (system.table.clearShortWeakHandles marked).clearLongWeakHandles,
           cells := system.cells.map (·.collect marked freed) }

end HandleSystem

/-- Where the kernel heap can put a table. -/
def HandleTable.Addressable (address capacity : Nat) : Prop :=
  address + capacity * gcHandleEntrySize ≤ 2 ^ 63

instance (address capacity : Nat) : Decidable (HandleTable.Addressable address capacity) :=
  inferInstanceAs (Decidable (address + capacity * gcHandleEntrySize ≤ 2 ^ 63))

def handleMachine : Machine HandleSystem HandleEvent where
  initial system := system.cells = [] ∧ system.table.entries = [] ∧
    HandleTable.Addressable system.table.address system.table.capacity ∧
    (system.table.address = 0 → system.table.capacity = 0)
  step before event after := before.step event = some after ∧
    ∀ object type allocated, event = .alloc object type allocated →
      HandleTable.Addressable allocated before.table.grownCapacity

/-- The condition on a step: an allocation finds no entry for its object and kind and does not
move the table under live handles, an operation is on a live handle, and a collection frees no
object of a live handle that tracks resurrection. -/
def separate (system : HandleSystem) : HandleEvent → Prop
  | .alloc object type _ =>
    (∀ kind, HandleTable.kindOfType type = some kind → system.table.findEqual object kind = none) ∧
      (system.table.findFree ≠ none ∨ ¬ system.table.full ∨ ∀ cell ∈ system.cells, ¬ cell.live)
  | .get id | .set id _ | .compareExchange id _ _ | .free id =>
    ∀ cell, system.cells[id]? = some cell → cell.live
  | .collect _ freed => ∀ cell ∈ system.cells, cell.live →
      cell.kind = .weakTrackResurrection → cell.content ≠ 0 → ¬ freed cell.content

/-- Every live handle points to an entry of its own with its content. -/
structure Linked (system : HandleSystem) : Prop where
  room : system.table.count ≤ system.table.capacity
  placed : system.table.address = 0 → system.table.capacity = 0
  bounded : HandleTable.Addressable system.table.address system.table.capacity
  entry : ∀ (id : Nat) (cell : HandleCell), system.cells[id]? = some cell → cell.live →
    ∃ index, cell.value = system.table.pointer index ∧
      system.table.entries[index]? = some ⟨cell.content, cell.kind, true⟩
  distinct : ∀ (id id' : Nat) (cell cell' : HandleCell), system.cells[id]? = some cell →
    system.cells[id']? = some cell' → cell.live → cell'.live → id ≠ id' →
    cell.value ≠ cell'.value

namespace HandleTable

theorem pointer_injective (table : HandleTable)
    (same : (table.pointer index : Int) = table.pointer index') :
    index = index' := by
  simp only [pointer, gcHandleEntrySize] at same
  omega

theorem getEntry_pointer {table : HandleTable} (room : table.count ≤ table.capacity)
    (placed : table.address = 0 → table.capacity = 0)
    (found : table.entries[index]? = some entry) (allocated : entry.allocated) :
    table.getEntry (table.pointer index) = some (index, entry) := by
  have below : index < table.count := (List.getElem?_eq_some_iff.mp found).1
  have decoded : table.tryDecodeHandleTablePointer (table.pointer index) = some index := by
    have offset : table.pointer index - table.address = index * gcHandleEntrySize := by
      rw [pointer]
      omega
    unfold tryDecodeHandleTablePointer
    rw [Int.toNat_natCast, offset, Nat.mul_mod_left,
      Nat.mul_div_cancel index (by decide : 0 < gcHandleEntrySize), if_neg, if_neg,
        if_neg (by simp), if_pos below]
    · simp only [pointer, gcHandleEntrySize]
      omega
    · simp only [pointer, gcHandleEntrySize]
      omega
  unfold getEntry loadEntry
  simp [decoded, found, allocated]

/-- What an allocation that finds no equal entry does: it takes an entry not in use, and where
it moves the table there was no free one. -/
theorem storeEx_fresh {table after : HandleTable} (separate : table.findEqual handle kind = none)
    (room : table.count ≤ table.capacity)
    (stored : table.storeEx handle kind allocated = some (index, after)) :
    after.entries[index]? = some ⟨handle, kind, true⟩ ∧
    (∀ (other : Nat) (entry : GcHandleEntry), table.entries[other]? = some entry → entry.allocated →
      other ≠ index ∧ after.entries[other]? = some entry) ∧ after.count ≤ after.capacity ∧
    ((after.address = table.address ∧ after.capacity = table.capacity) ∨
      (table.findFree = none ∧ table.full ∧ after.address = allocated ∧ allocated ≠ 0 ∧
        after.capacity = table.grownCapacity)) := by
  rcases storeEx_cases stored with ⟨found, -⟩ | ⟨free, rfl⟩ | ⟨noFree, rfl, entries, place⟩
  · rw [separate] at found
    contradiction
  · obtain ⟨below, unused, _⟩ := List.findIdx?_eq_some_iff_getElem.mp free
    refine ⟨by simp [store, below], ?_, by simpa [store, count] using room, .inl ⟨rfl, rfl⟩⟩
    intro other entry found inUse
    have different : other ≠ index := by
      rintro rfl
      rw [List.getElem?_eq_getElem below, some.injEq] at found
      simp [found, inUse] at unused
    exact ⟨different, by rw [store, List.getElem?_set_ne different.symm, found]⟩
  · simp only [entries]
    refine ⟨by simp [count], ?_, ?_, ?_⟩
    · intro other entry found _
      have below : other < table.count := (List.getElem?_eq_some_iff.mp found).1
      exact ⟨by omega, by rw [List.getElem?_append_left below, found]⟩
    · simp only [count, entries, List.length_append, List.length_singleton] at room ⊢
      rcases place with ⟨vacant, -, capacity⟩ | ⟨-, larger, -, -, capacity⟩
      · have below : ¬ (table.address = 0 ∨ table.capacity ≤ table.entries.length) :=
          fun here => vacant (decide_eq_true here)
        omega
      · omega
    · rcases place with ⟨-, same⟩ | ⟨full, -, nonzero, address, capacity⟩
      · exact .inl same
      · exact .inr ⟨noFree, full, address, nonzero, capacity⟩

end HandleTable

namespace Linked

variable {system : HandleSystem} {id id' : Nat} {cell cell' : HandleCell} {written : GcHandleEntry}

section

variable (linked : Linked system) (found : system.cells[id]? = some cell) (live : cell.live)

include linked found live

/-- The handles other than the one that a step writes keep their entries. -/
theorem entry_of_ne (found' : system.cells[id']? = some cell') (live' : cell'.live)
    (different : id ≠ id') (placed : cell.value = system.table.pointer index) :
    ∃ index', index' ≠ index ∧ cell'.value = system.table.pointer index' ∧
      system.table.entries[index']? = some ⟨cell'.content, cell'.kind, true⟩ := by
  obtain ⟨index', placed', stored'⟩ := linked.entry id' cell' found' live'
  refine ⟨index', ?_, placed', stored'⟩
  rintro rfl
  exact linked.distinct id id' cell cell' found found' live live' different
    (placed.trans placed'.symm)

/-- A step that writes the entry of one live handle and the cell alike. -/
theorem update (placed : cell.value = system.table.pointer index)
    (below : index < system.table.count) (value : (change cell).value = cell.value)
    (same : (change cell).live → written = ⟨(change cell).content, (change cell).kind, true⟩) :
    Linked (system.update (system.table.store index written) id change) := by
  have read : ∀ other after, (system.cells.modify id change)[other]? = some after →
      (other = id ∧ after = change cell) ∨ (other ≠ id ∧ system.cells[other]? = some after) := by
    intro other after read
    by_cases here : id = other
    · subst here
      exact .inl ⟨rfl, by simpa [found, eq_comm] using read⟩
    · exact .inr ⟨fun same => here same.symm, by simpa [here] using read⟩
  refine ⟨by simpa [HandleSystem.update, store, count] using linked.room,
    linked.placed, linked.bounded, ?_, ?_⟩
  · intro other after readAfter alive
    rcases read other after readAfter with ⟨rfl, rfl⟩ | ⟨different, kept⟩
    · refine ⟨index, value.trans placed, ?_⟩
      simp only [HandleSystem.update, store]
      rw [List.getElem?_set_self below, same alive]
    · obtain ⟨index', apart, placed', stored'⟩ :=
        linked.entry_of_ne found live kept alive different.symm placed
      refine ⟨index', placed', ?_⟩
      simp only [HandleSystem.update, store]
      rw [List.getElem?_set_ne apart.symm, stored']
  · intro other other' after after' readAfter readAfter' alive alive' different
    rcases read other after readAfter with ⟨rfl, rfl⟩ | ⟨apart, kept⟩ <;>
      rcases read other' after' readAfter' with ⟨rfl, rfl⟩ | ⟨apart', kept'⟩
    · exact absurd rfl different
    · rw [value]
      exact linked.distinct _ _ _ _ found kept' live alive' different
    · rw [value]
      exact linked.distinct _ _ _ _ kept found alive live different
    · exact linked.distinct _ _ _ _ kept kept' alive alive' different

/-- A live handle resolves to an entry that a step may write with the cell alike. -/
theorem writes :
    ∃ index, system.table.getEntry cell.value = some (index, ⟨cell.content, cell.kind, true⟩) ∧
    system.table.store index ⟨cell.content, cell.kind, true⟩ = system.table ∧
    ∀ written change, (change cell).value = cell.value →
      ((change cell).live → written = ⟨(change cell).content, (change cell).kind, true⟩) →
      Linked (system.update (system.table.store index written) id change) := by
  obtain ⟨index, placed, stored⟩ := linked.entry id cell found live
  obtain ⟨below, same⟩ := List.getElem?_eq_some_iff.mp stored
  refine ⟨index, ?_, by rw [store, ← same, List.set_getElem_self], fun written change => ?_⟩
  · rw [placed]
    exact getEntry_pointer linked.room linked.placed stored rfl
  · exact linked.update found live placed below

end

/-- An allocation that is separate gives the new handle an entry of its own. -/
theorem alloc {table : HandleTable} (linked : Linked system)
    (separate : system.table.findEqual object kind = none)
    (still : system.table.findFree ≠ none ∨ ¬ system.table.full ∨ ∀ cell ∈ system.cells,
      ¬ cell.live)
    (addressable : HandleTable.Addressable allocated system.table.grownCapacity)
    (stored : system.table.storeEx object kind allocated = some (index, table)) :
    Linked { table, cells := system.cells ++
      [{ value := table.pointer index, kind, content := object, live := true }] } := by
  obtain ⟨written, kept, room, moved⟩ := storeEx_fresh separate linked.room stored
  have old : ∀ (id : Nat) (cell : HandleCell), system.cells[id]? = some cell → cell.live →
      ∃ other, other ≠ index ∧ cell.value = table.pointer other ∧
        table.entries[other]? = some ⟨cell.content, cell.kind, true⟩ := by
    intro id cell found live
    obtain ⟨other, placed, present⟩ := linked.entry id cell found live
    obtain ⟨different, present'⟩ := kept other _ present rfl
    refine ⟨other, different, ?_, present'⟩
    rcases moved with ⟨address, _⟩ | ⟨noFree, full, _⟩
    · rw [placed, pointer, pointer, address]
    · -- the table moves only where no handle is live
      rcases still with free | vacant | dead
      · exact absurd noFree free
      · exact absurd full vacant
      · exact absurd live (dead cell (List.mem_of_getElem? found))
  have read : ∀ (id : Nat) (cell : HandleCell), (system.cells ++
      [{ value := table.pointer index, kind, content := object, live := true }])[id]? = some cell →
      system.cells[id]? = some cell ∨ (id = system.cells.length ∧
        cell = { value := table.pointer index, kind, content := object, live := true }) := by
    grind
  refine ⟨room, ?_, ?_, ?_, ?_⟩
  · intro zero
    rcases moved with ⟨address, capacity⟩ | ⟨_, _, address, nonzero, _⟩
    · rw [capacity]
      exact linked.placed (address ▸ zero)
    · exact absurd (address ▸ zero) nonzero
  · rcases moved with ⟨address, capacity⟩ | ⟨_, _, address, _, capacity⟩
    · rw [address, capacity]
      exact linked.bounded
    · rw [address, capacity]
      exact addressable
  · intro id cell found live
    rcases read id cell found with before | ⟨_, rfl⟩
    · obtain ⟨other, _, placed, present⟩ := old id cell before live
      exact ⟨other, placed, present⟩
    · exact ⟨index, rfl, written⟩
  · intro id id' cell cell' found found' live live' different
    rcases read id cell found with before | ⟨last, rfl⟩ <;>
      rcases read id' cell' found' with before' | ⟨last', rfl⟩
    · exact linked.distinct id id' cell cell' before before' live live' different
    · obtain ⟨other, apart, placed, _⟩ := old id cell before live
      exact fun same => apart (table.pointer_injective (placed.symm.trans same))
    · obtain ⟨other, apart, placed, _⟩ := old id' cell' before' live'
      exact fun same => apart (table.pointer_injective (placed.symm.trans same.symm))
    · omega

/-- A collection changes the entry of a handle as it changes the handle. -/
theorem collect (linked : Linked system)
    (tracked : ∀ cell ∈ system.cells, cell.live → cell.kind = .weakTrackResurrection →
      cell.content ≠ 0 → ¬ freed cell.content) :
    Linked { table := (system.table.clearShortWeakHandles marked).clearLongWeakHandles,
             cells := system.cells.map (·.collect marked freed) } := by
  have value (cell : HandleCell) : (cell.collect marked freed).value = cell.value := by
    unfold HandleCell.collect
    split <;> rfl
  have alive (cell : HandleCell) : (cell.collect marked freed).live = cell.live := by
    unfold HandleCell.collect
    split <;> rfl
  refine ⟨?_, linked.placed, linked.bounded, ?_, ?_⟩
  · simpa [count, clearLongWeakHandles, clearShortWeakHandles]
      using linked.room
  · intro id cell found live
    rw [List.getElem?_map, map_eq_some_iff] at found
    obtain ⟨before, found, rfl⟩ := found
    rw [alive] at live
    obtain ⟨index, placed, present⟩ := linked.entry id before found live
    refine ⟨index, (value before).trans placed, ?_⟩
    simp only [clearLongWeakHandles, clearShortWeakHandles,
      List.getElem?_map, present, map_some, some.injEq, heapGetObject]
    unfold HandleCell.collect
    grind
  · intro id id' cell cell' found found' live live' different
    rw [List.getElem?_map, map_eq_some_iff] at found found'
    obtain ⟨before, found, rfl⟩ := found
    obtain ⟨before', found', rfl⟩ := found'
    rw [alive] at live live'
    rw [value, value]
    exact linked.distinct id id' before before' found found' live live' different

/-- A step that meets the condition keeps every live handle linked. -/
theorem step (linked : Linked system) (guard : separate system event)
    (taken : handleMachine.step system event after) : Linked after := by
  obtain ⟨stepped, environment⟩ := taken
  cases event with
  | alloc object type allocated =>
    obtain ⟨fresh, still⟩ := guard
    unfold HandleSystem.step internalAlloc at stepped
    cases kinds : kindOfType type with
    | none =>
      simp only [kinds, some.injEq] at stepped
      exact stepped ▸ linked
    | some kind =>
      cases stored : system.table.storeEx object kind allocated with
      | none =>
        simp only [kinds, stored, some.injEq] at stepped
        exact stepped ▸ linked
      | some entry =>
        simp only [kinds, stored] at stepped
        cases stepped
        exact linked.alloc (fresh kind kinds) still (environment _ _ _ rfl) stored
  | get id => exact some.inj (ite_none_right_eq_some.mp stepped).2 ▸ linked
  | set id object =>
    unfold HandleSystem.step at stepped
    cases found : system.cells[id]? with
    | none => simp [found] at stepped
    | some cell =>
      obtain ⟨index, resolved, -, written⟩ := linked.writes found (guard cell found)
      simp only [found, internalSet, resolved] at stepped
      cases stepped
      exact written _ _ rfl fun _ => rfl
  | compareExchange id object comparand =>
    unfold HandleSystem.step at stepped
    cases found : system.cells[id]? with
    | none => simp [found] at stepped
    | some cell =>
      obtain ⟨index, resolved, unchanged, written⟩ := linked.writes found (guard cell found)
      simp only [found, internalCompareExchange, resolved] at stepped
      by_cases equal : cell.content = comparand
      · simp only [if_pos equal] at stepped
        cases stepped
        exact written _ _ (by simp [equal]) fun _ => by simp [equal]
      · simp only [if_neg equal] at stepped
        cases stepped
        rw [← unchanged]
        exact written _ _ (by simp [equal]) fun _ => by simp [equal]
  | free id =>
    unfold HandleSystem.step at stepped
    cases found : system.cells[id]? with
    | none => simp [found] at stepped
    | some cell =>
      obtain ⟨index, resolved, -, written⟩ := linked.writes found (guard cell found)
      simp only [found, internalFree, resolved] at stepped
      cases stepped
      exact written _ _ rfl fun live => by cases live
  | collect marked freed =>
    cases stepped
    exact linked.collect guard

end Linked

theorem linked_inductive : (handleMachine.guarded separate).Inductive Linked := by
  constructor
  · rintro system ⟨none, empty, addressable, placed⟩
    refine ⟨?_, placed, addressable, ?_, ?_⟩
    · simp [count, empty]
    · simp [none]
    · simp [none]
  · rintro before event after linked ⟨guard, taken⟩
    exact linked.step guard taken

/-- In every run whose steps are separate a handle that was not freed yields its own content. -/
theorem handles_are_independent {system : HandleSystem} {cell : HandleCell} (id : Nat)
    (run : (handleMachine.guarded separate).Run events system)
    (found : system.cells[id]? = some cell) (live : cell.live) :
    system.table.internalGet cell.value = cell.content := by
  have linked := linked_inductive.reached run
  obtain ⟨index, resolved, -⟩ := linked.writes found live
  rw [internalGet, resolved]

def sampleHandles : HandleSystem :=
  { table := { address := 0x1000, entries := [], capacity := 3 }, cells := [] }

/-- A strong and a weak handle, and a store through the first. -/
theorem handles_are_independent_of_set : ∃ system cell, (handleMachine.guarded separate).Run
        [.alloc 64 2 0, .alloc 64 0 0, .set 0 128] system ∧
      system.cells[1]? = some cell ∧ cell.content = 64 ∧
        system.table.internalGet cell.value = 64 := by
  have first : (handleMachine.guarded separate).Run [] sampleHandles :=
    .start ⟨rfl, rfl, by decide, by decide⟩
  have strong : (handleMachine.guarded separate).Run [.alloc 64 2 0] _ :=
    first.next ⟨⟨by rintro kind same; rfl, .inr (.inl (by decide))⟩, rfl, by
      intro object type allocated same
      cases same
      decide⟩
  have weak : (handleMachine.guarded separate).Run [.alloc 64 2 0, .alloc 64 0 0] _ :=
    strong.next ⟨⟨by rintro kind ⟨⟩; rfl, .inr (.inl (by decide))⟩, rfl, by
      intro object type allocated same
      cases same
      decide⟩
  have run : (handleMachine.guarded separate).Run [.alloc 64 2 0, .alloc 64 0 0, .set 0 128] _ :=
    weak.next ⟨by rintro cell ⟨⟩; rfl, rfl, by rintro _ _ _ ⟨⟩⟩
  exact ⟨_, _, run, rfl, rfl, handles_are_independent 1 run rfl rfl⟩

/-- Two handles for one object share an entry: a store through the second changes the first. -/
theorem second_handle_changes_first :
    ∃ system cell, handleMachine.Run [.alloc 64 2 0, .alloc 64 2 0, .set 1 128] system ∧
      system.cells[0]? = some cell ∧ cell.live ∧ cell.content = 64 ∧
      system.table.internalGet cell.value = 128 := by
  have first : handleMachine.Run [] sampleHandles := .start ⟨rfl, rfl, by decide, by decide⟩
  have one : handleMachine.Run [.alloc 64 2 0] _ :=
    first.next ⟨rfl, by rintro _ _ _ ⟨⟩; decide⟩
  have two : handleMachine.Run [.alloc 64 2 0, .alloc 64 2 0] _ :=
    one.next ⟨rfl, by rintro _ _ _ ⟨⟩; decide⟩
  have run : handleMachine.Run [.alloc 64 2 0, .alloc 64 2 0, .set 1 128] _ :=
    two.next ⟨rfl, by rintro _ _ _ ⟨⟩⟩
  exact ⟨_, _, run, rfl, rfl, rfl, rfl⟩

end Zapada.Zaclr
