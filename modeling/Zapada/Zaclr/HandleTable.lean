import Mathlib.Algebra.Group.Nat.Defs
import Mathlib.Data.List.Find

/-! The table of GC handles, and the native methods of `GCHandle` that work on it. A handle
is the address of its entry; 0 is the null object. -/

namespace Zapada.Zaclr

inductive GcHandleKind where
  | strong | weak | weakTrackResurrection | pinned
deriving DecidableEq, Repr

structure GcHandleEntry where
  handle : Nat
  kind : GcHandleKind
  allocated : Bool
deriving DecidableEq

def GcHandleEntry.empty : GcHandleEntry := { handle := 0, kind := .strong, allocated := false }

/-- The entries in use lie at `address`, 16 bytes each, with room for `capacity` of them. -/
structure HandleTable where
  address : Nat
  entries : List GcHandleEntry
  capacity : Nat

def gcHandleEntrySize : Nat := 16

namespace HandleTable

def count (table : HandleTable) : Nat := table.entries.length

def grownCapacity (table : HandleTable) : Nat :=
  if table.capacity = 0 then 8 else table.capacity * 2 % 2 ^ 32

/-- `zaclr_handle_table_grow`; `allocated` is what `kernel_alloc` returns. -/
def grow (table : HandleTable) (allocated : Nat) : Option HandleTable :=
  if table.grownCapacity ≤ table.capacity ∨ allocated = 0 then none
  else some { table with address := allocated, capacity := table.grownCapacity }

/-- The entry that the search of `zaclr_handle_table_store_ex` stops at. -/
def findEqual (table : HandleTable) (handle : Nat) (kind : GcHandleKind) : Option Nat :=
  table.entries.findIdx? fun entry => entry.allocated ∧ handle ≠ 0 ∧ entry.handle = handle ∧
    entry.kind = kind

/-- The first free entry that the search has passed. -/
def findFree (table : HandleTable) : Option Nat :=
  table.entries.findIdx? fun entry => !entry.allocated

def full (table : HandleTable) : Bool := table.address = 0 ∨ table.capacity ≤ table.count

def append (table : HandleTable) (entry : GcHandleEntry) : Nat × HandleTable :=
  (table.count, { table with entries := table.entries ++ [entry] })

def store (table : HandleTable) (index : Nat) (entry : GcHandleEntry) : HandleTable :=
  { table with entries := table.entries.set index entry }

def storeEx (table : HandleTable) (handle : Nat) (kind : GcHandleKind) (allocated : Nat) :
    Option (Nat × HandleTable) :=
  let entry : GcHandleEntry := { handle, kind, allocated := true }
  match table.findEqual handle kind with
  | some index => some (index, table)
  | none =>
    match table.findFree with
    | some index => some (index, table.store index entry)
    | none =>
      if table.full then (table.grow allocated).map (·.append entry)
      else some (table.append entry)

def loadEntry (table : HandleTable) (index : Nat) : Option GcHandleEntry :=
  match table.entries[index]? with
  | some entry => if entry.allocated then some entry else none
  | none => none

def pointer (table : HandleTable) (index : Nat) : Nat := table.address + index * gcHandleEntrySize

def tryDecodeHandleTablePointer (table : HandleTable) (value : Int) : Option Nat :=
  if table.address = 0 ∨ table.capacity = 0 ∨ value ≤ 0 then none
  else if value.toNat < table.pointer 0 ∨ table.pointer table.capacity ≤ value.toNat then none
  else if (value.toNat - table.address) % gcHandleEntrySize ≠ 0 then none
  else
    let index := (value.toNat - table.address) / gcHandleEntrySize
    if index < table.count then some index else none

end HandleTable

def decodeHandleValue (value : Int) : Option Nat :=
  if value ≤ 0 ∨ value.toNat % 2 ≠ 0 then none
  else
    let raw := value.toNat / 2
    if raw = 0 ∨ 0xFFFFFFFF < raw then none else some (raw - 1)

namespace HandleTable

/-- `get_entry`: an address in the table, an encoded index, or the object itself. -/
def getEntry (table : HandleTable) (value : Int) : Option (Nat × GcHandleEntry) :=
  match table.tryDecodeHandleTablePointer value with
  | some index => (table.loadEntry index).map (index, ·)
  | none =>
    match decodeHandleValue value with
    | some index => (table.loadEntry index).map (index, ·)
    | none =>
      let object := value.toNat
      match table.entries.findIdx? fun entry => entry.handle = object with
      | some index => table.entries[index]?.map (index, ·)
      | none => none

/-- The kind for the type argument of `_InternalAlloc`. -/
def kindOfType : Int → Option GcHandleKind
  | 0 => some .weak
  | 1 => some .weakTrackResurrection
  | 2 => some .strong
  | 3 => some .pinned
  | _ => none

def internalAlloc (table : HandleTable) (object : Nat) (type : Int) (allocated : Nat) :
    Option (Int × HandleTable) :=
  match kindOfType type with
  | none => none
  | some kind =>
    match table.storeEx object kind allocated with
    | none => none
    | some (index, table) => some (table.pointer index, table)

def internalFree (table : HandleTable) (value : Int) : Bool × HandleTable :=
  match table.getEntry value with
  | none => (false, table)
  | some (index, _) => (true, table.store index .empty)

def internalGet (table : HandleTable) (value : Int) : Nat :=
  match table.getEntry value with
  | none => 0
  | some (_, entry) => entry.handle

/-- `InternalSet`; a handle that cannot be resolved falls back to the first entry. -/
def internalSet (table : HandleTable) (value : Int) (object : Nat) : Option HandleTable :=
  match table.getEntry value with
  | some (index, entry) => some (table.store index { entry with handle := object })
  | none =>
    match table.entries with
    | [] => none
    | entry :: _ =>
      if entry.handle = 0 then none else some (table.store 0 { entry with handle := object })

def internalCompareExchange (table : HandleTable) (value : Int) (object comparand : Nat) :
    Option (Nat × HandleTable) :=
  match table.getEntry value with
  | none => none
  | some (index, entry) =>
    if entry.handle = comparand then
      some (entry.handle, table.store index { entry with handle := object })
    else some (entry.handle, table)

/-- `zaclr_heap_get_object`, which only excludes the null handle. -/
def heapGetObject (handle : Nat) : Option Nat := if handle = 0 then none else some handle

/-- `zaclr_gc_clear_short_weak_handles` after marking. -/
def clearShortWeakHandles (table : HandleTable) (marked : Nat → Bool) : HandleTable :=
  { table with entries := table.entries.map fun entry =>
      if entry.handle ≠ 0 ∧ entry.kind = .weak ∧
        ¬ marked entry.handle then { entry with handle := 0 }
      else entry }

/-- `zaclr_gc_clear_long_weak_handles` after the sweep. -/
def clearLongWeakHandles (table : HandleTable) : HandleTable :=
  { table with entries := table.entries.map fun entry =>
      if entry.handle ≠ 0 ∧ entry.kind = .weakTrackResurrection ∧
        heapGetObject entry.handle = none then
        { entry with handle := 0 }
      else entry }

/-- An allocation returns an equal entry, writes the first free one, or appends one, for which
a full table moves. -/
theorem storeEx_cases {table after : HandleTable}
    (stored : table.storeEx handle kind allocated = some (index, after)) :
    (table.findEqual handle kind = some index ∧ after = table) ∨
      (table.findFree = some index ∧ after = table.store index ⟨handle, kind, true⟩) ∨
      table.findFree = none ∧ index = table.count ∧
        after.entries = table.entries ++ [⟨handle, kind, true⟩] ∧
        ((¬ table.full ∧ after.address = table.address ∧ after.capacity = table.capacity) ∨
          (table.full ∧ table.capacity < table.grownCapacity ∧ allocated ≠ 0 ∧
            after.address = allocated ∧ after.capacity = table.grownCapacity)) := by
  unfold storeEx at stored
  split at stored
  · cases stored
    exact .inl ⟨‹_›, rfl⟩
  split at stored
  · cases stored
    exact .inr (.inl ⟨‹_›, rfl⟩)
  split at stored
  · rename_i noFree full
    obtain ⟨grown, grows, same⟩ := Option.map_eq_some_iff.mp stored
    cases same
    unfold grow at grows
    split at grows
    · contradiction
    · rename_i larger
      cases grows
      exact .inr (.inr ⟨noFree, rfl, rfl, .inr ⟨full, by omega, by omega, rfl, rfl⟩⟩)
  · rename_i noFree vacant
    cases stored
    exact .inr (.inr ⟨noFree, rfl, rfl, .inl ⟨vacant, rfl, rfl⟩⟩)

end HandleTable

end Zapada.Zaclr
