import Mathlib.Data.List.Perm.Basic
import Zapada.Foundation.Machine
import Zapada.Zaclr.HandleTable

namespace Zapada.Zaclr

open HandleTable List Option

/-- The table, and which objects carry the pinned bit. -/
structure PinnedHeap where
  table : HandleTable
  pinned : Nat → Bool

/-- Set or clear the bit of the object of a pinned entry. -/
def setPinnedBit (pinned : Nat → Bool) (bit : Bool) : Option GcHandleEntry → Nat → Bool
  | none => pinned
  | some entry =>
    if entry.kind = .pinned ∧ entry.handle ≠ 0 then
      Function.update pinned entry.handle bit else pinned

def updatePinnedState (pinned : Nat → Bool) (oldEntry newEntry : Option GcHandleEntry) :
    Nat → Bool :=
  setPinnedBit (setPinnedBit pinned false oldEntry) true newEntry

/-- The calls of the handle methods, with any integer in place of a handle. -/
inductive HandleCall where
  | alloc (object : Nat) (type : Int) (allocated : Nat)
  | set (value : Int) (object : Nat)
  | compareExchange (value : Int) (object comparand : Nat)
  | free (value : Int)

/-- The entry that `InternalSet` resolves a handle to. -/
def HandleTable.setTarget (table : HandleTable) (value : Int) : Option (Nat × GcHandleEntry) :=
  match table.getEntry value, table.entries with
  | some found, _ => some found
  | none, [] => none
  | none, entry :: _ => if entry.handle = 0 then none else some (0, entry)

/-- The entry that a call rewrites, with its old and its new content. -/
def HandleCall.edit (table : HandleTable) : HandleCall →
      Option (Nat × GcHandleEntry × GcHandleEntry)
  | .alloc .. => none
  | .set value object =>
    (table.setTarget value).map fun (index, entry) =>
      (index, entry, { entry with handle := object })
  | .compareExchange value object comparand =>
    (table.getEntry value).bind fun (index, entry) =>
      if entry.handle = comparand then some (index, entry,
        { entry with handle := object }) else none
  | .free value => (table.getEntry value).map fun (index, entry) => (index, entry, .empty)

/-- The table that a call leaves. -/
def HandleCall.run (table : HandleTable) : HandleCall → HandleTable
  | .alloc object type allocated =>
    ((table.internalAlloc object type allocated).map (·.2)).getD table
  | .set value object => (table.internalSet value object).getD table
  | .compareExchange value object comparand =>
    ((table.internalCompareExchange value object comparand).map (·.2)).getD table
  | .free value => (table.internalFree value).2

def PinnedHeap.apply (heap : PinnedHeap) (call : HandleCall) : PinnedHeap where
  table := call.run heap.table
  pinned :=
    match call with
    | .alloc object type allocated =>
      match kindOfType type, heap.table.internalAlloc object type allocated with
      | some kind, some _ => updatePinnedState heap.pinned none (some ⟨object, kind, true⟩)
      | _, _ => heap.pinned
    | call =>
      match call.edit heap.table with
      | none => heap.pinned
      -- `_InternalFree` passes no new entry, which is as good as the empty one
      | some (_, old, new) => updatePinnedState heap.pinned (some old) (some new)

def GcHandleEntry.pins (entry : GcHandleEntry) (object : Nat) : Prop :=
  entry.kind = .pinned ∧ entry.handle = object

/-- Some live pinned entry refers to the object. -/
def Referred (entries : List GcHandleEntry) (object : Nat) : Prop :=
  ∃ entry ∈ entries, entry.allocated ∧ entry.pins object

/-- An object carries the bit exactly when a live pinned entry refers to it. -/
def PinnedHeap.Agrees (heap : PinnedHeap) : Prop :=
  ∀ object ≠ 0, heap.pinned object = true ↔ Referred heap.table.entries object

/-- The condition on a call: an object that it takes a pinned entry from has no other. -/
def takesLastPin (heap : PinnedHeap) (call : HandleCall) : Prop :=
  ∀ index old new, call.edit heap.table = some (index, old, new) → ∀ object ≠ 0, old.pins object →
    ¬ new.pins object → ¬ Referred (heap.table.entries.eraseIdx index) object

/-- The entry, if there is one, pins the object. -/
def Pins (entry : Option GcHandleEntry) (object : Nat) : Prop := entry.elim False (·.pins object)

open Classical in
theorem setPinnedBit_apply (notNull : object ≠ 0) :
    setPinnedBit pinned bit entry object = if Pins entry object then bit else pinned object := by
  cases entry with
  | none => simp [setPinnedBit, Pins]
  | some entry =>
    simp only [setPinnedBit, Pins, elim_some, GcHandleEntry.pins]
    by_cases same : entry.handle = object
    · subst same
      by_cases kind : entry.kind = .pinned <;> simp [kind, notNull]
    · by_cases kind : entry.kind = .pinned ∧ entry.handle ≠ 0
      · simp [kind, same, Function.update_of_ne (Ne.symm same)]
      · simp [kind, same]

/-- The bits after an update agree with the entries unless the object that the old entry
pinned has another one. -/
theorem updatePinnedState_iff {others : Nat → Prop}
    (agrees : ∀ object ≠ 0, pinned object = true ↔ Pins oldEntry object ∨ others object) :
    (∀ object ≠ 0, updatePinnedState pinned oldEntry newEntry object = true ↔ Pins newEntry object ∨
      others object) ↔
      ∀ object ≠ 0, Pins oldEntry object → ¬ Pins newEntry object → ¬ others object := by
  refine forall₂_congr fun object notNull => ?_
  have before := agrees object notNull
  rw [updatePinnedState, setPinnedBit_apply notNull, setPinnedBit_apply notNull]
  by_cases new : Pins newEntry object
  · simp [new]
  by_cases old : Pins oldEntry object
  · simp [new, old]
  · rw [or_iff_right old] at before
    simp [new, old, before]

def Tidy (entries : List GcHandleEntry) : Prop := ∀ entry ∈ entries, entry.kind = .pinned →
      entry.allocated

section

variable {entries : List GcHandleEntry} (tidy : Tidy entries)

include tidy

theorem referred_iff (found : entries[index]? = some entry) (object : Nat) :
    Referred entries object ↔ Pins (some entry) object ∨
      Referred (entries.eraseIdx index) object := by
  obtain ⟨inside, rfl⟩ := List.getElem?_eq_some_iff.mp found
  have live : entries[index].pins object → entries[index].allocated :=
    fun pins => tidy _ (getElem_mem inside) pins.1
  simp [Referred, Pins, ← (getElem_cons_eraseIdx_perm inside).mem_iff, and_iff_right_of_imp live]

theorem Tidy.set (live : entry.kind = .pinned → entry.allocated) :
    Tidy (entries.set index entry) := by
  intro other member
  rcases mem_or_eq_of_mem_set member with before | rfl
  · exact tidy other before
  · exact live

theorem referred_set (found : entries[index]? = some old)
    (live : new.kind = .pinned → new.allocated)
    (object : Nat) : Referred (entries.set index new) object ↔
      Pins (some new) object ∨ Referred (entries.eraseIdx index) object := by
  have inside := (List.getElem?_eq_some_iff.mp found).1
  rw [referred_iff (tidy.set live) (List.getElem?_set_self inside), eraseIdx_set_eq]

end

/-- An allocation leaves a new entry for its object, or an equal one that was there. -/
theorem storeEx_referred {table after : HandleTable} (tidy : Tidy table.entries)
    (stored : table.storeEx handle kind allocated = some (index, after)) :
    Tidy after.entries ∧ ∀ object, Referred after.entries object ↔
      Pins (some ⟨handle, kind, true⟩) object ∨ Referred table.entries object := by
  rcases storeEx_cases stored with ⟨found, rfl⟩ | ⟨found, rfl⟩ | ⟨-, -, appended, -⟩
  · obtain ⟨inside, equal, -⟩ := findIdx?_eq_some_iff_getElem.mp found
    obtain ⟨live, -, sameHandle, sameKind⟩ := of_decide_eq_true equal
    refine ⟨tidy, fun object => (or_iff_right_of_imp ?_).symm⟩
    intro pins
    exact ⟨_, getElem_mem inside, live, sameKind.trans pins.1, sameHandle.trans pins.2⟩
  · obtain ⟨inside, free, -⟩ := findIdx?_eq_some_iff_getElem.mp found
    have here := List.getElem?_eq_getElem inside
    refine ⟨tidy.set fun _ => rfl, fun object => ?_⟩
    have unpinned : ¬ Pins (some table.entries[index]) object := by
      intro pins
      simp [tidy _ (getElem_mem inside) pins.1] at free
    rw [store, referred_set tidy here fun _ => rfl, referred_iff tidy here, or_iff_right unpinned]
  · rw [appended]
    refine ⟨?_, fun object => by simp [Referred, Pins, or_and_right, exists_or, or_comm]⟩
    intro entry member
    rcases mem_append.mp member with before | last
    · exact tidy entry before
    · simp [mem_singleton.mp last]

theorem HandleTable.getEntry_found {table : HandleTable}
    (resolved : table.getEntry value = some (index, entry)) :
    table.entries[index]? = some entry := by
  have loads : ∀ place, (table.loadEntry place).map (place, ·) = some (index, entry) →
      table.entries[index]? = some entry := by
    intro place loaded
    obtain ⟨found, isFound, same⟩ := map_eq_some_iff.mp loaded
    simp only [loadEntry] at isFound
    grind
  simp only [getEntry] at resolved
  split at resolved
  · exact loads _ resolved
  split at resolved
  · exact loads _ resolved
  · grind

/-- A rewritten entry was in the table, and it is pinned only as a copy of a pinned one. -/
theorem HandleCall.edit_found {call : HandleCall}
    (edits : call.edit table = some (index, old, new)) :
    table.entries[index]? = some old ∧
      (new.kind = .pinned → old.kind = .pinned ∧ new.allocated = old.allocated) := by
  cases call with
  | alloc object type allocated => contradiction
  | set value object =>
    obtain ⟨⟨place, entry⟩, resolved, same⟩ := map_eq_some_iff.mp edits
    obtain ⟨rfl, rfl, rfl⟩ : place = index ∧ entry = old ∧
      { entry with handle := object } = new := by
      simpa using same
    refine ⟨?_, fun kind => ⟨kind, rfl⟩⟩
    unfold setTarget at resolved
    split at resolved
    · rename_i found
      rw [some.inj resolved] at found
      exact getEntry_found found
    · contradiction
    · rename_i shape
      split at resolved
      · contradiction
      · cases resolved
        rw [shape]
        rfl
  | compareExchange value object comparand =>
    obtain ⟨⟨place, entry⟩, resolved, same⟩ := bind_eq_some_iff.mp edits
    obtain ⟨-, rfl, rfl, rfl⟩ : entry.handle = comparand ∧ place = index ∧ entry = old ∧
        { entry with handle := object } = new := by simpa using same
    exact ⟨getEntry_found resolved, fun kind => ⟨kind, rfl⟩⟩
  | free value =>
    obtain ⟨⟨place, entry⟩, resolved, same⟩ := map_eq_some_iff.mp edits
    obtain ⟨rfl, rfl, rfl⟩ : place = index ∧ entry = old ∧ .empty = new := by simpa using same
    exact ⟨getEntry_found resolved, fun kind => by contradiction⟩

/-- The handle methods other than an allocation rewrite that entry and no other. -/
theorem HandleCall.run_eq_edit {call : HandleCall} (table : HandleTable)
    (notAlloc : ∀ object type allocated, call ≠ .alloc object type allocated) :
    call.run table = match call.edit table with
      | none => table
      | some (index, _, new) => table.store index new := by
  cases call with
  | alloc object type allocated => exact absurd rfl (notAlloc object type allocated)
  | set value object =>
    simp only [run, internalSet, edit, setTarget]
    cases table.getEntry value with
    | some found => rfl
    | none =>
      cases table.entries with
      | nil => rfl
      | cons entry rest => by_cases null : entry.handle = 0 <;> simp [null]
  | compareExchange value object comparand =>
    simp only [run, internalCompareExchange, edit]
    cases table.getEntry value with
    | none => rfl
    | some found => by_cases equal : found.2.handle = comparand <;> simp [equal]
  | free value =>
    simp only [run, internalFree, edit]
    cases table.getEntry value <;> rfl

namespace PinnedHeap

variable {heap : PinnedHeap}

theorem apply_alloc (heap : PinnedHeap) (object : Nat) (type : Int) (allocated : Nat) :
    heap.apply (.alloc object type allocated) = heap ∨
      ∃ kind index after, heap.table.storeEx object kind allocated = some (index, after) ∧
        heap.apply (.alloc object type allocated) =
          ⟨after, updatePinnedState heap.pinned none (some ⟨object, kind, true⟩)⟩ := by
  simp only [apply, HandleCall.run, internalAlloc]
  cases kindOfType type with
  | none => exact .inl rfl
  | some kind =>
    simp only
    cases placed : heap.table.storeEx object kind allocated with
    | none => exact .inl rfl
    | some answer => exact .inr ⟨kind, answer.1, answer.2, placed, rfl⟩

theorem apply_of_edit (notAlloc : ∀ object type allocated, call ≠ .alloc object type allocated) :
    heap.apply call = match call.edit heap.table with
      | none => heap
      | some (index, old, new) =>
        ⟨heap.table.store index new, updatePinnedState heap.pinned (some old) (some new)⟩ := by
  have table := HandleCall.run_eq_edit heap.table notAlloc
  cases call with
  | alloc object type allocated => exact absurd rfl (notAlloc object type allocated)
  | set | compareExchange | free =>
    simp only [apply, table]
    split <;> rfl

/-- One call keeps the agreement exactly when it takes no pin from an object that has another. -/
theorem apply_agrees_iff (tidy : Tidy heap.table.entries) (call : HandleCall) :
    Tidy (heap.apply call).table.entries ∧
      (heap.Agrees → ((heap.apply call).Agrees ↔ takesLastPin heap call)) := by
  by_cases isAlloc : ∃ object type allocated, call = .alloc object type allocated
  · obtain ⟨object, type, allocated, rfl⟩ := isAlloc
    have allowed : takesLastPin heap (.alloc object type allocated) := fun _ _ _ edits => by
      contradiction
    rcases apply_alloc heap object type allocated with same | ⟨kind, index, after, placed, same⟩
    · rw [same]
      exact ⟨tidy, fun agrees => iff_of_true agrees allowed⟩
    · obtain ⟨tidyAfter, referred⟩ := storeEx_referred tidy placed
      rw [same]
      refine ⟨tidyAfter, fun agrees => iff_of_true ?_ allowed⟩
      simp only [Agrees, referred]
      refine (updatePinnedState_iff ?_).mpr fun _ _ none => none.elim
      exact fun object notNull => (agrees object notNull).trans (by simp [Pins])
  · rw [apply_of_edit fun object type allocated same => isAlloc ⟨object, type, allocated, same⟩]
    cases edits : call.edit heap.table with
    | none =>
      exact ⟨tidy, fun agrees => iff_of_true agrees fun _ _ _ edited => by simp [edits] at edited⟩
    | some edit =>
      obtain ⟨index, old, new⟩ := edit
      obtain ⟨found, copied⟩ := HandleCall.edit_found edits
      have live : new.kind = .pinned → new.allocated := fun kind => by
        rw [(copied kind).2]
        exact tidy old (mem_of_getElem? found) (copied kind).1
      refine ⟨tidy.set live, fun agrees => ?_⟩
      simp only [Agrees, store, referred_set tidy found live]
      rw [updatePinnedState_iff fun object notNull =>
        (agrees object notNull).trans (referred_iff tidy found object)]
      simp [takesLastPin, edits, Pins]

structure Initial (heap : PinnedHeap) : Prop where
  empty : heap.table.entries = []
  unpinned : ∀ object, heap.pinned object = false

end PinnedHeap

/-- Along any sequence of calls the pinned bits agree with the handles exactly when no call takes
a pin from an object that another handle pins. -/
theorem pinned_iff_referred {heap : PinnedHeap} (initial : heap.Initial) (calls : List HandleCall) :
    (∀ n, ((calls.take n).foldl PinnedHeap.apply heap).Agrees) ↔ ∀ n call, calls[n]? = some call →
        takesLastPin ((calls.take n).foldl PinnedHeap.apply heap) call := by
  have first : heap.Agrees := by simp [PinnedHeap.Agrees, Referred, initial.empty, initial.unpinned]
  have tidy : Tidy heap.table.entries := by simp [Tidy, initial.empty]
  have tidies n : Tidy ((calls.take n).foldl PinnedHeap.apply heap).table.entries :=
    foldlRecOn (motive := fun heap : PinnedHeap => Tidy heap.table.entries) _ _ tidy
      fun _ before call _ => (PinnedHeap.apply_agrees_iff before call).1
  have sharp : ∀ (heap : PinnedHeap) (call : HandleCall), Tidy heap.table.entries ∧ heap.Agrees →
      (Tidy (heap.apply call).table.entries ∧ (heap.apply call).Agrees ↔
        takesLastPin heap call) := by
    rintro heap call ⟨before, agrees⟩
    obtain ⟨after, step⟩ := PinnedHeap.apply_agrees_iff before call
    rw [and_iff_right after, step agrees]
  have along := Foundation.Machine.holds_along_iff sharp ⟨tidy, first⟩ calls
  simpa [tidies] using along

/-- An empty table with room for four entries. -/
def emptyPinnedHeap : PinnedHeap where
  table := { address := 4096, entries := [], capacity := 4 }
  pinned _ := false

theorem emptyPinnedHeap_initial : emptyPinnedHeap.Initial := ⟨rfl, fun _ => rfl⟩

theorem alloc_free_agrees : emptyPinnedHeap.Initial ∧
    ∀ n, (([.alloc 100 3 0, .free 4096].take n).foldl PinnedHeap.apply emptyPinnedHeap).Agrees := by
  refine ⟨emptyPinnedHeap_initial, (pinned_iff_referred emptyPinnedHeap_initial _).mpr ?_⟩
  intro n call found index old new edits object notNull pins
  match n, found with
  | 0, rfl => contradiction
  | 1, rfl =>
    cases edits
    rintro - ⟨entry, member, -⟩
    cases member

/-- Two handles pin the objects 100 and 200; the second is set to 100 and the first is freed. -/
theorem second_pin_lost :
    let heap :=
  [.alloc 100 3 0, .alloc 200 3 0, .set 4112 100, .free 4096].foldl PinnedHeap.apply emptyPinnedHeap
    heap.pinned 100 = false ∧ heap.table.entries = [.empty, ⟨100, .pinned, true⟩] ∧
      ¬ heap.Agrees := by
  refine ⟨by decide, by decide, fun agrees => ?_⟩
  have pinned := (agrees 100 (by decide)).mpr ⟨⟨100, .pinned, true⟩, by decide, rfl, rfl, rfl⟩
  revert pinned
  decide

end Zapada.Zaclr
