import Zapada.Zaclr.GenericContexts
import Zapada.Foundation.Machine

/-! The storage of static fields of generic types: a list of slots in the record of the assembly,
searched by the row of the field and the arguments of its owner. -/

namespace Zapada.Zaclr

open Foundation

/-- A slot of the list, with the address of its value and without the state of its initialiser. -/
structure StaticSlot where
  address : Nat
  fieldRow : Nat
  ownerContext : List GenericArgument
deriving DecidableEq

/-- An access, with the block that it gets for a new slot: none if `kernel_alloc` or the copy of the
arguments fails. -/
structure StaticAccess where
  fieldRow : Nat
  ownerContext : List GenericArgument
  block : Option Nat

def StaticSlot.isFor (slot : StaticSlot) (access : StaticAccess) : Bool :=
  slot.fieldRow = access.fieldRow ∧ genericTypeContextMatches slot.ownerContext access.ownerContext

/-- `get_or_create_generic_static_field_slot`, with the address that it returns. -/
def staticFieldSlot (slots : List StaticSlot) (access : StaticAccess) :
    Option Nat × List StaticSlot :=
  if access.ownerContext.isEmpty then (none, slots)
  else match slots.find? (·.isFor access), access.block with
    | some slot, _ => (some slot.address, slots)
    | none, none => (none, slots)
    | none, some address => (some address, ⟨address, access.fieldRow, access.ownerContext⟩ :: slots)

/-- The accesses of a run. No block that `kernel_alloc` gives is in use. -/
def staticSlotMachine : Machine (List StaticSlot) (StaticAccess × Option Nat) :=
  (Machine.ofCall [] staticFieldSlot).guarded fun slots label =>
    ∀ slot ∈ slots, label.1.block ≠ some slot.address

/-- No two slots share their address, and none share the field and the arguments. -/
def SeparateSlots (slots : List StaticSlot) : Prop :=
  ∀ one ∈ slots, ∀ two ∈ slots,
    one.address = two.address ↔ one.fieldRow = two.fieldRow ∧ one.ownerContext = two.ownerContext

theorem StaticSlot.isFor_eq_true (slot : StaticSlot) (access : StaticAccess) :
    slot.isFor access = true ↔
    slot.fieldRow = access.fieldRow ∧ slot.ownerContext = access.ownerContext := by
  simp [isFor, genericTypeContextMatches_iff]

theorem staticFieldSlot_cases (accessed : staticFieldSlot slots access = (result, after)) :
    after = slots ∧ (∀ address ∈ result, ⟨address, access.fieldRow, access.ownerContext⟩ ∈ slots ∧
      access.ownerContext ≠ []) ∨
    access.ownerContext ≠ [] ∧ ∃ address, access.block = some address ∧ result = some address ∧
      after = ⟨address, access.fieldRow, access.ownerContext⟩ :: slots ∧
      ∀ slot ∈ slots,
        ¬ (slot.fieldRow = access.fieldRow ∧ slot.ownerContext = access.ownerContext) := by
  unfold staticFieldSlot at accessed
  split at accessed
  · cases accessed
    exact .inl ⟨rfl, nofun⟩
  · rename_i context
    rw [List.isEmpty_iff] at context
    split at accessed
    · rename_i slot found
      cases accessed
      refine .inl ⟨rfl, ?_⟩
      rintro _ ⟨rfl⟩
      refine ⟨?_, context⟩
      obtain ⟨row, context⟩ := (slot.isFor_eq_true access).mp (by simpa using List.find?_some found)
      rw [← row, ← context]
      exact List.mem_of_find?_eq_some found
    · cases accessed
      exact .inl ⟨rfl, nofun⟩
    · rename_i address missing allocated
      cases accessed
      refine .inr ⟨context, address, allocated, rfl, rfl, fun slot member same => ?_⟩
      exact List.find?_eq_none.mp missing slot member ((slot.isFor_eq_true access).mpr same)

theorem SeparateSlots.cons (separate : SeparateSlots slots)
    (freshAddress : ∀ slot ∈ slots, slot.address ≠ new.address)
    (freshKey : ∀ slot ∈ slots, ¬ (slot.fieldRow = new.fieldRow ∧
      slot.ownerContext = new.ownerContext)) :
    SeparateSlots (new :: slots) := by
  intro one first two second
  rcases List.mem_cons.mp first with rfl | first' <;> rcases List.mem_cons.mp
    second with rfl | second
  · simp
  · refine iff_of_false (freshAddress two second ∘ Eq.symm) fun same => ?_
    exact freshKey two second ⟨same.1.symm, same.2.symm⟩
  · exact iff_of_false (freshAddress one first') (freshKey one first')
  · exact separate one first' two second

/-- An access whose field and arguments have a slot returns its address, also without memory. -/
theorem SeparateSlots.found (separate : SeparateSlots slots) {access : StaticAccess}
    (member : ⟨address, access.fieldRow, access.ownerContext⟩ ∈ slots)
    (context : access.ownerContext ≠ []) :
    staticFieldSlot slots access = (some address, slots) := by
  rw [staticFieldSlot, if_neg (by simpa using context)]
  cases found : slots.find? (·.isFor access) with
  | none =>
    refine absurd ?_ (List.find?_eq_none.mp found _ member)
    simp [StaticSlot.isFor_eq_true]
  | some slot =>
    obtain ⟨row, args⟩ := (slot.isFor_eq_true access).mp (by simpa using List.find?_some found)
    have same := (separate slot (List.mem_of_find?_eq_some found) _ member).mpr ⟨row, args⟩
    simp [same]

/-- The slots stay separate, and each that an access returned stays at its address. -/
theorem staticSlotMachine_run (run : staticSlotMachine.Run labels slots) : SeparateSlots slots ∧
    ∀ access address, (access, some address) ∈ labels →
      ⟨address, access.fieldRow, access.ownerContext⟩ ∈ slots ∧ access.ownerContext ≠ [] := by
  induction run with
  | start first =>
    cases first
    exact ⟨nofun, nofun⟩
  | @next _ before label after _ taken ih =>
    obtain ⟨separate, kept⟩ := ih
    obtain ⟨fresh, accessed⟩ := taken
    rcases staticFieldSlot_cases accessed with ⟨rfl, found⟩ | ⟨context, block, allocated, result,
      rfl, missing⟩
    · refine ⟨separate, fun access address member => ?_⟩
      rcases List.mem_append.mp member with earlier | last
      · exact kept access address earlier
      · cases List.mem_singleton.mp last
        exact found address rfl
    · refine ⟨separate.cons (fun slot member same => fresh slot member ?_) missing, fun access
        address member => ?_⟩
      · rw [allocated, same]
      · rcases List.mem_append.mp member with earlier | last
        · exact (kept access address earlier).imp_left (List.mem_cons_of_mem _)
        · cases List.mem_singleton.mp last
          cases result
          exact ⟨List.mem_cons_self, context⟩

/-- In every run two accesses use the same storage just if they are to the same field of the same
instantiation; and a slot stays at its address, which every later access to the field of the
instantiation returns. -/
theorem staticField_storage_iff (run : staticSlotMachine.Run labels slots)
    (first : (access, some address) ∈ labels) (second : (access', some address') ∈ labels) :
    ⟨address, access.fieldRow, access.ownerContext⟩ ∈ slots ∧
      (address = address' ↔ access.fieldRow = access'.fieldRow ∧
        access.ownerContext = access'.ownerContext) ∧
      ∀ block, staticFieldSlot slots { access with block } = (some address, slots) := by
  obtain ⟨separate, kept⟩ := staticSlotMachine_run run
  obtain ⟨member, context⟩ := kept _ _ first
  exact ⟨member, separate _ member _ (kept _ _ second).1, fun block =>
    separate.found member context⟩

/-- A field of an instantiation by a primitive type. -/
def accessOf (elementType : UInt8) (block : Nat) : StaticAccess :=
  ⟨1, [.mk .primitive elementType 0 0 0 []], some block⟩

/-- The third access is to the slot of the first, and so is any later one. -/
theorem staticField_storage_two : ∃ slots, staticSlotMachine.Run
    [(accessOf 8 100, some 100), (accessOf 14 200, some 200), (accessOf 8 300, some 100)] slots ∧
    (100 = 200 ↔ 1 = 1 ∧ (accessOf 8 100).ownerContext = (accessOf 14 200).ownerContext) ∧
    (100 = 100 ↔ 1 = 1 ∧ (accessOf 8 100).ownerContext = (accessOf 8 300).ownerContext) ∧
    ∀ block, staticFieldSlot slots { accessOf 8 100 with block } = (some 100, slots) := by
  have one :
      staticSlotMachine.Run [(accessOf 8 100, some 100)]
        [⟨100, 1, (accessOf 8 100).ownerContext⟩] :=
    .next (.start rfl) ⟨nofun, rfl⟩
  have two : staticSlotMachine.Run [_, (accessOf 14 200, some 200)] _ := one.next ⟨by decide, rfl⟩
  have three : staticSlotMachine.Run [_, _, (accessOf 8 300, some 100)] _ :=
    two.next ⟨by decide, rfl⟩
  obtain ⟨-, apart, later⟩ := staticField_storage_iff three (List.mem_of_getElem? (i := 0) rfl)
    (List.mem_of_getElem? (i := 1) rfl)
  exact ⟨_, three, apart, (staticField_storage_iff three (List.mem_of_getElem? (i := 0) rfl)
    (List.mem_of_getElem? (i := 2) rfl)).2.1, later⟩

end Zapada.Zaclr
