import Mathlib.Data.List.Induction
import Zapada.Zaclr.TypeTests
import Zapada.Zaclr.VirtualDispatch

namespace Zapada.Zaclr

open List

variable {Ty : Type} {method : MethodDesc Ty} {methods own : List (MethodDesc Ty)}

structure MethodShape where
  name : List Char
  parameterCount : Nat
  genericParameterCount : Nat
  hasThis : Nat
deriving DecidableEq

namespace MethodDesc

def shape (method : MethodDesc Ty) : MethodShape :=
  ⟨method.name, method.parameterCount, method.signature.genericParameterCount, method.hasThis⟩

theorem virtualSlotMatchesMethod_eq (slot method : MethodDesc Ty) :
    slot.virtualSlotMatchesMethod method = decide (slot.shape = method.shape) := by
  simp [virtualSlotMatchesMethod, shape]

theorem matchesDeclared_congr {slot slot' declared : MethodDesc Ty}
    (same : slot.shape = slot'.shape) :
    slot.virtualSlotMatchesDeclaredMethod declared =
      slot'.virtualSlotMatchesDeclaredMethod declared := by
  simp only [shape, MethodShape.mk.injEq] at same
  simp [virtualSlotMatchesDeclaredMethod, same]

theorem matchesDeclared_of_shape {slot declared : MethodDesc Ty}
    (same : slot.shape = declared.shape) :
    slot.virtualSlotMatchesDeclaredMethod declared := by
  simp only [shape, MethodShape.mk.injEq] at same
  simp [virtualSlotMatchesDeclaredMethod, virtualSlotMatchesDeclaredMethod.virtualMethodNameMatches,
    same]

/-- A virtual method that takes over a slot. -/
def isOverride (method : MethodDesc Ty) : Bool := method.isVirtual && !method.isNewSlot

def opensSlot (method : MethodDesc Ty) : Bool := method.isVirtual && method.isNewSlot

end MethodDesc

/-- The virtual methods of a class and its base classes, in the order of their placement. -/
def virtualMethods : List (TypeMethods Ty) → List (MethodDesc Ty)
  | [] => []
  | type :: bases => virtualMethods bases ++ type.methods.filter (·.isVirtual)

/-- Placing a virtual method where every override finds a slot. -/
def place (slots : List (MethodDesc Ty)) (method : MethodDesc Ty) : List (MethodDesc Ty) :=
  if method.isNewSlot then slots ++ [method]
  else
    match slots.findIdx? (·.virtualSlotMatchesMethod method) with
    | some index => slots.set index method
    | none => slots

theorem map_shape_set {slots : List (MethodDesc Ty)}
    (found : slots.findIdx? (·.virtualSlotMatchesMethod method) = some index) :
    (slots.set index method).map (·.shape) = slots.map (·.shape) := by
  obtain ⟨inside, same, _⟩ := findIdx?_eq_some_iff_getElem.mp found
  rw [MethodDesc.virtualSlotMatchesMethod_eq, decide_eq_true_eq] at same
  have unchanged : (slots.map (·.shape))[index]? = some method.shape := by
    rw [List.getElem?_map, List.getElem?_eq_getElem inside, Option.map_some, same]
  obtain ⟨_, read⟩ := List.getElem?_eq_some_iff.mp unchanged
  rw [map_set, ← read, set_getElem_self]

theorem findIdx?_isSome_of_shape {slots : List (MethodDesc Ty)}
    (present : method.shape ∈ slots.map (·.shape)) :
    ∃ index, slots.findIdx? (·.virtualSlotMatchesMethod method) = some index := by
  rw [← Option.isSome_iff_exists, findIdx?_isSome, any_eq_true]
  simpa [MethodDesc.virtualSlotMatchesMethod_eq] using present

/-- While the overrides of a class find slots of the parent, placing its methods needs neither
the bound on the search nor the one on the room. -/
theorem placeMethods_eq (methods : List (MethodDesc Ty)) (parent slots : List (MethodDesc Ty))
    (kept : (slots.take parent.length).map (·.shape) = parent.map (·.shape))
    (found : ∀ method ∈ methods, method.isOverride → method.shape ∈ parent.map (·.shape))
    (room : total = slots.length + methods.countP MethodDesc.opensSlot) :
    methods.foldl (placeMethod parent.length total) slots =
      (methods.filter (·.isVirtual)).foldl place slots := by
  induction methods generalizing slots with
  | nil => rfl
  | cons method rest ih =>
    have foundRest : ∀ other ∈ rest, other.isOverride → other.shape ∈ parent.map (·.shape) :=
      fun other member => found other (mem_cons_of_mem method member)
    have enough : parent.length ≤ slots.length := by
      have length := congrArg length kept
      simp only [length_map, length_take] at length
      omega
    rw [foldl_cons]
    cases isVirtual : method.isVirtual with
    | false =>
      rw [filter_cons_of_neg (by simp [isVirtual]), placeMethod]
      simp only [isVirtual, Bool.not_false, if_true]
      refine ih slots kept foundRest ?_
      rw [room, countP_cons_of_neg (by simp [MethodDesc.opensSlot, isVirtual])]
    | true =>
      rw [filter_cons_of_pos isVirtual, foldl_cons]
      cases newSlot : method.isNewSlot with
      | true =>
        rw [countP_cons_of_pos (by simp [MethodDesc.opensSlot, isVirtual, newSlot])] at room
        have placed : placeMethod parent.length total slots method = slots ++ [method] := by
          simp only [placeMethod, isVirtual, newSlot, Bool.not_true, Bool.false_eq_true,
            if_false, if_true]
          rw [if_pos (by omega)]
        have same : place slots method = slots ++ [method] := by simp [place, newSlot]
        rw [placed, same]
        refine ih (slots ++ [method]) ?_ foundRest ?_
        · rw [take_append_of_le_length enough, kept]
        · rw [length_append, length_singleton]
          omega
      | false =>
        have overrides : method.isOverride = true := by
          simp [MethodDesc.isOverride, isVirtual, newSlot]
        obtain ⟨index, first⟩ :=
          findIdx?_isSome_of_shape (kept ▸ found method mem_cons_self overrides)
        have whole : slots.findIdx? (·.virtualSlotMatchesMethod method) = some index := by
          rw [← take_append_drop parent.length slots, findIdx?_append, first]
          rfl
        have placed : placeMethod parent.length total slots method = slots.set index method := by
          simp [placeMethod, isVirtual, newSlot, first]
        have same : place slots method = slots.set index method := by simp [place, newSlot, whole]
        rw [placed, same]
        refine ih (slots.set index method) ?_ foundRest ?_
        · rw [take_set, map_shape_set first, kept]
        · rw [room, length_set, countP_cons_of_neg (by simp [MethodDesc.opensSlot, newSlot])]

/-- Every virtual method that opens no slot overrides a virtual method of a base class, with the
same name and the same signature. -/
def Overriding [DecidableEq Ty] : List (TypeMethods Ty) → Prop
  | [] => True
  | type :: bases => Overriding bases ∧ ∀ method ∈ type.methods, method.isOverride →
      ∃ declared ∈ virtualMethods bases, declared.same method

theorem map_shape_place (slots : List (MethodDesc Ty)) (method : MethodDesc Ty) :
    (place slots method).map (·.shape) =
      slots.map (·.shape) ++ if method.isNewSlot then [method.shape] else [] := by
  unfold place
  cases newSlot : method.isNewSlot with
  | true => simp
  | false =>
    cases found : slots.findIdx? (·.virtualSlotMatchesMethod method) with
    | none => simp
    | some index => simp [map_shape_set found]

theorem map_shape_foldl (methods slots : List (MethodDesc Ty)) :
    (methods.foldl place slots).map (·.shape) =
      slots.map (·.shape) ++ (methods.filter (·.isNewSlot)).map (·.shape) := by
  induction methods generalizing slots with
  | nil => simp
  | cons method rest ih =>
    rw [foldl_cons, ih, map_shape_place]
    cases newSlot : method.isNewSlot <;> simp [newSlot]

/-- Lists of virtual methods in which every override has a method of its shape before it that
opens a slot. -/
inductive Grounded : List (MethodDesc Ty) → Prop where
  | nil : Grounded []
  | snoc {methods : List (MethodDesc Ty)} {method : MethodDesc Ty} (earlier : Grounded methods)
      (opened : ¬ method.isNewSlot → ∃ first ∈ methods,
        first.isNewSlot ∧ first.shape = method.shape) :
      Grounded (methods ++ [method])

theorem Grounded.opened (grounded : Grounded methods) (member : method ∈ methods) :
    ∃ first ∈ methods, first.isNewSlot ∧ first.shape = method.shape := by
  induction grounded with
  | nil => cases member
  | @snoc methods last earlier opened ih =>
    rcases mem_append.mp member with before | same
    · obtain ⟨first, inside, holds⟩ := ih before
      exact ⟨first, mem_append_left _ inside, holds⟩
    · obtain rfl := mem_singleton.mp same
      by_cases newSlot : method.isNewSlot
      · exact ⟨method, member, newSlot, rfl⟩
      · obtain ⟨first, inside, holds⟩ := opened newSlot
        exact ⟨first, mem_append_left _ inside, holds⟩

theorem Grounded.append (grounded : Grounded methods) (opened : ∀ method ∈ own, ¬ method.isNewSlot →
      ∃ first ∈ methods, first.isNewSlot ∧ first.shape = method.shape) :
      Grounded (methods ++ own) := by
  induction own using reverseRecOn with
  | nil => simpa using grounded
  | append_singleton own last ih =>
    rw [← append_assoc]
    refine .snoc (ih fun method member => opened method (mem_append_left _ member)) ?_
    intro reuse
    obtain ⟨first, inside, holds⟩ := opened last (by simp) reuse
    exact ⟨first, mem_append_left _ inside, holds⟩

theorem place_cons {slot method : MethodDesc Ty} (slots : List (MethodDesc Ty))
    (reuse : ¬ method.isNewSlot) : place (slot :: slots) method =
      if slot.shape = method.shape then method :: slots else slot :: place slots method := by
  unfold place
  by_cases same : slot.shape = method.shape
  · simp [reuse, same, MethodDesc.virtualSlotMatchesMethod_eq, findIdx?_cons]
  · cases found : slots.findIdx? (·.virtualSlotMatchesMethod method) <;>
      simp [reuse, same, MethodDesc.virtualSlotMatchesMethod_eq slot, findIdx?_cons, found]

section Find

variable {sought : MethodDesc Ty → Bool}

/-- How placing an override changes the first slot with a property of shapes. -/
theorem find?_place_override
    (respects : ∀ slot slot', slot.shape = slot'.shape → sought slot = sought slot')
    (reuse : ¬ method.isNewSlot) (slots : List (MethodDesc Ty)) :
    (place slots method).find? sought =
      (slots.find? sought).map fun slot => if slot.shape = method.shape then method else slot := by
  induction slots with
  | nil => simp [place, reuse]
  | cons slot slots ih =>
    rw [place_cons slots reuse]
    cases here : sought slot with
    | true =>
      rw [find?_cons_of_pos here, Option.map_some]
      split
      · rename_i same
        rw [find?_cons_of_pos (by rw [← respects slot method same, here])]
      · rw [find?_cons_of_pos here]
    | false =>
      rw [find?_cons_of_neg (by simp [here])]
      split
      · rename_i same
        have differs : sought method = false := by rw [← respects slot method same, here]
        rw [find?_cons_of_neg (by simp [differs])]
        cases found : slots.find? sought with
        | none => rfl
        | some other =>
          have holds := find?_some found
          have apart : other.shape ≠ method.shape := by
            intro shape
            rw [respects other method shape, differs] at holds
            cases holds
          simp [apart]
      · rw [find?_cons_of_neg (by simp [here]), ih]

def overridesOf (methods : List (MethodDesc Ty)) (shape : MethodShape) : List (MethodDesc Ty) :=
  methods.filter fun method => !method.isNewSlot && method.shape = shape

theorem mem_overridesOf :
    method ∈ overridesOf methods shape ↔ method ∈ methods ∧ method.isNewSlot = false ∧
      method.shape = shape := by
  simp [overridesOf]

/-- The first slot with a property of shapes holds the last override of the shape that the first
such method opened. -/
theorem find?_foldl_place
    (respects : ∀ slot slot', slot.shape = slot'.shape → sought slot = sought slot')
    (grounded : Grounded methods) : (methods.foldl place []).find? sought =
      (methods.find? fun method => method.isNewSlot && sought method).map fun first =>
        (overridesOf methods first.shape).getLast?.getD first := by
  induction grounded with
  | nil => rfl
  | @snoc methods method earlier opened ih =>
    rw [foldl_append, foldl_cons, foldl_nil, find?_append]
    by_cases newSlot : method.isNewSlot
    · have unchanged :
          ∀ shape, overridesOf (methods ++ [method]) shape = overridesOf methods shape := by
        simp [overridesOf, newSlot]
      have placed : place (methods.foldl place []) method = methods.foldl place [] ++ [method] := by
        simp [place, newSlot]
      simp only [unchanged, placed, find?_append, ih]
      cases found : methods.find? fun method => method.isNewSlot && sought method with
      | some first => rfl
      | none =>
        cases here : sought method with
        | false => simp [here]
        | true =>
          have fresh : overridesOf methods method.shape = [] := by
            refine eq_nil_iff_forall_not_mem.mpr fun other override => ?_
            obtain ⟨member, _, same⟩ := mem_overridesOf.mp override
            obtain ⟨first, inside, opens, shape⟩ := earlier.opened member
            have differs := find?_eq_none.mp found first inside
            simp [opens, respects first method (shape.trans same), here] at differs
          simp [newSlot, here, fresh]
    · rw [find?_place_override respects newSlot, ih]
      cases found : methods.find? fun method => method.isNewSlot && sought method with
      | none => simp [newSlot]
      | some first =>
        have shape :
            ((overridesOf methods first.shape).getLast?.getD first).shape = first.shape := by
          cases last : (overridesOf methods first.shape).getLast? with
          | none => rfl
          | some other => exact (mem_overridesOf.mp (mem_of_getLast? last)).2.2
        simp only [Option.map_some, Option.some_or, shape]
        by_cases same : first.shape = method.shape
        · simp [overridesOf, newSlot, same]
        · simp [overridesOf, same, Ne.symm same]

end Find

theorem mem_virtualMethods (derived : List (TypeMethods Ty)) (member : method ∈ declaring.methods)
    (isVirtual : method.isVirtual) :
    method ∈ virtualMethods (derived ++ declaring :: bases) := by
  induction derived with
  | nil => exact mem_append_right _ (mem_filter.mpr ⟨member, isVirtual⟩)
  | cons type rest ih => exact mem_append_left _ ih

/-- With linked base classes the vtable is that of the declared base classes. -/
theorem prepareVtable_eq {program : Program} {naming : Naming program}
    (methods : TypeId → TypeMethods Ty)
    {chain : List TypeId} (lineage : naming.Lineage type chain) (linked : naming.Linked type)
    (fuel : Nat) :
    prepareVtable program methods fuel type =
      if chain.length ≤ fuel then some (vtable (chain.map methods)) else none := by
  induction lineage generalizing fuel with
  | @last type root =>
    cases fuel with
    | zero => rfl
    | succ fuel => simp [prepareVtable, linked type .refl, root, vtable]
  | @derived type base chain step _ ih =>
    cases fuel with
    | zero => rfl
    | succ fuel =>
      have above := ih (fun other derives => linked other (derives.head step)) fuel
      simp only [prepareVtable, linked type .refl, step, above]
      by_cases enough : chain.length ≤ fuel <;> simp [enough, vtable]

section Chain

variable [DecidableEq Ty] {chain : List (TypeMethods Ty)}

theorem MethodDesc.shape_of_same (same : method.same other) : method.shape = other.shape := by
  simp only [MethodDesc.same, decide_eq_true_eq] at same
  simp [shape, parameterCount, hasThis, same]

theorem virtualMethods_grounded (valid : Overriding chain) : Grounded (virtualMethods chain) := by
  induction chain with
  | nil => exact .nil
  | cons type bases ih =>
    obtain ⟨validBases, overrides⟩ := valid
    refine (ih validBases).append ?_
    intro method member reuse
    obtain ⟨inType, isVirtual⟩ := mem_filter.mp member
    obtain ⟨declared, inBases, same⟩ := overrides method inType (by
      simp [MethodDesc.isOverride, isVirtual, reuse])
    obtain ⟨first, inside, opens, shape⟩ := (ih validBases).opened inBases
    exact ⟨first, inside, opens, shape.trans (MethodDesc.shape_of_same same)⟩

/-- The vtable comes from placing the virtual methods one after the other. -/
theorem vtable_eq_place (valid : Overriding chain) :
    vtable chain = (virtualMethods chain).foldl place [] := by
  induction chain with
  | nil => rfl
  | cons type bases ih =>
    obtain ⟨validBases, overrides⟩ := valid
    have parent := ih validBases
    rw [virtualMethods, foldl_append, ← parent, vtable, buildVtable]
    refine placeMethods_eq type.methods (vtable bases) (vtable bases) (by simp) ?_ rfl
    intro method member isOverride
    obtain ⟨declared, inBases, same⟩ := overrides method member isOverride
    obtain ⟨first, inBases', opens, shape⟩ := (virtualMethods_grounded validBases).opened inBases
    rw [parent, map_shape_foldl, map_nil, nil_append, mem_map]
    exact ⟨first, mem_filter.mpr ⟨inBases', opens⟩, shape.trans (MethodDesc.shape_of_same same)⟩

/-- The method that a call selects: the last override of the shape that was first opened among
those that match the declared method. -/
theorem resolveVirtual_eq (valid : Overriding chain) {declared : MethodDesc Ty}
    (isVirtual : declared.isVirtual) :
    resolveVirtual (vtable chain) declared = (((virtualMethods chain).find? fun method =>
          method.isNewSlot && method.virtualSlotMatchesDeclaredMethod declared).map fun first =>
        (overridesOf (virtualMethods chain) first.shape).getLast?.getD first).getD declared := by
  rw [resolveVirtual, vtable_eq_place valid, find?_foldl_place
    (fun _ _ same => MethodDesc.matchesDeclared_congr same) (virtualMethods_grounded valid)]
  simp [isVirtual]

theorem same_mostDerivedOverride (declared : MethodDesc Ty) (derived : List (TypeMethods Ty)) :
    (mostDerivedOverride declared derived).same declared := by
  induction derived generalizing declared with
  | nil => simp [mostDerivedOverride, MethodDesc.same]
  | cons type rest ih =>
    rw [mostDerivedOverride]
    cases found : type.methods.find? fun method => method.isVirtual && method.same declared with
    | none => exact ih declared
    | some method =>
      have same := find?_some found
      simp only [MethodDesc.same, Bool.and_eq_true, decide_eq_true_eq] at same
      dsimp only
      split
      · simp [MethodDesc.same]
      · have overriding := ih method
        simp only [MethodDesc.same, decide_eq_true_eq] at overriding ⊢
        exact ⟨overriding.1.trans same.2.1, overriding.2.trans same.2.2⟩

/-- The condition on the declarations: of the methods that open a slot and match the declared
one the first has its very name, and is the target if that opens a slot; and of the overrides
with the name and the counts of the declared method the target is the last. -/
structure Unambiguous (methods : List (MethodDesc Ty)) (declared target : MethodDesc Ty) :
    Prop where
  first : ∃ first, methods.find? (fun method =>
      method.isNewSlot && method.virtualSlotMatchesDeclaredMethod declared) = some first ∧
    first.shape = declared.shape ∧ (target.isNewSlot → first = target)
  last :
      (overridesOf methods declared.shape).getLast? = if target.isNewSlot then none else some target

theorem resolveVirtual_eq_override_iff {declaring : TypeMethods Ty}
    {derived bases : List (TypeMethods Ty)}
    {declared : MethodDesc Ty} (valid : Overriding (derived ++ declaring :: bases))
    (member : declared ∈ declaring.methods) (isVirtual : declared.isVirtual) :
    resolveVirtual (vtable (derived ++ declaring :: bases)) declared =
      mostDerivedOverride declared derived.reverse ↔
      Unambiguous (virtualMethods (derived ++ declaring :: bases)) declared
        (mostDerivedOverride declared derived.reverse) := by
  have present : declared ∈ virtualMethods (derived ++ declaring :: bases) :=
    mem_virtualMethods derived member isVirtual
  have shape := MethodDesc.shape_of_same (same_mostDerivedOverride declared derived.reverse)
  generalize mostDerivedOverride declared derived.reverse = target at shape ⊢
  obtain ⟨opener, inside, opens, openerShape⟩ := (virtualMethods_grounded valid).opened present
  rw [resolveVirtual_eq valid isVirtual]
  cases found : (virtualMethods (derived ++ declaring :: bases)).find? fun method =>
      method.isNewSlot && method.virtualSlotMatchesDeclaredMethod declared with
  | none =>
    have differs := find?_eq_none.mp found opener inside
    simp [opens, MethodDesc.matchesDeclared_of_shape openerShape] at differs
  | some first =>
    have opensFirst : first.isNewSlot := by
      have holds := find?_some found
      simp only [Bool.and_eq_true] at holds
      exact holds.1
    rw [Option.map_some, Option.getD_some]
    constructor
    · intro selected
      cases last :
          (overridesOf (virtualMethods (derived ++ declaring :: bases)) first.shape).getLast? with
      | none =>
        rw [last, Option.getD_none] at selected
        subst selected
        exact ⟨⟨first, found, shape, fun _ => rfl⟩, by rw [← shape, last, if_pos opensFirst]⟩
      | some override =>
        rw [last, Option.getD_some] at selected
        subst selected
        obtain ⟨_, reuse, overrides⟩ := mem_overridesOf.mp (mem_of_getLast? last)
        have same := overrides.symm.trans shape
        exact ⟨⟨first, found, same, by simp [reuse]⟩,
          by rw [← same, last, if_neg (by simp [reuse])]⟩
    · rintro ⟨⟨other, found', same, only⟩, last⟩
      rw [found] at found'
      cases found'
      rw [same, last]
      by_cases newSlot : target.isNewSlot
      · rw [if_pos newSlot, Option.getD_none]
        exact only newSlot
      · rw [if_neg newSlot, Option.getD_some]

/-- Where the extends tokens are resolved to the classes that they name, a virtual call selects the
most derived override of exactly the declared method if and only if the declarations are
unambiguous for it. -/
theorem virtual_call_selects_override_iff {program : Program} {naming : Naming program}
    (methods : TypeId → TypeMethods Ty) {derived bases : List TypeId} {declared : MethodDesc Ty}
    (lineage : naming.Lineage receiver (derived ++ declaring :: bases))
    (linked : naming.Linked receiver)
    (valid : Overriding ((derived ++ declaring :: bases).map methods))
    (member : declared ∈ (methods declaring).methods) (isVirtual : declared.isVirtual) :
    Selects program methods receiver declared
      (mostDerivedOverride declared (derived.map methods).reverse) ↔
      Unambiguous (virtualMethods ((derived ++ declaring :: bases).map methods)) declared
        (mostDerivedOverride declared (derived.map methods).reverse) := by
  have prepared := prepareVtable_eq methods lineage linked
  simp only [map_append, map_cons] at valid prepared ⊢
  rw [← resolveVirtual_eq_override_iff valid member isVirtual]
  constructor
  · rintro ⟨fuel, table, made, selected⟩
    rw [prepared] at made
    split_ifs at made
    cases made
    exact selected
  · intro selected
    exact ⟨_, _, (prepared _).trans (if_pos le_rfl), selected⟩

end Chain

/-- An instance method with one parameter. -/
def sampleMethod (token : Nat) (name : String) (parameter : Nat) (flags : Nat) :
    MethodDesc Nat where
  assembly := 0
  token := token
  name := name.toList
  signature :=
    { callingConvention := 0x20, genericParameterCount := 0, returnType := 0, parameters := [parameter] }
  methodFlags := flags

def overloadedBase : TypeMethods Nat where
  methodMap :=
    [sampleMethod 1 "Write" 1 0x140, sampleMethod 2 "Write" 2 0x140, sampleMethod 3 "Read" 1 0x140]
  firstMethodIndex := 0
  methodCount := 3

/-- A derived class that overrides the second overload, and the method without overloads. -/
def overridingClass : TypeMethods Nat where
  methodMap := [sampleMethod 4 "Write" 2 0x40, sampleMethod 5 "Read" 1 0x40]
  firstMethodIndex := 0
  methodCount := 2

/-- The methods of two derived classes and of their base classes. -/
def sampleMethods (type : TypeId) : TypeMethods Nat :=
  if type.row = 3 ∨ type.row = 5 then overridingClass else overloadedBase

theorem overridingClass_valid : Overriding [overridingClass, overloadedBase] := by
  refine ⟨⟨trivial, by decide⟩, by decide⟩

theorem virtual_call_selects_override_read :
    Selects sampleProgram sampleMethods ⟨0, 3⟩ (sampleMethod 3 "Read" 1 0x140)
      (sampleMethod 5 "Read" 1 0x40) := by
  have target : mostDerivedOverride (sampleMethod 3 "Read" 1 0x140) [overridingClass].reverse =
      sampleMethod 5 "Read" 1 0x40 := by decide
  have lineage : sampleNaming.Lineage ⟨0, 3⟩ ([⟨0, 3⟩] ++ ⟨0, 2⟩ :: []) :=
    .derived (by decide) (.last (by decide))
  have unambiguous : Unambiguous (virtualMethods [overridingClass, overloadedBase])
      (sampleMethod 3 "Read" 1 0x140) (sampleMethod 5 "Read" 1 0x40) :=
    ⟨⟨sampleMethod 3 "Read" 1 0x140, by decide, by decide, by decide⟩, by decide⟩
  rw [← target] at unambiguous ⊢
  exact (virtual_call_selects_override_iff sampleMethods lineage sampleNaming_linked
    overridingClass_valid (by decide) (by decide)).mpr unambiguous

/-- A call of the first overload selects the override of the second; and where the base class is
lost, a call of a method without overloads misses its override. -/
theorem virtual_call_selects_other_overload :
    (Overriding [overridingClass, overloadedBase] ∧
      mostDerivedOverride (sampleMethod 1 "Write" 1 0x140) [overridingClass] =
        sampleMethod 1 "Write" 1 0x140 ∧
      Selects sampleProgram sampleMethods ⟨0, 3⟩ (sampleMethod 1 "Write" 1 0x140)
        (sampleMethod 4 "Write" 2 0x40)) ∧
    (sampleNaming.Lineage ⟨0, 5⟩ [⟨0, 5⟩, ⟨0, 4⟩] ∧
      mostDerivedOverride (sampleMethod 3 "Read" 1 0x140) [overridingClass] =
        sampleMethod 5 "Read" 1 0x40 ∧
      Selects sampleProgram sampleMethods ⟨0, 5⟩ (sampleMethod 3 "Read" 1 0x140)
        (sampleMethod 3 "Read" 1 0x140)) :=
  ⟨⟨overridingClass_valid, by decide, 2, _, rfl, by decide⟩,
    .derived (by decide) (.last (by decide)), by decide, 1, _, rfl, by decide⟩

end Zapada.Zaclr
