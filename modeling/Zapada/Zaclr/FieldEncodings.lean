import Zapada.Zaclr.FieldAccess

namespace Zapada.Zaclr

open Foundation DeclaredType ElementType BitVec

section Encoding

variable {layout : FieldLayout} {memory : Memory}

theorem storedInteger_stack (integer : IntegerValue) :
    storedInteger integer.stack = some (integer.extended .unsigned) := by
  cases integer <;> rfl

theorem load_store_word (address : Nat) (word : BitVec 64) :
    (memory.store address size word.toNat).load address size =
      (word.setWidth (8 * size)).toNat := by
  rw [Memory.load_store, toNat_setWidth, show 256 ^ size = 2 ^ (8 * size)
    from (Nat.pow_mul 2 8 size).symm]

/-- A word that is extended with zeros is signed the same number if its sign is clear. -/
theorem zeroExtend_toInt_iff (word : BitVec (w + 1)) (shorter : w + 1 < n + 1) :
    (word.setWidth (n + 1)).toInt = word.toInt ↔ word.toNat < 2 ^ w := by
  have more : 2 ^ (w + 1) ≤ 2 ^ n := Nat.pow_le_pow_right (by decide) (by omega)
  have same : (word.setWidth (n + 1)).toNat = word.toNat := by
    rw [toNat_setWidth, Nat.mod_eq_of_lt (by omega)]
  rw [toInt_eq_toNat_cond, toInt_eq_toNat_cond, same, if_pos (by omega)]
  split <;> omega

theorem narrow_number_iff (integer : IntegerValue) (reading : Signedness) (high : w + 1 < 32) :
    reading.read (BitVec.ofNat 32 ((integer.extended .unsigned).setWidth (w + 1)).toNat) =
        reading.read ((integer.extended reading).setWidth (w + 1)) ↔
      reading = .unsigned ∨ integer.read .signed % 2 ^ (w + 1) < 2 ^ w := by
  have narrow : w + 1 ≤ 32 := by omega
  rw [integer.read_mod (by omega), integer.cut_extended _ narrow, integer.cut_extended _ narrow,
    integer.cut_extended _ narrow, ofNat_toNat]
  cases reading with
  | unsigned =>
    generalize integer.low.setWidth (w + 1) = word
    have small : word.toNat < 2 ^ 32 :=
      Nat.lt_of_lt_of_le word.isLt (Nat.pow_le_pow_right (by decide) narrow)
    simp only [Signedness.read, true_or, iff_true]
    rw [toNat_setWidth, Nat.mod_eq_of_lt small]
  | signed =>
    simp only [Signedness.read, reduceCtorEq, false_or]
    rw [zeroExtend_toInt_iff _ high]
    exact_mod_cast Iff.rfl

theorem wide_number_iff (integer : IntegerValue) (reading : Signedness)
    (wide : v + 1 = 64 ∨ v + 1 ≤ 32) :
    reading.read (integer.extended .unsigned) =
      reading.read ((integer.extended reading).setWidth (v + 1)) ↔
      reading.Fits (v + 1) (integer.read reading) ∧
        (reading = .signed → ∀ word, integer = .int32 word → 0 ≤ word.toInt) := by
  have exact := reading.read_setWidth_iff (integer.extended reading) (show v + 1 ≤ 64 by omega)
  rw [integer.read_extended] at exact
  by_cases same : integer.extended .unsigned = integer.extended reading
  · have nonnegative : reading = .signed → ∀ word, integer = .int32 word → 0 ≤ word.toInt := by
      rintro rfl
      exact integer.extended_same_iff.mp same
    rw [same, integer.read_extended, eq_comm, exact]
    exact ⟨fun fits => ⟨fits, nonnegative⟩, And.left⟩
  · cases reading with
    | unsigned => exact absurd rfl same
    | signed =>
      rw [integer.extended_same_iff] at same
      push Not at same
      obtain ⟨word, rfl, negative⟩ := same
      have large : 2 ^ 31 ≤ word.toNat := by
        have number := toInt_eq_toNat_cond word
        split at number <;> omega
      have zeros : (word.setWidth 64).toInt = word.toNat := by
        rw [toInt_eq_toNat_cond, setWidth_toNat, if_pos (by have := word.isLt; omega)]
      have less : ((word.signExtend 64).setWidth (v + 1)).toInt < 2 ^ 31 := by
        rcases wide with all | few
        · obtain rfl : v = 63 := by omega
          rw [setWidth_eq, signExtend_toInt]
          omega
        · have bound := (Signedness.toInt_bounds ((word.signExtend 64).setWidth (v + 1))).2
          have power : (2 : Int) ^ v ≤ 2 ^ 31 := by
            exact_mod_cast Nat.pow_le_pow_right (by decide) (by omega)
          omega
      simp only [Signedness.read, IntegerValue.extended, zeros]
      constructor
      · intro equal
        omega
      · rintro ⟨-, nonnegative⟩
        have := nonnegative trivial word rfl
        omega

/-- What a field of so many bytes makes of a word. -/
def storedWord (size : Nat) (word : BitVec 64) : StackValue :=
  if size ≤ 4 then .i4 (BitVec.ofNat 32 (word.setWidth (8 * size)).toNat) else .i8 word

variable (memory) in
/-- A value is stored at the place of a field and loaded again as it should. -/
def FieldLayout.GivesBack (layout : FieldLayout) (declared : DeclaredType) (value : StackValue)
    (address : Nat) : Prop :=
  ∃ width number, layout.storeCode value = some (width, number) ∧
    ∃ result, loadFieldValue (memory.store address width number) address layout = some result ∧
      declared.Represents value result

/-- A field that is no value type and no reference holds an integer. -/
theorem givesBack_word_iff (notValue : layout.elementType ≠ valuetype)
    (notReference : layout.isReference = false)
    (sized : layout.fieldSize ∈ [1, 2, 4, 8]) (address : Nat) :
    layout.GivesBack memory declared value address ↔
      ∃ word, storedInteger value = some word ∧
        declared.Represents value (storedWord layout.fieldSize word) := by
  have loaded (word : BitVec 64) :
      loadFieldValue (memory.store address layout.fieldSize word.toNat) address layout =
      some (storedWord layout.fieldSize word) := by
    by_cases small : layout.fieldSize ≤ 4
    · simp [loadFieldValue, storedWord, notValue, notReference, small, load_store_word]
    · have eight : layout.fieldSize = 8 := by
        simp only [List.mem_cons, List.not_mem_nil, or_false] at sized
        omega
      have whole :
          (memory.store address 8 word.toNat).load address 8 = (word.setWidth (8 * 8)).toNat :=
        load_store_word address word
      simp [loadFieldValue, storedWord, notValue, notReference, eight, whole]
  cases stored : storedInteger value with
  | none => simp [FieldLayout.GivesBack, FieldLayout.storeCode, notValue, notReference, stored]
  | some word =>
    simp [FieldLayout.GivesBack, FieldLayout.storeCode, notValue, notReference, stored,
      sized, loaded]

theorem IntegerValue.exists_stack (integer : IntegerValue) (holds : IntegerValue → Prop) :
    (∃ other : IntegerValue, integer.stack = other.stack ∧ holds other) ↔ holds integer := by
  constructor
  · rintro ⟨other, same, there⟩
    cases integer <;> cases other <;> simp_all [IntegerValue.stack]
  · intro here
    exact ⟨integer, rfl, here⟩

/-- The sizes that occur with integers of so many bits: the own one, or a word for a type variable.
-/
theorem integer_number_iff (integer : IntegerValue) {type : PrimitiveType}
    (is : type.integer = some (bits, reading)) (sized : bits = 8 * size ∨ size = 8) :
    stackNumber reading (storedWord size (integer.extended .unsigned)) =
        some (reading.read ((integer.extended reading).setWidth bits)) ↔
          integer.KeptIn size bits reading := by
  unfold IntegerValue.KeptIn storedWord
  have widths : bits = 8 ∨ bits = 16 ∨ bits = 32 ∨ bits = 64 := by
    cases type <;> simp [PrimitiveType.integer] at is <;> omega
  by_cases wide : size = 8
  · subst wide
    obtain ⟨v, rfl⟩ : ∃ v, bits = v + 1 := ⟨bits - 1, by omega⟩
    have number := wide_number_iff integer reading (v := v) (by omega)
    simpa [stackNumber] using number
  · have own : bits = 8 * size := sized.resolve_right wide
    subst own
    have small : size ≤ 4 := by omega
    rw [if_pos small]
    simp only [stackNumber, Option.some.injEq, wide, false_implies, and_true]
    by_cases word : size = 4
    · subst word
      simp only [Nat.reduceMul, integer.cut_extended _ (Nat.le_refl 32), BitVec.ofNat_toNat,
        BitVec.setWidth_eq]
      simp
    · obtain ⟨w, eq⟩ : ∃ w, 8 * size = w + 1 := ⟨8 * size - 1, by omega⟩
      have less : size < 4 := by omega
      simp only [less, true_implies]
      rw [eq, Nat.add_sub_cancel]
      exact narrow_number_iff integer reading (by omega)

theorem primitives_reserved : ∀ entry ∈ primitives, isReference entry.1 = false ∧
    entry.1 ≠ valuetype ∧ (elementExtent entry.1).1 ∈ [1, 2, 4, 8] ∧
    entry.2.integer.all fun integral => integral.1 = 8 * (elementExtent entry.1).1 := by
  decide

theorem reserved_other (unknown : primitives.lookup elementType = none) :
    (elementExtent elementType).1 = 8 := by
  simp [primitives, List.lookup_eq_none_iff] at unknown
  simp [elementExtent, sizeFromElementType, unknown]

theorem givesBack_plain_iff {field : FieldDesc α} (of : layout.Of field)
    (notValue : field.elementType ≠ valuetype)
    (notReference : isReference field.elementType = false) (sized : field.reserved ∈ [1, 2, 4, 8])
    (shape : field.reserved = 8 ∨ ∃ type, field.declared instantiated = .primitive type ∧
      type.integer.all fun integral => integral.1 = 8 * field.reserved)
    (admits : (field.declared instantiated).Admits value) (address : Nat) :
    layout.GivesBack memory (field.declared instantiated) value address ↔
      field.Faithful instantiated value := by
  have size : layout.fieldSize = field.reserved := of.fieldSize notValue
  rw [givesBack_word_iff (by rwa [of.elementType]) (by rwa [of.isReference]) (size ▸ sized), size]
  unfold FieldDesc.Faithful
  cases declared : field.declared instantiated with
  | primitive type =>
    rw [declared] at admits
    cases is : type.integer with
    | none =>
      have isFloat : stackValueIsFloat value = true := by
        simpa [DeclaredType.Admits, is] using admits
      have noInteger : storedInteger value = none := by cases value <;> first | rfl | cases isFloat
      simp [noInteger, is]
    | some integral =>
      obtain ⟨bits, reading⟩ := integral
      simp only [DeclaredType.Admits, is, Option.isSome_some, if_true] at admits
      obtain ⟨integer, rfl, -⟩ := admits
      have width : bits = 8 * field.reserved ∨ field.reserved = 8 := by
        rcases shape with eight | ⟨same, primitive, own⟩
        · exact .inr eight
        · rw [declared] at primitive
          cases primitive
          exact .inl (by simpa [is] using own)
      simp only [storedInteger_stack, Option.some.injEq, exists_eq_left',
        DeclaredType.Represents, is,
        IntegerValue.exists_stack]
      exact integer_number_iff integer is width
  | reference =>
    rw [declared] at admits
    obtain ⟨reference, rfl⟩ := admits
    simp [storedInteger, notReference]
  | valueType =>
    have eight : field.reserved = 8 := by
      rcases shape with eight | ⟨same, primitive, -⟩
      · exact eight
      · rw [declared] at primitive
        cases primitive
    rw [declared] at admits
    rcases admits with ⟨token, payload, rfl⟩ | ⟨integer, rfl⟩
    · simp [storedInteger]
    · cases integer <;> simp [storedInteger, IntegerValue.stack, storedWord, eight,
        DeclaredType.Represents, notValue]
  | byref =>
    rw [declared] at admits
    obtain ⟨_, _, _, _, rfl⟩ := admits
    simp [storedInteger]

/-- A field gives back just the values that are faithful to it, whatever the memory held. -/
theorem FieldLayout.Of.givesBack_iff {field : FieldDesc α} (of : layout.Of field)
    (admits : (field.declared instantiated).Admits value) (address : Nat) :
    layout.GivesBack memory (field.declared instantiated) value address ↔
      field.Faithful instantiated value := by
  cases byRef : field.isByRef with
  | true =>
    have declared : field.declared instantiated = .byref := by simp [FieldDesc.declared, byRef]
    simp only [FieldDesc.Faithful, declared, iff_false] at admits ⊢
    obtain ⟨_, _, _, _, rfl⟩ := admits
    rintro ⟨width, number, code, result, loaded, rfl⟩
    simp only [loadFieldValue] at loaded
    split_ifs at loaded <;> cases loaded
  | false =>
    cases known : primitives.lookup field.elementType with
    | some type =>
      have listed : (field.elementType, type) ∈ primitives := by
        obtain ⟨_, _, split, -⟩ := List.lookup_eq_some_iff.mp known
        simp [split]
      obtain ⟨notReference, notValue, sized, bits⟩ := primitives_reserved _ listed
      have declared : field.declared instantiated = .primitive type := by
        simp [FieldDesc.declared, ofElementType, byRef, known]
      exact givesBack_plain_iff of notValue notReference sized (.inr ⟨type, declared, bits⟩)
        admits address
    | none =>
      have eight : field.reserved = 8 := reserved_other known
      cases reference : Zaclr.isReference field.elementType with
      | true =>
        have declared : field.declared instantiated = .reference := by
          simp [FieldDesc.declared, ofElementType, byRef, known, reference]
        simp only [FieldDesc.Faithful, declared, reference, iff_true] at admits ⊢
        obtain ⟨referenced, rfl⟩ := admits
        have notValue : layout.elementType ≠ valuetype := by
          intro same
          rw [← of.elementType, same] at reference
          cases reference
        have isReference : layout.isReference = true := of.isReference.trans reference
        refine ⟨8, referenced.toNat, by simp [storeCode, notValue, isReference],
          .objectReference referenced, ?_, rfl⟩
        simp [loadFieldValue, notValue, isReference, load_store_word]
      | false =>
        by_cases value : field.elementType = valuetype
        · have declared : field.declared instantiated = .valueType := by
            simp only [FieldDesc.declared, byRef, value]
            rfl
          simp only [FieldDesc.Faithful, declared, value, ne_eq, not_true, false_and,
            iff_false] at admits ⊢
          rintro ⟨width, number, code, result, loaded, rfl⟩
          have here : layout.elementType = valuetype := of.elementType.trans value
          rcases admits with ⟨token, payload, rfl⟩ | ⟨integer, rfl⟩
          · simp [storeCode, here, storedInteger] at code
          · simp only [loadFieldValue, here, if_true] at loaded
            cases integer <;> cases loaded
        · exact givesBack_plain_iff of value reference (by simp [eight]) (.inl eight) admits address

end Encoding

end Zapada.Zaclr
