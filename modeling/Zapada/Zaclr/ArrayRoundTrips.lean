import Zapada.Foundation.Overlaps
import Zapada.Zaclr.ManagedHeap

namespace Zapada.Zaclr

open Foundation Signedness ArrayDesc

inductive PrimitiveType where
  | boolean
  | char
  | sbyte
  | byte
  | int16
  | uint16
  | int32
  | uint32
  | int64
  | uint64
  | intPtr
  | uintPtr
  | single
  | double
deriving DecidableEq

namespace PrimitiveType

def typeName : PrimitiveType → String
  | boolean => "Boolean"
  | char => "Char"
  | sbyte => "SByte"
  | byte => "Byte"
  | int16 => "Int16"
  | uint16 => "UInt16"
  | int32 => "Int32"
  | uint32 => "UInt32"
  | int64 => "Int64"
  | uint64 => "UInt64"
  | intPtr => "IntPtr"
  | uintPtr => "UIntPtr"
  | single => "Single"
  | double => "Double"

/-- The instructions for elements of the type. -/
def storeOpcode : PrimitiveType → StoreElement
  | boolean | sbyte | byte => .i1
  | char | int16 | uint16 => .i2
  | int32 | uint32 => .i4
  | int64 | uint64 => .i8
  | intPtr | uintPtr => .i
  | single => .r4
  | double => .r8

def loadOpcode : PrimitiveType → LoadElement
  | boolean | byte => .u1
  | sbyte => .i1
  | char | uint16 => .u2
  | int16 => .i2
  | int32 => .i4
  | uint32 => .u4
  | int64 | uint64 => .i8
  | intPtr | uintPtr => .i
  | single => .r4
  | double => .r8

/-- The bits of an integer type, or none for a floating-point type. -/
def integer : PrimitiveType → Option (Nat × Signedness)
  | boolean | byte => some (8, .unsigned)
  | sbyte => some (8, .signed)
  | char | uint16 => some (16, .unsigned)
  | int16 => some (16, .signed)
  | int32 => some (32, .signed)
  | uint32 => some (32, .unsigned)
  | int64 | intPtr => some (64, .signed)
  | uint64 | uintPtr => some (64, .unsigned)
  | single | double => none

end PrimitiveType

inductive ElementType where
  | primitive (type : PrimitiveType)
  | reference
deriving DecidableEq

/-- The number that an integer on the stack stands for. -/
def stackNumber (reading : Signedness) : StackValue → Option Int
  | .i4 word => some (reading.read word)
  | .i8 word => some (reading.read word)
  | _ => none

/-- How an element of a type holds a value: integers are cut to the width of the type,
floating-point numbers are converted, references are unchanged. -/
def ElementType.Holds : ElementType → StackValue → StackValue → Prop
  | .primitive type, value, result =>
    match type.integer with
    | some (bits, reading) =>
      ∃ word, stackValueToI64 value = some word ∧
        stackNumber reading result = some (reading.read (word.setWidth bits))
    | none =>
      result = if type = .single then .r4 (storedR4 value) else .r8
        (stackValueToCommonFloatBits value)
  | .reference, value, result => result = value

/-- The values that can be stored in an element. -/
def ElementType.Admits : ElementType → StackValue → Prop
  | .primitive type, value =>
    if type.integer.isSome then ∃ integer :
        IntegerValue, value = integer.stack else stackValueIsFloat value
  | .reference, value => ∃ address, value = .objectReference address

/-- The instructions of the type itself, or `stelem` and `ldelem` with a token. -/
inductive AccessForm where
  | direct
  | generic
deriving DecidableEq

def ElementType.storeOpcode : ElementType → AccessForm → StoreElement
  | _, .generic => .generic
  | .primitive type, .direct => type.storeOpcode
  | .reference, .direct => .ref

def ElementType.loadOpcode : ElementType → AccessForm → LoadElement
  | _, .generic => .generic
  | .primitive type, .direct => type.loadOpcode
  | .reference, .direct => .ref

/-- The token of `newarr` names the element type, or is a specification that stands for it. -/
def ElementType.Named (element : ElementType) (program : Program) (current token : Nat) : Prop :=
  match element with
  | .primitive type =>
    tokenMatchesTable token typeSpecTable ∨ program.defOrRefName current token =
      some ⟨"System", type.typeName⟩
  | .reference => tokenIsHeapReference token

/-- Whatever the memory holds, the stored value is loaded again and the other elements load
what they did before. -/
def RoundTrips (array : ArrayDesc) (element : ElementType) (form : AccessForm) (index : BitVec 32)
    (value : StackValue) : Prop :=
  ∀ memory, ∃ after, writeArrayIndexedValue memory array index (element.storeOpcode form) value =
    some after ∧
    (∃ result, readArrayIndexedValue after array index (element.loadOpcode form) = some result ∧
      element.Holds value result) ∧
    ∀ other, other < array.length → other ≠ index →
      readArrayIndexedValue after array other (element.loadOpcode form) =
        readArrayIndexedValue memory array other (element.loadOpcode form)

/-- The simple names for which `newarr` reserves less than a reference needs. -/
def narrowNames : List String :=
  ["Byte", "SByte", "Boolean", "Int16", "UInt16", "Char", "Int32", "UInt32", "Single"]

def ElementType.Storable (element : ElementType) (form : AccessForm) (program : Program)
    (current token : Nat) (length : BitVec 32) (value : StackValue) : Prop :=
  match element, form with
  -- any token counts as a reference type, so no number is stored
  | .primitive _, .generic => False
  -- elements have 8 bytes and are accessed with 4
  | .primitive .intPtr, .direct =>
    ∃ word, stackValueToI64 value = some word ∧ Signedness.signed.Fits 32 word.toInt
  | .primitive .uintPtr, .direct =>
    ∃ word, stackValueToI64 value = some word ∧ Signedness.unsigned.Fits 32 word.toNat
  | .primitive _, .direct => True
  | .reference, _ =>
    tokenMatchesTable token typeSpecTable ∨
      (∀ name, program.defOrRefName current token = some name →
      name.typeName ∉ narrowNames) ∨ length = 1

section Accesses

variable {array : ArrayDesc} {index other : BitVec 32}

theorem elements_apart (narrow : width ≤ array.elementSize) (different : other ≠ index) :
    array.elementAddress other + width ≤ array.elementAddress index ∨
      array.elementAddress index + width ≤ array.elementAddress other := by
  have distinct : other.toNat ≠ index.toNat := fun same => different (BitVec.eq_of_toNat_eq same)
  have step : ∀ one two :
      Nat, one < two → one * array.elementSize + width ≤ two * array.elementSize := by
    intro one two before
    have next := Nat.mul_le_mul_right array.elementSize (Nat.succ_le_of_lt before)
    rw [Nat.succ_mul] at next
    omega
  unfold elementAddress
  rcases Nat.lt_or_gt_of_ne distinct with before | after
  · have := step _ _ before
    omega
  · have := step _ _ after
    omega

section

variable {element : ElementType} (inside : index < array.length)
  (stored : array.storeCode value (element.storeOpcode form) = some (width, number))
  (loaded : array.loadCode (element.loadOpcode form) = some (width, push))

include inside stored loaded

theorem roundTrips_iff_memory : RoundTrips array element form index value ↔
    element.Holds value (push (number % 256 ^ width)) ∧ ∀ (memory : Memory) other,
      other < array.length → other ≠ index →
      push ((memory.store (array.elementAddress index) width number).load
        (array.elementAddress other) width) =
        push (memory.load (array.elementAddress other) width) := by
  have read : ∀ (memory : Memory) other, other < array.length →
      readArrayIndexedValue memory array other (element.loadOpcode form) =
        some (push (memory.load (array.elementAddress other) width)) := by
    intro memory other below
    simp [readArrayIndexedValue, BitVec.not_le.mpr below, loaded]
  have write :
      ∀ memory, writeArrayIndexedValue memory array index (element.storeOpcode form) value =
      some (memory.store (array.elementAddress index) width number) := by
    simp [writeArrayIndexedValue, BitVec.not_le.mpr inside, stored]
  simp only [RoundTrips, write, Option.some.injEq, exists_eq_left', read _ _ inside,
    Memory.load_store]
  constructor
  · intro trips
    refine ⟨(trips fun _ => 0).1, fun memory other below different => ?_⟩
    simpa [read _ _ below] using (trips memory).2 other below different
  · rintro ⟨holds, kept⟩ memory
    refine ⟨holds, fun other below different => ?_⟩
    rw [read _ _ below, read _ _ below, kept memory other below different]

/-- An access whose width fits the elements, or is to the only element. -/
theorem roundTrips_of (holds : element.Holds value (push (number % 256 ^ width)))
    (room : width ≤ array.elementSize ∨ array.length = 1) :
    RoundTrips array element form index value := by
  refine (roundTrips_iff_memory inside stored loaded).mpr
    ⟨holds, fun memory other below different => ?_⟩
  rcases room with narrow | single
  · rw [Memory.load_store_disjoint]
    exact elements_apart narrow different
  · rw [single, BitVec.lt_def] at inside below
    exact absurd (BitVec.eq_of_toNat_eq (by simp at inside below; omega)) different

omit stored loaded in
theorem exists_neighbour (several : array.length ≠ 1) :
    ∃ other, other < array.length ∧
      (other.toNat = index.toNat + 1 ∨ index.toNat = other.toNat + 1) := by
  have plural : array.length.toNat ≠ 1 := fun single => several (BitVec.eq_of_toNat_eq single)
  rw [BitVec.lt_def] at inside
  by_cases last : index.toNat + 1 < array.length.toNat
  · refine ⟨BitVec.ofNat 32 (index.toNat + 1), ?_⟩
    rw [BitVec.lt_def, BitVec.toNat_ofNat]
    omega
  · refine ⟨BitVec.ofNat 32 (index.toNat - 1), ?_⟩
    rw [BitVec.lt_def, BitVec.toNat_ofNat]
    omega

/-- An access that is wider than the elements reaches the neighbours. -/
theorem not_roundTrips
    (injective : ∀ one < 256 ^ width, ∀ other < 256 ^ width, push one = push other → one = other)
    (wide : array.elementSize < width) (several : array.length ≠ 1) :
    ¬ RoundTrips array element form index value := by
  intro trips
  obtain ⟨other, below, neighbour⟩ := exists_neighbour inside several
  have step : array.elementAddress other = array.elementAddress index + array.elementSize ∨
      array.elementAddress index = array.elementAddress other + array.elementSize := by
    unfold elementAddress
    rcases neighbour with next | previous
    · rw [next, Nat.succ_mul]
      omega
    · rw [previous, Nat.succ_mul]
      omega
  obtain ⟨memory, visible⟩ := Memory.store_visible (array.elementAddress index) width number
    (array.elementAddress other) width (by omega)
  have same :=
    ((roundTrips_iff_memory inside stored loaded).mp trips).2 memory other below
      (by rintro rfl; omega)
  exact visible (injective _ (Memory.load_lt ..) _ (Memory.load_lt ..) same)

end

end Accesses

section Integers

variable (integer : IntegerValue)

/-- A load of a few bytes of a number finds the number cut to these bytes. -/
theorem stored_word (bits : Nat) :
    BitVec.ofNat 32 (integer.low.toNat % 2 ^ bits) = (integer.low.setWidth bits).setWidth 32 := by
  rw [← BitVec.toNat_setWidth, BitVec.ofNat_toNat]

theorem cut_unsigned (bits : Nat) (narrow : bits ≤ 32) :
    unsigned.read (BitVec.ofNat 32 (integer.low.toNat % 2 ^ bits)) =
      unsigned.read ((integer.extended .signed).setWidth bits) := by
  rw [stored_word, integer.cut_extended _ narrow]
  exact congrArg Int.ofNat (BitVec.toNat_setWidth_of_le narrow)

theorem cut_signed (narrow : bits ≤ 32) :
    signed.read (castSigned bits (BitVec.ofNat 32 (integer.low.toNat % 2 ^ bits))) =
      signed.read ((integer.extended .signed).setWidth bits) := by
  rw [castSigned, stored_word, integer.cut_extended _ narrow,
    BitVec.setWidth_setWidth_of_le _ narrow, BitVec.setWidth_eq]
  exact BitVec.toInt_signExtend_of_le narrow

theorem cut_word :
    BitVec.ofNat 32 (integer.low.toNat % 2 ^ 32) = (integer.extended .signed).setWidth 32 := by
  rw [stored_word, ← integer.cut_extended .signed (Nat.le_refl 32), BitVec.setWidth_eq]

theorem cut_wide :
    BitVec.ofNat 64 ((integer.extended .signed).toNat % 2 ^ 64) =
      (integer.extended .signed).setWidth 64 := by
  apply BitVec.eq_of_toNat_eq
  rw [BitVec.toNat_ofNat, BitVec.toNat_setWidth, Nat.mod_mod]

end Integers

/-- The bytes of an access to an element of a type, and that they hold the value. -/
def PrimitiveType.Accessed (type : PrimitiveType) (array : ArrayDesc) (value : StackValue) : Prop :=
  ∃ width number push, array.storeCode value type.storeOpcode = some (width, number) ∧
    array.loadCode type.loadOpcode = some (width, push) ∧
    (ElementType.primitive type).Holds value (push (number % 256 ^ width)) ∧
    width = elementSizeForTypeName type.typeName

theorem PrimitiveType.accessed_low {type : PrimitiveType} {integer : IntegerValue}
    (is : type.integer = some (bits, reading))
    (stored : array.storeCode integer.stack type.storeOpcode =
      (stackValueToI32 integer.stack).map fun number => (width, number.toNat))
    (loaded : array.loadCode type.loadOpcode = some (width, push))
    (size : width = elementSizeForTypeName type.typeName)
    (number : stackNumber reading (push (integer.low.toNat % 256 ^ width)) =
      some (reading.read ((integer.extended .signed).setWidth bits))) :
      type.Accessed array integer.stack := by
  rw [integer.stackValueToI32_stack] at stored
  refine ⟨width, integer.low.toNat, push, stored, loaded, ?_, size⟩
  simp only [ElementType.Holds, is]
  exact ⟨integer.extended .signed, integer.stackValueToI64_stack, number⟩

/-- Elements of a type that are accessed with its own instructions. -/
theorem PrimitiveType.access (type : PrimitiveType) (notPointer : type ≠ .intPtr ∧ type ≠ .uintPtr)
    (array : ArrayDesc)
    (admits : (ElementType.primitive type).Admits value) : type.Accessed array value := by
  cases type with
  | boolean | byte =>
    obtain ⟨integer, rfl⟩ := admits
    exact accessed_low rfl rfl rfl rfl (congrArg some (cut_unsigned integer 8 (by decide)))
  | sbyte =>
    obtain ⟨integer, rfl⟩ := admits
    exact accessed_low rfl rfl rfl rfl (congrArg some (cut_signed integer (by decide)))
  | char | uint16 =>
    obtain ⟨integer, rfl⟩ := admits
    exact accessed_low rfl rfl rfl rfl (congrArg some (cut_unsigned integer 16 (by decide)))
  | int16 =>
    obtain ⟨integer, rfl⟩ := admits
    exact accessed_low rfl rfl rfl rfl (congrArg some (cut_signed integer (by decide)))
  | int32 | uint32 =>
    obtain ⟨integer, rfl⟩ := admits
    exact accessed_low rfl rfl rfl rfl (congrArg (fun word => some (read _ word))
      (cut_word integer))
  | int64 | uint64 =>
    obtain ⟨integer, rfl⟩ := admits
    refine ⟨8, (integer.extended .signed).toNat, _,
      by simp [storeCode, storeOpcode, integer.stackValueToI64_stack], rfl,
      ⟨integer.extended .signed, integer.stackValueToI64_stack, ?_⟩, rfl⟩
    exact congrArg (fun word => some (read _ word)) (cut_wide integer)
  | intPtr => exact absurd rfl notPointer.1
  | uintPtr => exact absurd rfl notPointer.2
  | single =>
    refine ⟨4, (storedR4 value).toNat, _, rfl, rfl, ?_, rfl⟩
    have small := (storedR4 value).isLt
    simp [ElementType.Holds, PrimitiveType.integer, Nat.mod_eq_of_lt small]
  | double =>
    refine ⟨8, (stackValueToCommonFloatBits value).toNat, _, rfl, rfl, ?_, rfl⟩
    have small := (stackValueToCommonFloatBits value).isLt
    simp [ElementType.Holds, PrimitiveType.integer, Nat.mod_eq_of_lt small]

/-- A pointer is stored with 4 bytes and loaded as a word of 32 bits. -/
theorem pointer_holds_iff (bits : type.integer = some (64, reading)) (integer : IntegerValue) :
    (ElementType.primitive type).Holds integer.stack
      (.i4 (BitVec.ofNat 32 (integer.low.toNat % 256 ^ 4))) ↔
      reading.Fits 32 (reading.read (integer.extended .signed)) := by
  have same :
      BitVec.ofNat 32 (integer.low.toNat % 256 ^ 4) = (integer.extended .signed).setWidth 32 :=
        cut_word integer
  rw [← read_setWidth_iff (v := 31) reading (integer.extended .signed) (by decide), same]
  simp [ElementType.Holds, bits, integer.stackValueToI64_stack, stackNumber]

section Sizes

variable {program : Program} {current token : Nat}

theorem elementSizeForTypeName_le (typeName : String) : elementSizeForTypeName typeName ≤ 8 ∧
    (elementSizeForTypeName typeName = 8 ↔ typeName ∉ narrowNames) := by
  unfold elementSizeForTypeName
  split_ifs with one two wide four
  · rcases one with rfl | rfl | rfl <;> decide
  · rcases two with rfl | rfl | rfl <;> decide
  · rcases wide with rfl | rfl | rfl <;> decide
  · rcases four with rfl | rfl | rfl <;> decide
  · refine ⟨le_rfl, iff_of_true rfl ?_⟩
    simp_all [narrowNames]

/-- A reference needs the 8 bytes that `newarr` reserves for all but some names. -/
theorem elementSizeForToken_le (program : Program) (current token : Nat) :
    elementSizeForToken program current token ≤ 8 ∧ (elementSizeForToken program current token = 8 ↔
      tokenMatchesTable token typeSpecTable ∨
        ∀ name, program.defOrRefName current token = some name → name.typeName ∉ narrowNames) := by
  by_cases spec : tokenMatchesTable token typeSpecTable
  · simp [elementSizeForToken, spec, objectHandleSize]
  · have lookup :
        program.metadataGetTypeName current token = program.defOrRefName current token := by
      simp [Program.metadataGetTypeName, spec]
    cases found : program.defOrRefName current token with
    | none => simp [elementSizeForToken, spec, lookup, found, objectHandleSize]
    | some name =>
      simpa [elementSizeForToken, spec, lookup, found] using elementSizeForTypeName_le name.typeName

theorem elementSize_of_named (named : (ElementType.primitive type).Named program current token) :
    elementSizeForToken program current token = 8 ∨
      elementSizeForToken program current token = elementSizeForTypeName type.typeName := by
  by_cases spec : tokenMatchesTable token typeSpecTable
  · exact .inl (by simp [elementSizeForToken, spec, objectHandleSize])
  · rcases named with spec' | name
    · exact absurd spec' spec
    · exact .inr (by simp [elementSizeForToken, Program.metadataGetTypeName, spec, name])

theorem heapReference_of_named (named : (ElementType.primitive type).Named program current token) :
    tokenIsHeapReference token = true := by
  unfold tokenIsHeapReference
  rcases named with spec | name
  · simp [spec]
  · unfold Program.defOrRefName at name
    cases found : program.assemblies[current]? with
    | none => simp [found] at name
    | some assembly =>
      by_cases definition : tokenMatchesTable token typeDefTable
      · simp [definition]
      · by_cases reference : tokenMatchesTable token typeRefTable
        · simp [reference]
        · simp [found, definition, reference] at name

variable {length index : BitVec 32} {address : Nat} {form : AccessForm} {value : StackValue}

theorem no_handle (admits : (ElementType.primitive type).Admits value) :
    stackValueToObjectHandle value = none := by
  simp only [ElementType.Admits] at admits
  split at admits
  · obtain ⟨integer, rfl⟩ := admits
    cases integer <;> rfl
  · cases value <;> first | rfl | simp [stackValueIsFloat] at admits

theorem generic_number_fails (named : (ElementType.primitive type).Named program current token)
    (admits : (ElementType.primitive type).Admits value) :
    ¬ RoundTrips (newarr program current token length address) (.primitive type) .generic
      index value := by
  intro trips
  obtain ⟨after, written, -⟩ := trips fun _ => 0
  have reference :
      tokenIsHeapReference (newarr program current token length address).elementType = true :=
    heapReference_of_named named
  simp [writeArrayIndexedValue, ElementType.storeOpcode, storeCode, reference,
    no_handle admits] at written

theorem pointer_roundTrips_iff (type : PrimitiveType) (reading : Signedness)
    (isPointer : type = .intPtr ∨ type = .uintPtr) (bits : type.integer = some (64, reading))
    (named : (ElementType.primitive type).Named program current token)
    (inside : index < length) (integer : IntegerValue) :
    RoundTrips (newarr program current token length address) (.primitive type) .direct index
      integer.stack ↔
      reading.Fits 32 (reading.read (integer.extended .signed)) := by
  let array := newarr program current token length address
  have stored : array.storeCode integer.stack ((ElementType.primitive type).storeOpcode .direct) =
      some (4, integer.low.toNat) := by
    rcases isPointer with rfl | rfl <;>
      simp [storeCode, ElementType.storeOpcode, PrimitiveType.storeOpcode,
        integer.stackValueToI32_stack]
  have loaded : array.loadCode ((ElementType.primitive type).loadOpcode .direct) =
      some (4, fun number => .i4 (BitVec.ofNat 32 number)) := by
    rcases isPointer with rfl | rfl <;> rfl
  have size : array.elementSize = 8 := by
    rcases elementSize_of_named named with wide | byName
    · exact wide
    · rcases isPointer with rfl | rfl <;> exact byName
  rw [← pointer_holds_iff bits]
  constructor
  · exact fun trips => ((roundTrips_iff_memory inside stored loaded).mp trips).1
  · intro holds
    exact roundTrips_of inside stored loaded holds
      (.inl (Nat.le_trans (by decide) (Nat.le_of_eq size.symm)))

theorem reference_roundTrips_iff (reference : tokenIsHeapReference token = true)
    (inside : index < length) (object : BitVec 64) :
    RoundTrips (newarr program current token length address) .reference form index
      (.objectReference object) ↔
      elementSizeForToken program current token = 8 ∨ length = 1 := by
  let array := newarr program current token length address
  have stored : array.storeCode (.objectReference object) (ElementType.reference.storeOpcode form) =
      some (8, object.toNat) := by
    cases form <;> simp [array, newarr, storeCode, ElementType.storeOpcode,
      stackValueToObjectHandle, reference]
  have loaded : array.loadCode (ElementType.reference.loadOpcode form) =
      some (8, fun number => .objectReference (BitVec.ofNat 64 number)) := by
    cases form <;> simp [array, newarr, loadCode, ElementType.loadOpcode, reference]
  constructor
  · intro trips
    by_contra wrong
    rw [not_or] at wrong
    have narrow : array.elementSize < 8 :=
      Nat.lt_of_le_of_ne (elementSizeForToken_le program current token).1 wrong.1
    refine not_roundTrips inside stored loaded ?_ narrow wrong.2 trips
    intro one small other small' same
    have equal := congrArg BitVec.toNat (StackValue.objectReference.inj same)
    simp only [BitVec.toNat_ofNat] at equal
    omega
  · intro room
    refine roundTrips_of inside stored loaded ?_ ?_
    · simp only [ElementType.Holds]
      have small : object.toNat < 256 ^ 8 := object.isLt
      rw [Nat.mod_eq_of_lt small, BitVec.ofNat_toNat, BitVec.setWidth_eq]
    · rcases room with wide | single
      · exact .inl (Nat.le_of_eq wide.symm)
      · exact .inr single

end Sizes

/-- Elements that were stored are loaded again in exactly these cases. -/
theorem roundTrips_iff (program : Program) (current token : Nat) (length index : BitVec 32)
    (address : Nat) (element : ElementType) (form : AccessForm) (value : StackValue)
    (named : element.Named program current token) (admits : element.Admits value)
    (inside : index < length) :
    RoundTrips (newarr program current token length address) element form index value ↔
      element.Storable form program current token length value := by
  cases element with
  | primitive type =>
    cases form with
    | generic => exact iff_of_false (generic_number_fails named admits) id
    | direct =>
      by_cases isPointer : type = .intPtr ∨ type = .uintPtr
      · rcases isPointer with rfl | rfl
        · obtain ⟨integer, rfl⟩ := admits
          rw [pointer_roundTrips_iff .intPtr .signed (.inl rfl) rfl named inside]
          simp [ElementType.Storable, integer.stackValueToI64_stack, Signedness.read]
        · obtain ⟨integer, rfl⟩ := admits
          rw [pointer_roundTrips_iff .uintPtr .unsigned (.inr rfl) rfl named inside]
          simp [ElementType.Storable, integer.stackValueToI64_stack, Signedness.read]
      · rw [not_or] at isPointer
        obtain ⟨width, number, push, stored, loaded, holds, size⟩ :=
          type.access isPointer (newarr program current token length address) admits
        have room : width ≤ (newarr program current token length address).elementSize := by
          rcases elementSize_of_named named with wide | byName
          · rw [size]
            exact Nat.le_trans (elementSizeForTypeName_le type.typeName).1 (Nat.le_of_eq wide.symm)
          · exact Nat.le_of_eq (size.trans byName.symm)
        apply iff_of_true (roundTrips_of inside stored loaded holds (.inl room))
        cases type <;> simp_all [ElementType.Storable]
  | reference =>
    obtain ⟨object, rfl⟩ := admits
    rw [reference_roundTrips_iff named inside, (elementSizeForToken_le program current token).2,
      or_assoc]
    rfl

def intProgram : Program where
  assemblies := [{
    assemblyName := "Shapes"
    types := []
    typeRefs := [{ name := ⟨"System", "Int32"⟩, assemblyName := some "System.Private.CoreLib" }]
    typeSpecs := []
    exportedTypes := [] }]

theorem int_array_roundTrips : (ElementType.primitive .int32).Named intProgram 0 0x01000001 ∧
      RoundTrips (newarr intProgram 0 0x01000001 3 0x1000) (.primitive .int32) .direct 1 (.i4 7) :=
  ⟨.inr (by decide), (roundTrips_iff intProgram 0 0x01000001 3 1 0x1000 (.primitive .int32)
    .direct (.i4 7)
    (.inr (by decide)) ⟨.int32 7, rfl⟩ (by decide)).mpr trivial⟩

/-- With its token in the instruction, a number is not stored. -/
theorem int_stelem_fails :
    ¬ RoundTrips (newarr intProgram 0 0x01000001 3 0x1000) (.primitive .int32) .generic 1
      (.i4 7) := by
  intro trips
  obtain ⟨after, written, -⟩ := trips fun _ => 0
  have refused :
      writeArrayIndexedValue (fun _ => 0) (newarr intProgram 0 0x01000001 3 0x1000) 1 .generic
        (.i4 7) = none :=
    rfl
  cases refused.symm.trans written

end Zapada.Zaclr
