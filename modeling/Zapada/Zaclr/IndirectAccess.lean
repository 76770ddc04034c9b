import Zapada.Zaclr.ArrayRoundTrips

/-! Access through an address. An address designates a slot, which keeps a value of the evaluation
stack, or a place in memory, which keeps bytes. -/

namespace Zapada.Zaclr

open Foundation Function BitVec Signedness Option

/-- `sizeof(struct zaclr_stack_value)`, and where in it a payload is kept that fits. -/
def stackValueSize : Nat := 40

def inlineBytesOffset : Nat := 24

def inlineBufferBytes : Nat := 16

/-- `offsetof(struct zaclr_boxed_value_desc, value)`. -/
def boxedValueOffset : Nat := 48

/-- `offsetof(struct zaclr_string_desc, first_char)`. -/
def firstCharOffset : Nat := 44

/-- The slots by their addresses, and the memory that is accessed as bytes. -/
structure Storage where
  slots : BitVec 64 → StackValue
  memory : Memory

structure FrameSlots where
  locals : BitVec 64
  localCount : BitVec 32
  arguments : BitVec 64
  argumentCount : BitVec 32

/-- `struct zaclr_resolved_byref`; the payload is the one of the value that was popped. -/
inductive ByrefTarget where
  | stackSlot (slot : BitVec 64)
  | address (start : BitVec 64)
  | payload (bytes : List UInt8)
deriving DecidableEq

def nonNull (address : BitVec 64) : Option (BitVec 64) := if address = 0 then none else some address

theorem nonNull_of_ne (present : address ≠ 0) : nonNull address = some address := if_neg present

def slotAt (slots : BitVec 64) (index : BitVec 32) : BitVec 64 :=
  slots + BitVec.ofNat 64 (index.toNat * stackValueSize)

def resolveLocalAddressTarget (frame : FrameSlots) : StackValue → Option (BitVec 64)
  | .byref address _ _ stackSlot => if stackSlot then nonNull address else none
  | .localAddress raw =>
    nonNull (if raw.setWidth 32 < frame.localCount then
      slotAt frame.locals (raw.setWidth 32) else raw)
  | _ => none

def resolveByrefTarget (frame : FrameSlots) : StackValue → Option ByrefTarget
  | .byref address _ _ stackSlot =>
    (nonNull address).map fun address => if stackSlot then .stackSlot address else .address address
  | .localAddress raw => (resolveLocalAddressTarget frame (.localAddress raw)).map .stackSlot
  | .valueType _ bytes => some (.payload bytes)
  | .i8 value => (nonNull value).map .address
  | .i4 value => (nonNull (value.setWidth 64)).map .address
  | _ => none

inductive LoadIndirect where
  | i1
  | u1
  | i2
  | u2
  | i4
  | u4
  | i8
  | i
deriving DecidableEq

namespace LoadIndirect

def width : LoadIndirect → Nat
  | i1 | u1 => 1
  | i2 | u2 => 2
  | i4 | u4 => 4
  | i8 | i => 8

def signExtend : LoadIndirect → Bool
  | i1 | i2 | i4 | i8 | i => true
  | u1 | u2 | u4 => false

def pushNativeInt : LoadIndirect → Bool
  | i => true
  | _ => false

end LoadIndirect

def slotBits (width : Nat) : StackValue → Option (BitVec 64)
  | .empty => some 0
  | .i4 value => some (value.setWidth 64)
  | .i8 value => some value
  | .r4 bits => some (bits.setWidth 64)
  | .r8 bits => some bits
  | .objectReference address => some address
  | .valueType _ payload => some (BitVec.ofNat 64 (payloadNumber (payload.take width)))
  | .localAddress _ | .byref .. => none

def indirectBits (storage : Storage) (width : Nat) : ByrefTarget → Option (BitVec 64)
  | .stackSlot slot => slotBits width (storage.slots slot)
  | .address start => some (BitVec.ofNat 64 (storage.memory.load start.toNat width))
  -- a payload that is shorter is kept in a buffer that is filled with zeros
  | .payload bytes => some (BitVec.ofNat 64 (payloadNumber (bytes.take width)))

/-- Without the sign extension, what is pushed is not cut to the width. -/
def extendIndirect (opcode : LoadIndirect) (raw : BitVec 64) : StackValue :=
  let raw := if opcode.signExtend then (raw.setWidth (8 * opcode.width)).signExtend 64 else raw
  if opcode.pushNativeInt ∨ 4 < opcode.width then .i8 raw else .i4 (raw.setWidth 32)

def pushIndirectIntegerValue (frame : FrameSlots) (storage : Storage) (address : StackValue)
    (opcode : LoadIndirect) :
    Option StackValue := do
  let target ← resolveByrefTarget frame address
  let raw ← indirectBits storage opcode.width target
  return extendIndirect opcode raw

inductive StoreIndirect where
  | i1
  | i2
  | i4
  | i8
  | i
deriving DecidableEq

namespace StoreIndirect

def width : StoreIndirect → Nat
  | i1 => 1
  | i2 => 2
  | i4 => 4
  | i8 | i => 8

/-- What a slot is set to, and the number that memory gets. -/
def code (value : StackValue) : StoreIndirect → Option (StackValue × Nat)
  | i1 => (stackValueToI32 value).map fun number => (.i4 (castSigned 8 number), number.toNat)
  | i2 => (stackValueToI32 value).map fun number => (.i4 (castSigned 16 number), number.toNat)
  | i4 => (stackValueToI32 value).map fun number => (.i4 number, number.toNat)
  | i8 | i => (stackValueToI64 value).map fun number => (.i8 number, number.toNat)

end StoreIndirect

def Storage.write (storage : Storage) (width : Nat) (slotValue : StackValue) (number : Nat) :
    ByrefTarget → Storage
  | .stackSlot slot => { storage with slots := Function.update storage.slots slot slotValue }
  | .address start => { storage with memory := storage.memory.store start.toNat width number }
  | .payload _ => storage

def stind (frame : FrameSlots) (storage : Storage) (address value : StackValue)
    (opcode : StoreIndirect) : Option Storage := do
  let target ← resolveByrefTarget frame address
  let (slotValue, number) ← opcode.code value
  return storage.write opcode.width slotValue number target

/-- The addresses that instructions form. -/
inductive AddressKind where
  | localVariable (index : BitVec 32)
  | argument (index : BitVec 32)
  | boxedValue (box : BitVec 64) (token : Nat)
  | arrayElement (array : ArrayDesc) (index : BitVec 32) (token : Nat)
  | objectField (base : BitVec 64) (byteOffset fieldSize token : Nat)
  | stringChars (object : BitVec 64)
  | payloadField (copy buffer : BitVec 64) (payloadSize byteOffset fieldSize token : Nat)
  | staticField (slot : BitVec 64) (token : Nat)
  | raw (address : IntegerValue)
deriving DecidableEq

def pushLocalAddress (frame : FrameSlots) (index : BitVec 32) : Option StackValue :=
  if frame.localCount ≤ index then none else some
    (.byref (slotAt frame.locals index) stackValueSize 0 true)

def pushArgumentAddress (frame : FrameSlots) (index : BitVec 32) : Option StackValue :=
  if frame.argumentCount ≤ index then none else some
    (.byref (slotAt frame.arguments index) stackValueSize 0 true)

def ldelema (array : ArrayDesc) (index : BitVec 32) (token : Nat) : Option StackValue :=
  if array.length ≤ index then none
  else some (.byref (BitVec.ofNat 64 (array.elementAddress index)) array.elementSize
    (if token ≠ 0 then token else array.elementType) false)

/-- `ldflda` of a value type copies the value first: a payload that is kept in the value itself
is the one of the copy. -/
def stackValuePayload (copy buffer : BitVec 64) (payloadSize : Nat) : BitVec 64 :=
  if payloadSize ≤ inlineBufferBytes then copy + BitVec.ofNat 64 inlineBytesOffset else buffer

def AddressKind.form (frame : FrameSlots) : AddressKind → Option StackValue
  | localVariable index => pushLocalAddress frame index
  | argument index => pushArgumentAddress frame index
  | boxedValue box token =>
    some (.byref (box + BitVec.ofNat 64 boxedValueOffset) stackValueSize token true)
  | arrayElement array index token => ldelema array index token
  | objectField base byteOffset fieldSize token =>
    some (.byref (base + BitVec.ofNat 64 byteOffset) fieldSize token false)
  | stringChars object => some (.byref (object + BitVec.ofNat 64 firstCharOffset) 2 0 false)
  | payloadField copy buffer payloadSize byteOffset fieldSize token =>
    some (.byref (stackValuePayload copy buffer payloadSize + BitVec.ofNat 64 byteOffset) fieldSize
      token false)
  | staticField slot token => some (.byref slot stackValueSize token true)
  | raw address => some address.stack

/-- Between two instructions the interpreter's own stack is overwritten. -/
structure Storage.Later (native : Set Nat) (before after : Storage) : Prop where
  slots : after.slots = before.slots
  memory : ∀ byte, byte ∉ native → after.memory byte = before.memory byte

def LoadIndirect.signedness : LoadIndirect → Signedness
  | i1 | i2 | i4 | i8 | i => .signed
  | u1 | u2 | u4 => .unsigned

/-- What was stored through an address is loaded from it, cut to the width and extended as the
load says. -/
def ReadsBack (frame : FrameSlots) (native : Set Nat) (storage : Storage) (address : StackValue)
    (store : StoreIndirect) (load : LoadIndirect) (value : IntegerValue) : Prop :=
  ∃ stored, stind frame storage address value.stack store = some stored ∧
    ∀ later, stored.Later native later →
      ∃ result, pushIndirectIntegerValue frame later address load = some result ∧
        stackNumber load.signedness result =
          some (load.signedness.read (BitVec.ofInt (8 * store.width) (value.read .signed)))

/-- A slot keeps the sign of what is stored, and an unsigned load does not cut it off again. -/
def KeptApart (frame : FrameSlots) (native : Set Nat) (address : StackValue) (store : StoreIndirect)
    (load : LoadIndirect) (value : IntegerValue) : Prop :=
  match resolveByrefTarget frame address with
  | some (.stackSlot _) =>
    load.signedness = .signed ∨ 4 ≤ store.width ∨
      value.read .signed % 2 ^ (8 * store.width) < 2 ^ (8 * store.width - 1)
  | some (.address start) =>
    ∀ byte, start.toNat ≤ byte → byte < start.toNat + store.width → byte ∉ native
  | _ => False

section Words

variable (value : IntegerValue) (store : StoreIndirect) (load : LoadIndirect) (raw : BitVec 64)

theorem signed_word (narrow : bits ≤ 32) :
    signed.read (((raw.setWidth bits).signExtend 64).setWidth 32) =
      signed.read (raw.setWidth bits) := by
  rw [signExtend_cut _ (by decide)]
  exact toInt_signExtend_of_le narrow

theorem unsigned_word (narrow : bits ≤ 32) (small : raw.toNat < 2 ^ bits) :
    unsigned.read (raw.setWidth 32) = unsigned.read (raw.setWidth bits) := by
  have wide : raw.toNat < 2 ^ 32 :=
    Nat.lt_of_lt_of_le small (Nat.pow_le_pow_right (by decide) narrow)
  simp only [Signedness.read, toNat_setWidth, Nat.mod_eq_of_lt small, Nat.mod_eq_of_lt wide]

/-- A load pushes the number of its bytes if it cuts off what is above them. -/
theorem extendIndirect_number
    (exact : load.signExtend ∨ load.width = 4 ∨ raw.toNat < 2 ^ (8 * load.width)) :
    stackNumber load.signedness (extendIndirect load raw) =
      some (load.signedness.read (raw.setWidth (8 * load.width))) := by
  cases load with
  | i1 => exact congrArg some (signed_word raw (by decide : 8 ≤ 32))
  | i2 => exact congrArg some (signed_word raw (by decide : 16 ≤ 32))
  | i4 => exact congrArg some (signed_word raw (Nat.le_refl 32))
  | i8 | i => exact congrArg some (toInt_signExtend_of_le (Nat.le_refl 64))
  | u1 =>
    have small : raw.toNat < 2 ^ 8 := by
      simpa [LoadIndirect.signExtend, LoadIndirect.width] using exact
    exact congrArg some (unsigned_word raw (by decide) small)
  | u2 =>
    have small : raw.toNat < 2 ^ 16 := by
      simpa [LoadIndirect.signExtend, LoadIndirect.width] using exact
    exact congrArg some (unsigned_word raw (by decide) small)
  | u4 => rfl

theorem low_mod (narrow : bits ≤ 32) :
    value.low.toNat % 2 ^ bits = ((value.extended .signed).setWidth bits).toNat := by
  rw [value.cut_extended _ narrow, toNat_setWidth]

theorem castSigned_slot (narrow : bits ≤ 32) :
    ((castSigned bits value.low).setWidth 64).setWidth bits =
      (value.extended .signed).setWidth bits ∧
      ((castSigned bits value.low).setWidth 64).setWidth 32 =
        ((value.extended .signed).setWidth bits).signExtend 32 := by
  rw [castSigned, value.cut_extended _ narrow, setWidth_setWidth_of_le _ (by omega),
    signExtend_cut _ narrow,
    signExtend_eq, setWidth_setWidth_of_le _ (by decide), setWidth_eq]
  exact ⟨rfl, rfl⟩

/-- What a store leaves behind: a number with the right bytes in memory, and in a slot the same
number with its sign. -/
theorem StoreIndirect.code_stack :
    ∃ slotValue number bits, store.code value.stack = some (slotValue, number) ∧
      number % 2 ^ (8 * store.width) = ((value.extended .signed).setWidth (8 * store.width)).toNat ∧
      (∀ width, slotBits width slotValue = some bits) ∧
      bits.setWidth (8 * store.width) = (value.extended .signed).setWidth (8 * store.width) ∧
      (store.width < 4 → bits.setWidth 32 = ((value.extended .signed).setWidth
        (8 * store.width)).signExtend 32) := by
  by_cases wide : store.width = 8
  · have coded :
        store.code value.stack = some (.i8 (value.extended .signed),
          (value.extended .signed).toNat) := by
      cases store <;> first | contradiction | simp [code, value.stackValueToI64_stack]
    refine ⟨_, _, _, coded, ?_, fun _ => rfl, rfl, by omega⟩
    rw [toNat_setWidth]
  · have narrow : 8 * store.width ≤ 32 := by cases store <;> first | decide | exact absurd rfl wide
    have coded :
        store.code value.stack = some (.i4 (castSigned (8 * store.width) value.low),
          value.low.toNat) := by
      cases store <;> first | exact absurd rfl wide | simp [code, width,
        value.stackValueToI32_stack, castSigned]
    obtain ⟨kept, extended⟩ := castSigned_slot value narrow
    exact ⟨_, _, _, coded, low_mod value narrow, fun _ => rfl, kept, fun _ => extended⟩

theorem StoreIndirect.width_le : 8 * store.width ≤ 64 := by
  cases store <;> decide

theorem LoadIndirect.signExtend_iff : load.signExtend = true ↔ load.signedness = .signed := by
  cases load <;> decide

/-- An unsigned load of a few bytes pushes the lower half of what it finds. -/
theorem extendIndirect_unsigned (unsigned : load.signedness ≠ .signed) (narrow : load.width < 4) :
    stackNumber load.signedness (extendIndirect load raw) =
      some (Int.ofNat (raw.setWidth 32).toNat) := by
  cases load with
  | u1 | u2 => rfl
  | u4 => exact absurd narrow (by decide)
  | i1 | i2 | i4 | i8 | i => exact absurd rfl unsigned

end Words

section Targets

variable {frame : FrameSlots} {native : Set Nat} {storage : Storage} {address : StackValue}
  {store : StoreIndirect}
  {load : LoadIndirect} {value : IntegerValue}

theorem readsBack_slot_iff (resolved : resolveByrefTarget frame address = some (.stackSlot slot))
    (same : load.width = store.width) : ReadsBack frame native storage address store load value ↔
      load.signedness = .signed ∨ 4 ≤ store.width ∨
        value.read .signed % 2 ^ (8 * store.width) < 2 ^ (8 * store.width - 1) := by
  obtain ⟨slotValue, number, bits, code, -, slotted, kept, extended⟩ := store.code_stack value
  -- the load finds the bits that the slot was set to
  have loads : ReadsBack frame native storage address store load value ↔
      stackNumber load.signedness (extendIndirect load bits) =
        some (load.signedness.read ((value.extended .signed).setWidth (8 * store.width))) := by
    simp only [ReadsBack, stind, pushIndirectIntegerValue, resolved, code, bind_eq_bind,
      bind_some,
      pure_def, some.injEq, exists_eq_left', Storage.write, indirectBits,
        value.ofInt_read store.width_le]
    constructor
    · intro reads
      obtain ⟨result, loaded, number⟩ := reads _ ⟨rfl, fun _ _ => rfl⟩
      simp only [update_self, slotted, bind_some, some.injEq] at loaded
      rwa [loaded]
    · intro number later survives
      refine ⟨extendIndirect load bits, ?_, number⟩
      simp [survives.slots, slotted]
  rw [loads]
  by_cases cut : load.signedness = .signed ∨ 4 ≤ store.width
  · have exact : load.signExtend ∨ load.width = 4 ∨ bits.toNat < 2 ^ (8 * load.width) := by
      rcases cut with signed | wide
      · exact .inl (load.signExtend_iff.mpr signed)
      · have small := bits.isLt
        cases store with
        | i1 | i2 => exact absurd wide (by decide)
        | i4 => exact .inr (.inl same)
        | i8 | i => exact .inr (.inr (same ▸ small))
    rw [extendIndirect_number load bits exact, same, kept]
    grind
  · have unsigned : load.signedness ≠ .signed := fun signed => cut (.inl signed)
    have narrow : store.width < 4 := Nat.lt_of_not_le fun wide => cut (.inr wide)
    have reading : load.signedness = .unsigned := by
      cases load <;> first | rfl | exact absurd rfl unsigned
    have positive : 0 < store.width := by cases store <;> decide
    have half : 2 ^ (8 * store.width) = 2 * 2 ^ (8 * store.width - 1) := by
      rw [← Nat.pow_succ', Nat.succ_eq_add_one, Nat.sub_add_cancel (by omega)]
    have word :=
      signExtend_toNat_iff ((value.extended .signed).setWidth (8 * store.width))
        (n := 32) (by omega)
    rw [extendIndirect_unsigned load bits unsigned (by omega), extended narrow, reading,
      value.read_mod store.width_le]
    simp only [Signedness.read, some.injEq, Int.ofNat_eq_natCast, Int.natCast_inj, word,
      reduceCtorEq, false_or]
    norm_cast
    omega

/-- A load from memory pushes the number of the bytes that it finds. -/
theorem loads_address_iff (resolved : resolveByrefTarget frame address = some (.address start))
    (same : load.width = width) (word : BitVec (8 * width)) :
    (∃ result, pushIndirectIntegerValue frame storage address load = some result ∧
      stackNumber load.signedness result = some (load.signedness.read word)) ↔
      storage.memory.load start.toNat width = word.toNat := by
  subst same
  have bound := storage.memory.load_lt start.toNat load.width
  have bytes : 256 ^ load.width = 2 ^ (8 * load.width) := (Nat.pow_mul 2 8 _).symm
  have wide : 2 ^ (8 * load.width) ≤ 2 ^ 64 :=
    Nat.pow_le_pow_right (by decide) (by cases load <;> decide)
  rw [bytes] at bound
  have raw : (BitVec.ofNat 64 (storage.memory.load start.toNat load.width)).toNat =
      storage.memory.load start.toNat load.width := by
    rw [toNat_ofNat, Nat.mod_eq_of_lt (Nat.lt_of_lt_of_le bound wide)]
  have cut :
      ((BitVec.ofNat 64 (storage.memory.load start.toNat load.width)).setWidth
        (8 * load.width)).toNat =
      storage.memory.load start.toNat load.width := by
    rw [toNat_setWidth, raw, Nat.mod_eq_of_lt bound]
  simp only [pushIndirectIntegerValue, resolved, indirectBits, bind_eq_bind,
    bind_some, pure_def,
    some.injEq, exists_eq_left']
  rw [extendIndirect_number load _ (.inr (.inr (by rwa [raw]))), some.injEq]
  constructor
  · intro equal
    rw [← cut, load.signedness.read_injective equal]
  · intro equal
    rw [eq_of_toNat_eq (cut.trans equal)]

theorem readsBack_address_iff (resolved : resolveByrefTarget frame address = some (.address start))
    (same : load.width = store.width) : ReadsBack frame native storage address store load value ↔
      ∀ byte, start.toNat ≤ byte → byte < start.toNat + store.width → byte ∉ native := by
  obtain ⟨slotValue, number, bits, code, kept, -, -, -⟩ := store.code_stack value
  have bytes : 256 ^ store.width = 2 ^ (8 * store.width) := (Nat.pow_mul 2 8 _).symm
  have stored := storage.memory.load_store start.toNat store.width number
  rw [bytes, kept] at stored
  let written := storage.memory.store start.toNat store.width number
  have reads : ReadsBack frame native storage address store load value ↔
      ∀ memory : Memory, (∀ byte, byte ∉ native → memory byte = written byte) →
        memory.load start.toNat store.width = written.load start.toNat store.width := by
    simp only [ReadsBack, stind, resolved, code, bind_eq_bind, bind_some,
      pure_def,
      some.injEq, exists_eq_left', Storage.write, value.ofInt_read store.width_le]
    rw [stored]
    constructor
    · intro loads memory outside
      exact (loads_address_iff resolved same _).mp (loads ⟨storage.slots, memory⟩ ⟨rfl, outside⟩)
    · intro unchanged later survives
      exact (loads_address_iff resolved same _).mpr (unchanged later.memory survives.memory)
  rw [reads]
  constructor
  · intro unchanged byte low high inside
    -- the byte is overwritten with another one
    have outside :
        ∀ other, other ∉ native → update written byte (written byte + 1) other = written other := by
      intro other outside
      apply update_of_ne
      rintro rfl
      exact outside inside
    have overwritten := Memory.bytes_of_load _ _ _ _ (unchanged _ outside) low high
    rw [update_self] at overwritten
    exact Memory.byte_ne_succ _ overwritten.symm
  · intro outside memory kept
    exact Memory.load_congr _ _ _ _ fun byte low high => kept byte (outside byte low high)

end Targets

/-- An address is resolved to a slot or to memory unless it is null. -/
def Designates (frame : FrameSlots) (address : StackValue) : Prop :=
  resolveByrefTarget frame address = none ∨
    (∃ slot, resolveByrefTarget frame address = some (.stackSlot slot)) ∨
    ∃ start, resolveByrefTarget frame address = some (.address start)

theorem designates_of_resolved (slot : Bool) (resolved : resolveByrefTarget frame address =
      (nonNull raw).map fun raw => if slot then .stackSlot raw else .address raw) :
      Designates frame address := by
  rw [Designates, resolved]
  by_cases null : raw = 0
  · simp [nonNull, null]
  · cases slot <;> simp [nonNull_of_ne null]

theorem AddressKind.form_designates (kind : AddressKind) (formed : kind.form frame = some address) :
    Designates frame address := by
  cases kind with
  | localVariable | argument | arrayElement =>
    simp only [form, pushLocalAddress, pushArgumentAddress, ldelema, ite_none_left_eq_some,
      some.injEq] at formed
    exact formed.2 ▸ designates_of_resolved _ rfl
  | boxedValue | objectField | stringChars | payloadField | staticField =>
    exact some.inj formed ▸ designates_of_resolved _ rfl
  | raw integer => cases integer <;> exact some.inj formed ▸ designates_of_resolved false rfl

theorem AddressKind.readsBack_iff_keptApart (kind : AddressKind) (frame : FrameSlots)
    (native : Set Nat)
    (storage : Storage) (address : StackValue) (formed : kind.form frame = some address)
    (store : StoreIndirect)
    (load : LoadIndirect) (same : load.width = store.width) (value : IntegerValue) :
    ReadsBack frame native storage address store load value ↔
      KeptApart frame native address store load value := by
  rcases kind.form_designates formed with null | ⟨slot, resolved⟩ | ⟨start, resolved⟩
  · simp [ReadsBack, KeptApart, stind, null]
  · rw [readsBack_slot_iff resolved same, KeptApart, resolved]
  · rw [readsBack_address_iff resolved same, KeptApart, resolved]

def oneLocal : FrameSlots where
  locals := 4096
  localCount := 1
  arguments := 0
  argumentCount := 0

theorem local_byte_signed :
    ReadsBack oneLocal ∅ ⟨fun _ => .empty, fun _ => 0⟩ (.byref 4096 stackValueSize 0 true) .i1 .i1
      (.int32 128) :=
  ((AddressKind.localVariable 0).readsBack_iff_keptApart oneLocal ∅ ⟨fun _ => .empty, fun _ => 0⟩ _
    (by decide) .i1 .i1
    rfl (.int32 128)).mpr (.inl rfl)

/-- The byte 128 in a local variable is loaded as 2³² − 128. -/
theorem local_byte_unsigned :
    (AddressKind.localVariable 0).form oneLocal = some (.byref 4096 stackValueSize 0 true) ∧
      ¬ ReadsBack oneLocal ∅ ⟨fun _ => .empty, fun _ => 0⟩ (.byref 4096 stackValueSize 0 true) .i1
        .u1 (.int32 128) := by
  refine ⟨by decide, fun reads => ?_⟩
  have resolved :
      resolveByrefTarget oneLocal (.byref 4096 stackValueSize 0 true) = some (.stackSlot 4096) := by
        decide
  exact absurd ((readsBack_slot_iff resolved rfl).mp reads) (by decide)

end Zapada.Zaclr
