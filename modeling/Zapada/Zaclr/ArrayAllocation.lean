import Zapada.Zaclr.ManagedHeap

namespace Zapada.Zaclr

open Foundation Mm BitVec Option

inductive ElementAccess where
  | load (opcode : LoadElement)
  | store (opcode : StoreElement) (value : StackValue)
deriving DecidableEq

/-- The bytes that an access covers, if the instruction does one. -/
def ArrayDesc.accessWidth (array : ArrayDesc) : ElementAccess → Option Nat
  | .load opcode => (array.loadCode opcode).map Prod.fst
  | .store opcode value => (array.storeCode value opcode).map Prod.fst

/-- The block of the object holds the header and all elements, and what the instructions access
after their index check lies in them. -/
structure ArrayDesc.Fits (array : ArrayDesc) (heap : ManagedHeap)
    (access : ElementAccess) : Prop where
  room : kheapHeaderSize + (arrayHeaderSize + array.length.toNat * array.elementSize) ≤
    heap.kernel.heap.blockSize array.address
  inside : ∀ index < array.length, ∀ width, array.accessWidth access = some width →
    array.elementAddress index + width ≤ array.address +
      (arrayHeaderSize + array.length.toNat * array.elementSize)

/-- The kernel heap is well formed and holds the table of nodes. -/
structure ManagedHeap.Sound (heap : ManagedHeap) : Prop where
  kernel : ∃ start blocks lists, Held start heap.kernel blocks lists
  table : heap.nodesPointer = 0 ∨ heap.nodesPointer ∈ heap.kernel.pointers

/-- A collection releases objects: the table of nodes is kept. -/
structure Collector where
  collect : ManagedHeap → Option ManagedHeap
  sound : collect heap = some after → heap.Sound → after.Sound
  capacity : collect heap = some after →
    after.nodeCapacity = heap.nodeCapacity ∧ after.nodes.length ≤ heap.nodes.length

theorem growCapacity_bound (grown : growCapacity minimum fuel capacity = some result) :
    result = capacity ∨ result < 2 * minimum := by
  induction fuel generalizing capacity with
  | zero => contradiction
  | succ fuel ih =>
    simp only [growCapacity] at grown
    split at grown
    · exact .inl (some.inj grown).symm
    · split at grown
      · contradiction
      · rcases ih grown with doubled | bounded
        · exact .inr (by omega)
        · exact .inr bounded

theorem kernelAlloc_some (granted : kernelAlloc kernel size = some (ptr, after)) : ∃ heap,
    kheapAlloc kernel.heap size = some (ptr, heap) ∧
      after = ⟨heap, if ptr = 0 then kernel.live else kernel.live ++ [(ptr, size)]⟩ := by
  obtain ⟨⟨_, heap⟩, answer, same⟩ := map_eq_some_iff.mp granted
  cases same
  exact ⟨heap, answer, rfl⟩

theorem held_refused (held : Held start system blocks lists)
    (small : size ≤ 2 ^ 32 - 16) (answer : kheapAlloc system.heap size = some (0, heap)) :
    ∃ blocks' lists', Held start ⟨heap, system.live⟩ blocks' lists' := by
  by_cases representable : size ≤ 2 ^ 32 - 32
  · obtain ⟨blocks', lists', after, -⟩ := held.allocated representable answer
    exact ⟨blocks', lists', after⟩
  · rcases held.layout.alloc_oversized (by omega) small answer with ⟨-, bounds, layout⟩ |
      ⟨some_block, -⟩
    · exact ⟨blocks, lists, layout, held.bounds.trans bounds, held.distinct, held.large⟩
    · exact absurd rfl some_block

theorem exchanged (held : Held start ⟨kernel, live ++ [(table, size)]⟩ blocks lists)
    (oldTable : old = 0 ∨ old ∈ live.map Prod.fst) :
    let system : HeapSystem := if old = 0 then ⟨kernel, live ++ [(table, size)]⟩
      else kernelFree ⟨kernel, live ++ [(table, size)]⟩ old
    (∃ start blocks lists, Held start system blocks lists) ∧ table ∈ system.pointers := by
  intro system
  by_cases none : old = 0
  · have same : system = ⟨kernel, live ++ [(table, size)]⟩ := if_pos none
    rw [same]
    exact ⟨⟨start, blocks, lists, held⟩, by simp [HeapSystem.pointers]⟩
  · have same : system = kernelFree ⟨kernel, live ++ [(table, size)]⟩ old := if_neg none
    have listed := oldTable.resolve_left none
    have isLive : old ∈ HeapSystem.pointers ⟨kernel, live ++ [(table, size)]⟩ := by
      simp only [HeapSystem.pointers, List.map_append]
      exact List.mem_append_left _ listed
    have distinct := held.distinct
    simp only [HeapSystem.pointers, List.map_append, List.map_cons, List.map_nil] at distinct
    have different : table ≠ old := by
      rintro rfl
      exact (List.nodup_append.mp distinct).2.2 _ listed _ (List.mem_singleton_self _) rfl
    obtain ⟨blocks', lists', released, -⟩ := held.released isLive
    rw [same]
    refine ⟨⟨start, blocks', lists', released⟩, ?_⟩
    simp [HeapSystem.pointers, kernelFree, different]

namespace ManagedHeap

variable {heap after : ManagedHeap}

/-- The table of nodes grows on the kernel heap. -/
theorem Sound.reserved (sound : heap.Sound) (few : heap.nodeCapacity ≤ 2 ^ 26)
    (inTable : heap.nodes.length ≤ heap.nodeCapacity)
    (reserved : zaclrHeapReserveNodes heap (u32 (heap.nodes.length + 1)) = some after) :
    after.Sound := by
  unfold zaclrHeapReserveNodes at reserved
  split at reserved
  · exact some.inj reserved ▸ sound
  obtain ⟨capacity, grown, reserved⟩ := bind_eq_some_iff.mp reserved
  have bound : heapNodeSize * capacity ≤ 2 ^ 32 - 32 := by
    have wrapped : u32 (heap.nodes.length + 1) ≤ heap.nodes.length + 1 := Nat.mod_le _ _
    rcases growCapacity_bound grown with same | small
    · simp only [heapNodeSize, same]
      split <;> omega
    · simp only [heapNodeSize]
      omega
  obtain ⟨⟨table, kernel⟩, granted, reserved⟩ := bind_eq_some_iff.mp reserved
  obtain ⟨memory, answer, rfl⟩ := kernelAlloc_some granted
  obtain ⟨start, blocks, lists, held⟩ := sound.kernel
  obtain ⟨blocks', lists', held', -⟩ := held.allocated bound answer
  obtain ⟨some_table, reserved⟩ := ite_none_left_eq_some.mp reserved
  cases reserved
  rw [if_neg some_table] at held' ⊢
  obtain ⟨kernelSound, kept⟩ := exchanged held' sound.table
  exact ⟨kernelSound, .inr kept⟩

/-- A well-formed kernel heap, in which the table of nodes lies, granted the memory of the object.
-/
def Grants (object size : Nat) (after : ManagedHeap) : Prop :=
  object ≠ 0 ∧
    ∃ (kernel : HeapSystem) (start : Heap) (blocks : List Span) (lists : FreeList → List Nat),
    Held start kernel blocks lists ∧ kheapAlloc kernel.heap size =
      some (object, after.kernel.heap) ∧
      after.kernel.live = kernel.live ++ [(object, size)] ∧
      (after.nodesPointer = 0 ∨ after.nodesPointer ∈ kernel.pointers)

theorem Grants.sound (grants : Grants object size after) (small : size ≤ 2 ^ 32 - 32) :
    after.Sound := by
  obtain ⟨some_block, kernel, start, blocks, lists, held, answer, live, table⟩ := grants
  obtain ⟨blocks', lists', held', -⟩ := held.allocated small answer
  rw [if_neg some_block, ← live] at held'
  refine ⟨⟨start, blocks', lists', held'⟩, table.imp_right fun listed => ?_⟩
  rw [HeapSystem.pointers, live, List.map_append]
  exact List.mem_append_left _ listed

theorem Sound.memory (sound : heap.Sound) (collector : Collector) (small : size ≤ 2 ^ 32 - 16)
    (allocated : allocateMemory collector.collect heap size = some (object, after)) :
    Grants object size after := by
  obtain ⟨start, blocks, lists, held⟩ := sound.kernel
  obtain ⟨⟨ptr, kernel⟩, granted, allocated⟩ := bind_eq_some_iff.mp allocated
  obtain ⟨memory, first, rfl⟩ := kernelAlloc_some granted
  by_cases refused : ptr = 0
  · subst refused
    obtain ⟨blocks', lists', held'⟩ := held_refused held small first
    simp only [ne_eq, not_true, if_false, if_true] at allocated
    split at allocated
    · obtain ⟨swept, collected, allocated⟩ := bind_eq_some_iff.mp allocated
      obtain ⟨⟨start', sweptBlocks, sweptLists, sweptHeld⟩, table⟩ :=
        collector.sound collected ⟨⟨start, blocks', lists', held'⟩, sound.table⟩
      obtain ⟨⟨ptr, kernel⟩, granted, allocated⟩ := bind_eq_some_iff.mp allocated
      obtain ⟨memory, second, rfl⟩ := kernelAlloc_some granted
      obtain ⟨some_block, allocated⟩ := ite_none_right_eq_some.mp allocated
      cases allocated
      exact ⟨some_block, swept.kernel, start', sweptBlocks, sweptLists, sweptHeld, second,
        by simp [some_block], table⟩
    · contradiction
  · simp only [ne_eq, refused, not_false_eq_true, if_true] at allocated
    cases allocated
    exact ⟨refused, heap.kernel, start, blocks, lists, held, first, by simp, sound.table⟩

theorem Sound.granted (sound : heap.Sound) (few : heap.nodeCapacity ≤ 2 ^ 26)
    (inTable : heap.nodes.length ≤ heap.nodeCapacity) (collector : Collector)
    (small : size ≤ 2 ^ 32 - 16)
    (allocated : zaclrHeapAllocateObject collector.collect heap size = some (object, after)) :
    Grants object size after := by
  unfold zaclrHeapAllocateObject at allocated
  split at allocated
  · contradiction
  obtain ⟨first, collected, allocated⟩ := bind_eq_some_iff.mp allocated
  obtain ⟨firstSound, firstFew, firstTable⟩ : first.Sound ∧ first.nodeCapacity ≤ 2 ^ 26 ∧
      first.nodes.length ≤ first.nodeCapacity := by
    unfold collectAtThreshold at collected
    split at collected
    · have kept := collector.capacity collected
      exact ⟨collector.sound collected sound, by omega, by omega⟩
    · exact some.inj collected ▸ ⟨sound, few, inTable⟩
  obtain ⟨second, reserved, allocated⟩ := bind_eq_some_iff.mp allocated
  obtain ⟨answer, granted, allocated⟩ := bind_eq_some_iff.mp allocated
  cases allocated
  have grants := (firstSound.reserved firstFew firstTable reserved).memory collector small granted
  exact grants

end ManagedHeap

/-- A block that the kernel heap grants is as large as the request says. -/
theorem granted_room (held : Held start kernel blocks lists) (small : size ≤ 2 ^ 32 - 32)
    (some_block : object ≠ 0) (answer : kheapAlloc kernel.heap size = some (object, heap)) :
    kheapHeaderSize + size ≤ heap.blockSize object := by
  rcases held.layout.alloc small with ⟨heap', refused, -⟩ | ⟨heap', blocks', lists', block, granted,
    positive, given⟩
  · cases refused.symm.trans answer
    exact absurd rfl some_block
  · obtain ⟨rfl, rfl⟩ := Prod.mk.inj (some.inj (granted.symm.trans answer))
    have enough := given.enough
    have sized := given.layout.size_eq given.member
    obtain ⟨-, covers, -⟩ := blocksForSize_spec positive small
    rw [given.layout.blockSize_eq given.member, kheapHeaderSize]
    omega

theorem array_granted
    (allocated : zaclrArrayAllocate collect heap elementType elementSize length = some
      (array, after)) :
    ∃ address, zaclrHeapAllocateObject collect heap
        (arrayHeaderSize + elementSize.toNat * length.toNat % 2 ^ 32) = some (address, after) ∧
      array = { address, length, elementSize := elementSize.toNat, elementType } := by
  unfold zaclrArrayAllocate at allocated
  split at allocated
  · contradiction
  obtain ⟨⟨address, final⟩, granted, allocated⟩ := bind_eq_some_iff.mp allocated
  obtain ⟨rfl, rfl⟩ := Prod.mk.inj (some.inj allocated)
  exact ⟨address, toNat_mul elementSize length ▸ granted, rfl⟩

theorem sound_after_array (sound : heap.Sound) (few : heap.nodeCapacity ≤ 2 ^ 26)
    (inTable : heap.nodes.length ≤ heap.nodeCapacity) {collector : Collector}
    (allocated : zaclrArrayAllocate collector.collect heap elementType elementSize length = some
      (array, after))
    (small : elementSize.toNat * length.toNat ≤ 2 ^ 32 - 88) : after.Sound := by
  obtain ⟨object, granted, rfl⟩ := array_granted allocated
  rw [Nat.mod_eq_of_lt (by omega), arrayHeaderSize] at granted
  exact (sound.granted few inTable collector (by omega) granted).sound (by omega)

/-- The memory of an array is as large as the mathematical product asks for, exactly if the kernel
heap can grant that much. -/
theorem room_iff (sound : heap.Sound) (few : heap.nodeCapacity ≤ 2 ^ 26)
    (inTable : heap.nodes.length ≤ heap.nodeCapacity) {collector : Collector}
    (allocated : zaclrArrayAllocate collector.collect heap elementType elementSize length = some
      (array, after)) :
    kheapHeaderSize + (arrayHeaderSize + array.length.toNat * array.elementSize) ≤
        after.kernel.heap.blockSize array.address ↔
          elementSize.toNat * length.toNat ≤ 2 ^ 32 - 88 := by
  obtain ⟨object, granted, rfl⟩ := array_granted allocated
  simp only [kheapHeaderSize, arrayHeaderSize, Nat.mul_comm length.toNat] at granted ⊢
  have field : after.kernel.heap.blockSize object < 256 ^ 4 := Memory.load_lt ..
  constructor
  · intro room
    by_contra large
    obtain ⟨some_block, kernel, start, blocks, lists, held, answer, -⟩ :=
      sound.granted few inTable collector (by omega) granted
    rcases held.layout.alloc_oversized (by omega) (by omega) answer with ⟨none, -⟩ | ⟨-, empty⟩
    · exact some_block none
    · omega
  · intro small
    rw [Nat.mod_eq_of_lt (by omega)] at granted
    obtain ⟨some_block, kernel, start, blocks, lists, held, answer, -⟩ :=
      sound.granted few inTable collector (by omega) granted
    exact granted_room held (by omega) some_block answer

theorem inside_iff (array : ArrayDesc) (access : ElementAccess) :
    (∀ index < array.length, ∀ width, array.accessWidth access = some width →
      array.elementAddress index + width ≤
          array.address + (arrayHeaderSize + array.length.toNat * array.elementSize)) ↔
      array.length = 0 ∨ ∀ width, array.accessWidth access = some width →
        width ≤ array.elementSize := by
  constructor
  · intro inside
    by_cases none : array.length = 0
    · exact .inl none
    · refine .inr fun width covers => ?_
      have positive : 0 < array.length.toNat := by
        rw [Nat.pos_iff_ne_zero]
        exact fun zero => none (eq_of_toNat_eq zero)
      obtain ⟨before, isLast⟩ : ∃ before, array.length.toNat = before + 1 :=
        ⟨_, (Nat.succ_pred_eq_of_pos positive).symm⟩
      have last : (BitVec.ofNat 32 before).toNat = before := by
        rw [toNat_ofNat]
        omega
      have reach :=
        inside (BitVec.ofNat 32 before) (by rw [BitVec.lt_def, last]; omega) width covers
      rw [ArrayDesc.elementAddress, last, isLast, Nat.succ_mul] at reach
      omega
  · rintro (none | narrow) index below width covers
    · rw [none] at below
      exact absurd below not_lt_zero
    · have step : (index.toNat + 1) * array.elementSize ≤ array.length.toNat * array.elementSize :=
        Nat.mul_le_mul_right _ (BitVec.lt_def.mp below)
      rw [Nat.succ_mul] at step
      have within := narrow width covers
      unfold ArrayDesc.elementAddress
      omega

/-- The bytes of an access, by the type and the size of the elements. -/
def elementWidth (elementType elementSize : Nat) (access : ElementAccess) : Option Nat :=
  ArrayDesc.accessWidth { address := 0, length := 0, elementSize, elementType } access

theorem accessWidth_eq (array : ArrayDesc) (access : ElementAccess) :
    array.accessWidth access = elementWidth array.elementType array.elementSize access := by
  cases access <;> rfl

/-- An array has room for its elements, and an instruction accesses only these, exactly if the
product of the sizes is representable and the access is not wider than an element. -/
theorem array_fits_iff (heap after : ManagedHeap) (sound : heap.Sound)
    (few : heap.nodeCapacity ≤ 2 ^ 26)
    (inTable : heap.nodes.length ≤ heap.nodeCapacity) (collector : Collector) (elementType : Nat)
    (elementSize length : BitVec 32) (array : ArrayDesc)
    (allocated : zaclrArrayAllocate collector.collect heap elementType elementSize length = some
      (array, after))
    (access : ElementAccess) : array.Fits after access ↔
      elementSize.toNat * length.toNat ≤ 2 ^ 32 - 88 ∧
        (length = 0 ∨ ∀ width, elementWidth elementType elementSize.toNat access = some width →
          width ≤ elementSize.toNat) := by
  rw [← room_iff sound few inTable allocated]
  obtain ⟨address, -, rfl⟩ := array_granted allocated
  have inside :=
    inside_iff { address, length, elementSize := elementSize.toNat, elementType } access
  rw [accessWidth_eq] at inside
  rw [← inside, ← accessWidth_eq]
  exact ⟨fun fits => ⟨fits.room, fits.inside⟩, fun both => ⟨both.1, both.2⟩⟩

/-- A collection that releases one object, unless the kernel heap does not hold it. -/
def releasing (object : Nat) : Collector where
  collect heap := some <|
    if object ∈ heap.kernel.pointers ∧ object ≠ heap.nodesPointer then
      { heap with kernel := kernelFree heap.kernel object, nodes := heap.nodes.filter (·.object ≠ object) }
    else heap
  sound := by
    intro heap after collected sound
    cases collected
    split
    · rename_i garbage
      obtain ⟨start, blocks, lists, held⟩ := sound.kernel
      obtain ⟨blocks', lists', released, -⟩ := held.released garbage.1
      refine ⟨⟨start, blocks', lists', released⟩, sound.table.imp_right fun listed => ?_⟩
      obtain ⟨entry, member, isTable⟩ := List.mem_map.mp listed
      refine List.mem_map.mpr ⟨entry, List.mem_filter.mpr ⟨member, ?_⟩, isTable⟩
      simpa [isTable] using garbage.2.symm
    · exact sound
  capacity := by
    intro heap after collected
    cases collected
    split
    · exact ⟨rfl, List.length_filter_le ..⟩
    · exact ⟨rfl, Nat.le_refl _⟩

/-- A managed heap without objects, on a kernel heap of 64 KiB after boot. -/
def freshHeap : ManagedHeap where
  kernel := ⟨bootHeap 0x10000 0 0x100000 fun _ => 0, []⟩
  hasRuntime := true
  gcActive := false
  nodesPointer := 0
  nodes := []
  nodeCapacity := 0
  liveObjectCount := 0
  allocatedBytes := 0
  collectionThresholdBytes := 100

theorem freshHeap_sound : freshHeap.Sound where
  kernel := ⟨_, _, _, Held.boot 0x10000 0 0x100000 fun _ => 0⟩
  table := .inl rfl

/-- The second array takes the place of the first, which the collection before it releases. -/
theorem int_array_fits : ∃ first middle second after,
    zaclrArrayAllocate (releasing 0x100120).collect freshHeap 0x01000001 4 3 =
      some (first, middle) ∧
    zaclrArrayAllocate (releasing 0x100120).collect middle 0x01000001 4 3 = some (second, after) ∧
    first.address = 0x100120 ∧ second.address = 0x100120 ∧
    first.Fits middle (.load .i4) ∧ second.Fits after (.load .i4) := by
  have found : ∃ one ∈ zaclrArrayAllocate (releasing 0x100120).collect freshHeap 0x01000001 4 3,
      ∃ two ∈ zaclrArrayAllocate (releasing 0x100120).collect one.2 0x01000001 4 3,
        one.1.address = 0x100120 ∧ two.1.address = 0x100120 ∧ one.2.nodeCapacity = 16 ∧
          one.2.nodes.length = 1 := by
    decide +kernel
  obtain ⟨⟨first, middle⟩, allocated, ⟨second, after⟩, allocatedNext, place, again, capacity,
    nodes⟩ := found
  have sound := sound_after_array freshHeap_sound (by decide) (by decide) allocated (by decide)
  have narrow : ∀ width, elementWidth 0x01000001 (4 : BitVec 32).toNat (.load .i4) = some width →
    width ≤ 4 := by
    simp [elementWidth, ArrayDesc.accessWidth, ArrayDesc.loadCode]
  refine ⟨first, middle, second, after, allocated, allocatedNext, place, again, ?_, ?_⟩
  · exact (array_fits_iff freshHeap middle freshHeap_sound (by decide) (by decide)
      (releasing 0x100120)
      0x01000001 4 3 first allocated (.load .i4)).mpr ⟨by decide, .inr narrow⟩
  · simp only at capacity nodes
    exact (array_fits_iff middle after sound (by omega) (by omega) (releasing 0x100120)
      0x01000001 4 3 second allocatedNext (.load .i4)).mpr ⟨by decide, .inr narrow⟩

/-- An array of 2^29 elements with 8 bytes each is allocated in a heap of 64 KiB. -/
theorem wrapped_array_allocated :
    ∃ array after, zaclrArrayAllocate (releasing 0).collect freshHeap 0x01000001 8 0x20000000 =
      some (array, after) ∧
      ∀ access, ¬ array.Fits after access := by
  have found :
      ∃ answer ∈ zaclrArrayAllocate (releasing 0).collect freshHeap 0x01000001 8 0x20000000,
      answer.1.length = 0x20000000 ∧ answer.1.elementSize = 8 := by
    decide +kernel
  obtain ⟨⟨array, after⟩, allocated, length, size⟩ := found
  refine ⟨array, after, allocated, fun access fits => ?_⟩
  have room := fits.room
  have field : after.kernel.heap.blockSize array.address < 256 ^ 4 := Memory.load_lt ..
  rw [length, size] at room
  simp only [reduceToNat] at room
  omega

end Zapada.Zaclr
