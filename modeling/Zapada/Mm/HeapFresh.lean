import Zapada.Mm.HeapZero

/-! Runs of the heap in which callers ask for any size and write to the whole of the
blocks they hold, and what such callers find in a new block. -/

namespace Zapada.Mm

open Foundation HeapSystem

/-- The end of what the holder of a pointer may write to: the requested bytes and the
rest of the block. -/
def HeapSystem.holdEnd (system : HeapSystem) (entry : Nat × Nat) : Nat :=
  entry.1 + max entry.2 (system.heap.blockSize entry.1 - kheapHeaderSize)

/-- Any request that a `size_t` holds, releases of live pointers, and writes to live
blocks. -/
def HeapSystem.stepAny (system : HeapSystem) : HeapOperation → Option HeapSystem
  | .alloc size =>
    if size < 2 ^ 64 then
      match kheapAlloc system.heap size with
      | none => none
      | some (ptr, heap) =>
        some { heap, live := if ptr = 0 then system.live else system.live ++ [(ptr, size)] }
    else none
  | .free ptr =>
    if ptr ∈ system.pointers then
      some { heap := kheapFree system.heap ptr, live := system.live.filter (·.1 ≠ ptr) }
    else none
  | .write address value =>
    if ∃ entry ∈ system.live, entry.1 ≤ address ∧ address < system.holdEnd entry then
      some { system with heap :=
        { system.heap with memory := Function.update system.heap.memory address value } }
    else none

/-- The block in front of a pointer ends at the bump pointer. -/
def Heap.onTop (heap : Heap) (ptr : Nat) : Prop :=
  heap.heapCurrent ≤ ptr - kheapHeaderSize + heap.blockSize ptr

instance (heap : Heap) (ptr : Nat) : Decidable (heap.onTop ptr) :=
  inferInstanceAs (Decidable (_ ≤ _))

/-- From a pointer to the end of the header behind the bump pointer all bytes are zero. -/
def Heap.cleanFrom (heap : Heap) (ptr : Nat) : Prop :=
  ∀ i < heap.heapCurrent + kheapHeaderSize - ptr, ptr + i < heap.heapEnd → heap.memory (ptr + i) = 0

instance (heap : Heap) (ptr : Nat) : Decidable (heap.cleanFrom ptr) :=
  inferInstanceAs (Decidable (∀ i < _, _ → _))

/-- Requests fit the size field, and the topmost block is released clean. -/
def cleanRewinds (system : HeapSystem) : HeapOperation → Prop
  | .alloc size => size ≤ 2 ^ 32 - 32
  | .free ptr => system.heap.onTop ptr → system.heap.cleanFrom ptr
  | .write _ _ => True

instance (system : HeapSystem) (operation : HeapOperation) :
    Decidable (cleanRewinds system operation) :=
  match operation with
  | .alloc _ => inferInstanceAs (Decidable (_ ≤ _))
  | .free _ => inferInstanceAs (Decidable (_ → _))
  | .write _ _ => inferInstanceAs (Decidable True)

/-- The heap after boot with such callers. -/
def freshMachine (heapSize minStart kernelEnd : UInt64) (memory : Memory) :
    Machine HeapSystem HeapOperation :=
  .ofStep ⟨bootHeap heapSize minStart kernelEnd memory, []⟩ HeapSystem.stepAny

/-- Behind the next header the bump area is zero. -/
def Heap.Untouched (heap : Heap) : Prop :=
  ∀ address, heap.heapCurrent + 16 ≤ address → address < heap.heapEnd → heap.memory address = 0

theorem KeepsAbove.untouched {heap heap' : Heap} (keeps : KeepsAbove heap heap')
    (untouched : heap.Untouched) : heap'.Untouched := by
  intro address low high
  rw [keeps.current] at low
  rw [keeps.limit] at high
  rw [keeps.memory address (by omega)]
  exact untouched address low high

namespace HandedOut

theorem untouched {heap heap' : Heap} (handed : HandedOut heap heap' ptr nBlocks)
    (untouched : heap.Untouched) : heap'.Untouched := by
  intro address low high
  have grows := handed.grows
  rw [handed.limit] at high
  rw [handed.above address (by omega)]
  exact untouched address (by omega) high

/-- Every byte of a block that was handed out is zero. -/
theorem zero {heap heap' : Heap} (handed : HandedOut heap heap' ptr nBlocks)
    (untouched : heap.Untouched) (inside : i < 16 * nBlocks) : heap'.memory (ptr + i) = 0 := by
  rcases handed.content with cleared | ⟨carved, fits⟩
  · exact cleared i inside
  · rw [handed.above (ptr + i) (by omega)]
    exact untouched (ptr + i) (by omega) (by omega)

end HandedOut

/-- The bump pointer is rewound to the released block, or only its link is written. -/
theorem Layout.free_memory {heap : Heap}
    (layout : Layout heap blocks lists used) (member : block ∈ blocks) :
    KeepsAbove heap (kheapFree heap (userPtr block)) ∨ heap.onTop (userPtr block) ∧
        kheapFree heap (userPtr block) = { heap with heapCurrent := block.start } := by
  have least := (layout.sizes block member).least
  have stop := layout.stop_le member
  have bounded := layout.bounded
  have hdr : u64 (userPtr block + 2 ^ 64 - kheapHeaderSize) = block.start := by
    simp only [u64, userPtr, kheapHeaderSize, Span.stop] at *
    omega
  have ends : u64 (block.start + block.size) = block.stop := by
    simp only [u64, Span.stop] at *
    omega
  simp only [kheapFree, hdr, layout.blockSize_eq member, ends]
  split
  · exact .inl (.refl heap)
  · split
    · exact .inl (.refl heap)
    · split
      · rename_i top
        refine .inr ⟨?_, rfl⟩
        rw [Heap.onTop, layout.blockSize_eq member]
        exact top
      · refine .inl (.bucketPush heap _ ?_)
        simp only [userPtr, Span.stop] at *
        omega

/-- The layout of the heap, and a bump area that was never left dirty. -/
def Fresh (start : Heap) (system : HeapSystem) : Prop :=
  (∃ blocks lists, Held start system blocks lists) ∧ system.heap.Untouched

namespace Fresh

theorem boot (heapSize minStart kernelEnd : UInt64) (memory : Memory)
    (zeroed : ∀ address, (bootHeap heapSize minStart kernelEnd memory).heapCurrent ≤ address →
      address < (bootHeap heapSize minStart kernelEnd memory).heapEnd → memory address = 0) :
    Fresh (bootHeap heapSize minStart kernelEnd memory)
      ⟨bootHeap heapSize minStart kernelEnd memory, []⟩ := by
  refine ⟨⟨[], fun _ => [], Held.boot heapSize minStart kernelEnd memory⟩, ?_⟩
  have same : (bootHeap heapSize minStart kernelEnd memory).memory = memory := by
    simp only [bootHeap, kheapInit, kheapReserveUntil, kheapSetSize]
    split_ifs <;> rfl
  intro address low high
  rw [same]
  exact zeroed address (Nat.le_of_add_right_le low) high

theorem alloc (fresh : Fresh start system) (small : size ≤ 2 ^ 32 - 32)
    (taken : system.stepAny (.alloc size) = some after) : Fresh start after := by
  obtain ⟨⟨blocks, lists, held⟩, untouched⟩ := fresh
  obtain ⟨-, taken⟩ := Option.ite_none_right_eq_some.mp taken
  cases answer : kheapAlloc system.heap size with
  | none => simp [answer] at taken
  | some result =>
    simp only [answer] at taken
    cases taken
    obtain ⟨blocks', lists', after, -⟩ := held.allocated small answer
    refine ⟨⟨blocks', lists', after⟩, ?_⟩
    rcases held.layout.alloc_memory small answer with ⟨-, keeps⟩ | ⟨-, handed⟩
    · exact keeps.untouched untouched
    · exact handed.untouched untouched

theorem free (fresh : Fresh start system)
    (clean : system.heap.onTop ptr → system.heap.cleanFrom ptr)
    (taken : system.stepAny (.free ptr) = some after) : Fresh start after := by
  obtain ⟨⟨blocks, lists, held⟩, untouched⟩ := fresh
  obtain ⟨isLive, taken⟩ := Option.ite_none_right_eq_some.mp taken
  cases taken
  obtain ⟨blocks', lists', after, -⟩ := held.released isLive
  refine ⟨⟨blocks', lists', after⟩, ?_⟩
  obtain ⟨block, member, rfl⟩ := held.layout.owned ptr isLive
  rcases held.layout.free_memory member with keeps | ⟨top, rewound⟩
  · exact keeps.untouched untouched
  · intro address low high
    simp only [rewound] at low high ⊢
    -- up to the old bump pointer the guard applies, behind it the invariant
    by_cases below : address < system.heap.heapCurrent + 16
    · obtain ⟨i, rfl⟩ : ∃ i, address = userPtr block + i := ⟨address - userPtr block, by
        simp only [userPtr]
        omega⟩
      apply clean top i _ high
      simp only [kheapHeaderSize]
      omega
    · exact untouched address (by omega) high

theorem write (fresh : Fresh start system)
    (taken : system.stepAny (.write address value) = some after) : Fresh start after := by
  obtain ⟨⟨blocks, lists, held⟩, untouched⟩ := fresh
  obtain ⟨holds, taken⟩ := Option.ite_none_right_eq_some.mp taken
  cases taken
  obtain ⟨entry, inLive, low, high⟩ := holds
  obtain ⟨block, member, isEntry, large⟩ := held.large entry inLive
  have isLive : userPtr block ∈ system.pointers := isEntry ▸ List.mem_map_of_mem inLive
  have inside : address < block.stop := by
    simp only [holdEnd, ← isEntry, held.layout.blockSize_eq member] at high
    simp only [userPtr, kheapHeaderSize, Span.stop] at *
    omega
  refine ⟨⟨blocks, lists, held.written member isLive (isEntry ▸ low) inside value⟩, ?_⟩
  intro other above below
  have stop := held.layout.stop_le member
  have different : other ≠ address := by
    simp only at above
    omega
  simp only [Function.update_of_ne different]
  exact untouched other above below

theorem reached (fresh : Fresh start first)
    (run : ((Machine.ofStep first stepAny).guarded cleanRewinds).Run labels system) :
    Fresh start system := by
  induction run with
  | start isFirst =>
    cases isFirst
    exact fresh
  | @next _ _ operation _ earlier taken ih =>
    obtain ⟨admitted, taken⟩ := taken
    cases operation with
    | alloc size => exact ih.alloc admitted taken
    | free ptr => exact ih.free admitted taken
    | write address value => exact ih.write taken

end Fresh

/-- If the topmost block is only ever released clean, every allocation returns, and what
it hands out is zero. -/
theorem fresh_memory_is_zero (heapSize minStart kernelEnd : UInt64) (memory : Memory)
    (zeroed : ∀ address, (bootHeap heapSize minStart kernelEnd memory).heapCurrent ≤ address →
      address < (bootHeap heapSize minStart kernelEnd memory).heapEnd → memory address = 0)
    (run : ((freshMachine heapSize minStart kernelEnd memory).guarded cleanRewinds).Run
      labels system)
    (size : Nat) (small : size ≤ 2 ^ 32 - 32) :
    ∃ ptr heap, kheapAlloc system.heap size = some (ptr, heap) ∧
      (ptr ≠ 0 → ∀ i < size, heap.memory (ptr + i) = 0) := by
  obtain ⟨⟨blocks, lists, held⟩, untouched⟩ :=
    (Fresh.boot heapSize minStart kernelEnd memory zeroed).reached run
  have answers : ∃ result, kheapAlloc system.heap size = some result := by
    rcases held.layout.alloc small with ⟨heap, refused, -⟩ | ⟨heap, _, _, block, granted, -⟩
    · exact ⟨_, refused⟩
    · exact ⟨_, granted⟩
  obtain ⟨⟨ptr, heap⟩, answer⟩ := answers
  refine ⟨ptr, heap, answer, fun some_ptr i inside => ?_⟩
  rcases held.layout.alloc_memory small answer with ⟨null, -⟩ | ⟨positive, handed⟩
  · contradiction
  · obtain ⟨-, covers, -⟩ := blocksForSize_spec positive small
    exact handed.zero untouched (by omega)

/-- A clean block on top of a dirty one is given back, and its memory handed out again. -/
theorem fresh_memory_is_zero_after_rewind :
    ∃ system, ((freshMachine 0x10000 0 0x100000 fun _ => 0).guarded cleanRewinds).Run
        [.alloc 24, .alloc 40, .write 0x100010 7, .free 0x100040] system ∧
      system.heap.heapCurrent = 0x100030 ∧ ∃ ptr heap,
        kheapAlloc system.heap 100 = some (ptr, heap) ∧
        (ptr ≠ 0 → ∀ i < 100, heap.memory (ptr + i) = 0) := by
  have found : ∃ final ∈ Machine.execute cleanRewinds stepAny
      ⟨bootHeap 0x10000 0 0x100000 fun _ => 0, []⟩
      [.alloc 24, .alloc 40, .write 0x100010 7, .free 0x100040],
      final.heap.heapCurrent = 0x100030 := by
    decide +kernel
  obtain ⟨system, run, rewound⟩ := Machine.Run.exists_of_execute _ found
  exact ⟨system, run, rewound, fresh_memory_is_zero 0x10000 0 0x100000 (fun _ => 0)
    (fun _ _ _ => rfl) run 100 (by omega)⟩

/-- A caller finds what the last holder of the topmost block wrote; and without any write,
the header of a block that was released before the one below it. -/
theorem fresh_memory_is_dirty : (∃ system, (freshMachine 0x10000 0 0x100000 fun _ => 0).Run
        [.alloc 32, .write 0x100010 7, .free 0x100010] system ∧
      ∃ heap, kheapAlloc system.heap 32 = some (0x100010, heap) ∧ heap.memory 0x100010 = 7) ∧
    ∃ system, (freshMachine 0x10000 0 0x100000 fun _ => 0).Run
        [.alloc 16, .alloc 16, .free 0x100030, .free 0x100010] system ∧
      ∃ heap, kheapAlloc system.heap 64 = some (0x100010, heap) ∧ heap.memory 0x100020 = 32 := by
  have written : ∃ final ∈ [.alloc 32, .write 0x100010 7, .free 0x100010].foldlM stepAny
      ⟨bootHeap 0x10000 0 0x100000 fun _ => 0, []⟩,
      ∃ result ∈ kheapAlloc final.heap 32, result.1 = 0x100010 ∧ result.2.memory 0x100010 = 7 := by
    decide +kernel
  have header : ∃ final ∈ [.alloc 16, .alloc 16, .free 0x100030, .free 0x100010].foldlM
      stepAny ⟨bootHeap 0x10000 0 0x100000 fun _ => 0, []⟩,
      ∃ result ∈ kheapAlloc final.heap 64, result.1 = 0x100010 ∧ result.2.memory 0x100020 = 32 := by
    decide +kernel
  obtain ⟨system, executed, ⟨_, heap⟩, answer, rfl, dirty⟩ := written
  obtain ⟨other, otherExecuted, ⟨_, otherHeap⟩, otherAnswer, rfl, otherDirty⟩ := header
  exact ⟨⟨system, Machine.Run.ofExecution _ executed, heap, answer, dirty⟩,
    other, Machine.Run.ofExecution _ otherExecuted, otherHeap, otherAnswer, otherDirty⟩

end Zapada.Mm
