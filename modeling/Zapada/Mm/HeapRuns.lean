import Zapada.Foundation.Machine
import Zapada.Mm.HeapOperations

namespace Zapada.Mm

open Foundation

/-- The heap after boot: zeroed variables, then `kheap_set_size`,
`kheap_reserve_until` and `kheap_init`. -/
def bootHeap (heapSize minStart kernelEnd : UInt64) (memory : Memory) : Heap :=
  let zeroed : Heap :=
    { heapAllocStart := 0, heapCurrent := 0, heapEnd := 0, heapMinStart := 0,
      heapSize := earlyHeapSize, freeBytes :=
        0, freeBuckets := fun _ => 0, overflowList := 0, memory }
  kheapInit (kheapReserveUntil (kheapSetSize zeroed heapSize.toNat) minStart.toNat)
    kernelEnd.toNat

/-- The heap and what its callers hold: each live pointer with the size asked for. -/
structure HeapSystem where
  heap : Heap
  live : List (Nat × Nat)

def HeapSystem.pointers (system : HeapSystem) : List Nat := system.live.map Prod.fst

inductive HeapOperation where
  | alloc (size : Nat)
  | free (ptr : Nat)
  | write (address : Nat) (value : UInt8)
deriving DecidableEq

/-- Callers ask for less than the heap size, release only live pointers and write
only to memory they hold. -/
def HeapSystem.step (system : HeapSystem) : HeapOperation → Option HeapSystem
  | .alloc size =>
    if size < system.heap.heapSize then
      match kheapAlloc system.heap size with
      | none => none
      | some (ptr, heap) =>
        some { heap, live := if ptr = 0 then system.live else system.live ++ [(ptr, size)] }
    else none
  | .free ptr =>
    if ptr ∈ system.pointers then
      some { heap := kheapFree system.heap ptr, live := system.live.filter (·.1 ≠ ptr) }
    else none
  | .write address value =>
    if ∃ entry ∈ system.live, entry.1 ≤ address ∧ address < entry.1 + entry.2 then
      some { system with heap :=
        { system.heap with memory := Function.update system.heap.memory address value } }
    else none

theorem bootHeap_current (heapSize minStart kernelEnd : UInt64) (memory : Memory) :
    (bootHeap heapSize minStart kernelEnd memory).heapCurrent % 16 = 0 ∧
      (bootHeap heapSize minStart kernelEnd memory).heapCurrent < 2 ^ 64 := by
  simp only [bootHeap, kheapInit]
  split <;> exact heapAlignUp_page _

theorem bootHeap_first (heapSize minStart kernelEnd : UInt64) (memory : Memory) :
    (bootHeap heapSize minStart kernelEnd memory).first =
      (bootHeap heapSize minStart kernelEnd memory).heapCurrent := by
  simp [Heap.first, bootHeap, kheapInit]

theorem bootHeap_head (heapSize minStart kernelEnd : UInt64) (memory : Memory) (list : FreeList) :
    (bootHeap heapSize minStart kernelEnd memory).head list = 0 := by
  simp only [bootHeap, kheapInit, kheapReserveUntil, kheapSetSize]
  split_ifs <;> cases list <;> rfl

/-- The blocks tile the region from the first header to the bump pointer; each is
live or on the one list for its size; live blocks are aligned, disjoint, inside the
heap and large enough. -/
structure WellFormed (start : Heap) (system : HeapSystem) (blocks : List Span)
    (lists : FreeList → List Nat) : Prop where
  tiles : Tiles system.heap.first blocks system.heap.heapCurrent
  headers : ∀ block ∈ blocks, system.heap.memory.load block.start 4 = block.size
  chains : ∀ list, Chain system.heap.next (pointer (system.heap.head list)) (lists list)
  listed : ∀ list, ∀ p ∈ lists list, ∃ block ∈ blocks, userPtr block = p
  divided :
      ∀ block ∈ blocks, (userPtr block ∈ system.pointers ∧ ∀ list, userPtr block ∉ lists list) ∨
    (userPtr block ∉ system.pointers ∧ ∀ list,
      (lists list).count (userPtr block) = if list = listFor (units block) then 1 else 0)
  live : ∀ entry ∈ system.live, entry.1 % 16 = 0 ∧ ∃ block ∈ blocks, userPtr block = entry.1 ∧
    entry.2 + 16 ≤ block.size ∧ start.heapCurrent ≤ block.start ∧ block.stop ≤ start.heapEnd
  disjoint : system.live.Pairwise fun one other =>
    one.1 + one.2 ≤ other.1 ∨ other.1 + other.2 ≤ one.1

structure Held (start : Heap) (system : HeapSystem) (blocks : List Span)
    (lists : FreeList → List Nat) : Prop where
  layout : Layout system.heap blocks lists (· ∈ system.pointers)
  bounds : SameBounds start system.heap
  distinct : system.pointers.Nodup
  large : ∀ entry ∈ system.live, ∃ block ∈ blocks, userPtr block = entry.1 ∧
    entry.2 + 16 ≤ block.size

/-- The running total counts the blocks that no caller holds. -/
def Booked (system : HeapSystem) (blocks : List Span) : Prop :=
  Layout.Balanced system.heap blocks (· ∈ system.pointers)

namespace Held

variable {start : Heap} {system : HeapSystem} {blocks : List Span} {lists : FreeList → List Nat}

theorem boot (heapSize minStart kernelEnd : UInt64) (memory : Memory) :
    Held (bootHeap heapSize minStart kernelEnd memory)
      ⟨bootHeap heapSize minStart kernelEnd memory, []⟩ [] fun _ => [] := by
  refine ⟨?_, ⟨rfl, rfl, rfl⟩, List.nodup_nil, by simp⟩
  obtain ⟨aligned, bounded⟩ := bootHeap_current heapSize minStart kernelEnd memory
  have first := bootHeap_first heapSize minStart kernelEnd memory
  refine ⟨first ▸ aligned, first, by simp, by simp, fun list => ?_, by simp, by simp, ?_, by simp,
    .inl rfl, bounded⟩
  · rw [bootHeap_head]
    exact .nil
  · simp [HeapSystem.pointers]

/-- After an allocation that hands out a block, or none. -/
theorem allocated (held : Held start system blocks lists) (small : size ≤ 2 ^ 32 - 32)
    (answer : kheapAlloc system.heap size = some (ptr, heap)) :
    let after : HeapSystem := ⟨heap, if ptr = 0 then system.live else system.live ++ [(ptr, size)]⟩
    ∃ blocks' lists', Held start after blocks' lists' ∧
      (Booked system blocks → Booked after blocks') := by
  rcases held.layout.alloc small with
    ⟨heap', refused, bounds, layout, total⟩ | ⟨heap', blocks', lists', block, granted,
      positive, given⟩
  · obtain ⟨rfl, rfl⟩ : ptr = 0 ∧ heap = heap' := by simpa [refused, eq_comm] using answer
    exact ⟨blocks, lists, ⟨layout, held.bounds.trans bounds, held.distinct, held.large⟩,
      total.trans⟩
  · obtain ⟨rfl, rfl⟩ : ptr = userPtr block ∧ heap = heap' := by
      simpa [granted, eq_comm] using answer
    have some_user : userPtr block ≠ 0 := by
      simp only [userPtr]
      omega
    simp only [if_neg some_user]
    have used : (fun q => q = userPtr block ∨ q ∈ system.pointers) =
        (· ∈ HeapSystem.pointers ⟨heap, system.live ++ [(userPtr block, size)]⟩) := by
      funext q
      simp [HeapSystem.pointers, or_comm]
    refine ⟨blocks', lists', ⟨used ▸ given.layout, held.bounds.trans given.bounds, ?_,
      ?_⟩, fun booked => ?_⟩
    · simp only [HeapSystem.pointers, List.map_append, List.map_cons, List.map_nil]
      rw [List.nodup_append_comm]
      exact List.nodup_cons.mpr ⟨given.fresh, held.distinct⟩
    · intro entry member
      rcases List.mem_append.mp member with old | isNew
      · obtain ⟨found, inBlocks, isEntry, large⟩ := held.large entry old
        have inUse : userPtr found ∈ system.pointers := by
          rw [isEntry]
          exact List.mem_map_of_mem old
        exact ⟨found, given.kept found inBlocks inUse, isEntry, large⟩
      · obtain rfl : entry = (userPtr block, size) := by simpa using isNew
        have enough := given.enough
        have sized := given.layout.size_eq given.member
        obtain ⟨-, covers, -⟩ := blocksForSize_spec positive small
        exact ⟨block, given.member, rfl, by simp only; omega⟩
    · rw [Booked, ← used]
      exact given.balanced booked

theorem alloc (held : Held start system blocks lists) (small : size ≤ 2 ^ 32 - 32)
    (taken : system.step (.alloc size) = some after) :
    ∃ blocks' lists', Held start after blocks' lists' ∧
      (Booked system blocks → Booked after blocks') := by
  obtain ⟨-, taken⟩ := Option.ite_none_right_eq_some.mp taken
  cases answer : kheapAlloc system.heap size with
  | none => simp [answer] at taken
  | some result =>
    simp only [answer] at taken
    cases taken
    exact held.allocated small answer

section

variable (held : Held start system blocks lists)

include held

theorem released (isLive : ptr ∈ system.pointers) :
    let after : HeapSystem := ⟨kheapFree system.heap ptr, system.live.filter (·.1 ≠ ptr)⟩
    ∃ blocks' lists', Held start after blocks' lists' ∧
      (Booked system blocks → Booked after blocks') := by
  intro after
  obtain ⟨block, member, rfl⟩ := held.layout.owned ptr isLive
  obtain ⟨blocks', lists', bounds, layout, kept, balanced⟩ := held.layout.free member isLive
  have pointers : after.pointers = system.pointers.filter (· ≠ userPtr block) := by
    rw [HeapSystem.pointers, HeapSystem.pointers, List.filter_map]
    rfl
  have used : (fun q => q ∈ system.pointers ∧ q ≠ userPtr block) = (· ∈ after.pointers) := by
    funext q
    rw [pointers, List.mem_filter, decide_eq_true_eq]
  refine ⟨blocks', lists', ⟨used ▸ layout, held.bounds.trans bounds, ?_, ?_⟩, fun booked => ?_⟩
  · rw [pointers]
    exact held.distinct.filter _
  · intro entry inLive
    rw [List.mem_filter] at inLive
    obtain ⟨found, inBlocks, isEntry, large⟩ := held.large entry inLive.1
    refine ⟨found, kept found inBlocks ?_, isEntry, large⟩
    rintro rfl
    simp [isEntry] at inLive
  · rw [Booked, ← used]
    exact balanced booked

theorem free (taken : system.step (.free ptr) = some after) :
    ∃ blocks' lists', Held start after blocks' lists' ∧
      (Booked system blocks → Booked after blocks') := by
  obtain ⟨isLive, taken⟩ := Option.ite_none_right_eq_some.mp taken
  cases taken
  exact held.released isLive

/-- A byte of a block in use is overwritten. -/
theorem written (member : block ∈ blocks)
    (isLive : userPtr block ∈ system.pointers) (low : userPtr block ≤ address)
    (high : address < block.stop) (value : UInt8) : Held start { system with heap :=
      { system.heap with memory := Function.update system.heap.memory address value } }
      blocks lists := by
  refine ⟨?_, ⟨held.bounds.first, held.bounds.limit, held.bounds.size⟩, held.distinct, held.large⟩
  refine held.layout.write member isLive fun other outside => ?_
  refine Function.update_of_ne ?_ _ _
  omega

theorem write (taken : system.step (.write address value) = some after) :
    Held start after blocks lists ∧ (Booked system blocks → Booked after blocks) := by
  obtain ⟨⟨entry, inLive, low, high⟩, taken⟩ := Option.ite_none_right_eq_some.mp taken
  cases taken
  obtain ⟨block, member, isEntry, large⟩ := held.large entry inLive
  refine ⟨held.written member (isEntry ▸ List.mem_map_of_mem inLive) (isEntry ▸ low) ?_ value, id⟩
  simp only [userPtr, Span.stop] at *
  omega

theorem wellFormed (unpinned : start.first = start.heapCurrent) :
    WellFormed start system blocks lists := by
  have layout := held.layout
  refine ⟨layout.tiles, layout.headers, layout.chains, ?_, ?_, ?_, ?_⟩
  · intro list p listed
    obtain ⟨-, block, member, isP, -⟩ := layout.listed list p listed
    exact ⟨block, member, isP⟩
  · intro block member
    rcases layout.covered block member with isLive | inList
    · exact .inl ⟨isLive, fun list listed => (layout.listed list _ listed).1 isLive⟩
    · refine .inr ⟨(layout.listed _ _ inList).1, fun list => ?_⟩
      split
      · rename_i here
        subst here
        exact List.count_eq_one_of_mem (layout.nodup _) inList
      · rename_i elsewhere
        refine List.count_eq_zero.mpr fun listed => elsewhere ?_
        obtain ⟨-, found, inFound, same, isList⟩ := layout.listed list _ listed
        rw [← isList, layout.user_inj inFound member same]
  · intro entry inLive
    obtain ⟨block, member, isEntry, large⟩ := held.large entry inLive
    have aligned := layout.start_aligned member
    obtain ⟨low, high⟩ := layout.tiles.bounds.2 block member
    have inside := layout.inside.resolve_left (List.ne_nil_of_mem member)
    refine ⟨?_, block, member, isEntry, large, ?_, ?_⟩
    · rw [← isEntry, userPtr]
      omega
    · rw [← unpinned, ← held.bounds.first]
      exact low
    · rw [← held.bounds.limit]
      omega
  · have distinct : system.live.Pairwise fun one other => one.1 ≠ other.1 :=
      List.pairwise_map.mp held.distinct
    refine distinct.imp_of_mem fun {one other} inOne inOther different => ?_
    obtain ⟨block, member, isOne, large⟩ := held.large one inOne
    obtain ⟨found, inFound, isOther, foundLarge⟩ := held.large other inOther
    have notSame : block ≠ found := by
      rintro rfl
      exact different (isOne.symm.trans isOther)
    have apart := layout.tiles.apart member inFound notSame
    simp only [userPtr, Span.stop] at *
    omega

end

end Held

/-- Block sizes fit the 32-bit size field. -/
def representable (_ : HeapSystem) : HeapOperation → Prop
  | .alloc size => size ≤ 2 ^ 32 - 32
  | _ => True

instance (system : HeapSystem) (operation : HeapOperation) :
    Decidable (representable system operation) :=
  match operation with
  | .alloc _ => inferInstanceAs (Decidable (_ ≤ _))
  | .free _ => inferInstanceAs (Decidable True)
  | .write _ _ => inferInstanceAs (Decidable True)

def heapMachine (heapSize minStart kernelEnd : UInt64) (memory : Memory) :
    Machine HeapSystem HeapOperation :=
  .ofStep ⟨bootHeap heapSize minStart kernelEnd memory, []⟩ HeapSystem.step

theorem heap_held
    (run : ((heapMachine heapSize minStart kernelEnd memory).guarded representable).Run
      labels system) :
    ∃ blocks lists, Held (bootHeap heapSize minStart kernelEnd memory) system blocks lists ∧
      Booked system blocks := by
  induction run with
  | start first =>
    cases first
    exact ⟨[], fun _ => [], Held.boot heapSize minStart kernelEnd memory, rfl⟩
  | @next _ before operation after earlier taken ih =>
    obtain ⟨blocks, lists, held, booked⟩ := ih
    obtain ⟨small, taken⟩ := taken
    have kept :
        ∃ blocks' lists', Held (bootHeap heapSize minStart kernelEnd memory) after blocks' lists' ∧
        (Booked before blocks → Booked after blocks') := by
      cases operation with
      | alloc size => exact held.alloc small taken
      | free ptr => exact held.free taken
      | write address value => exact ⟨blocks, lists, held.write taken⟩
    obtain ⟨blocks', lists', held', books⟩ := kept
    exact ⟨blocks', lists', held', books booked⟩

/-- As long as every request is representable the heap is well formed, and every
allocation returns. -/
theorem heap_well_formed (heapSize minStart kernelEnd : UInt64) (memory : Memory)
    (run : ((heapMachine heapSize minStart kernelEnd memory).guarded representable).Run
      labels system) :
    (∃ blocks lists, WellFormed (bootHeap heapSize minStart kernelEnd memory) system blocks lists) ∧
    ∀ size ≤ 2 ^ 32 - 32, (kheapAlloc system.heap size).isSome := by
  obtain ⟨blocks, lists, held, -⟩ := heap_held run
  refine ⟨⟨blocks, lists, held.wellFormed (bootHeap_first ..)⟩, fun size small => ?_⟩
  rcases held.layout.alloc small with ⟨heap, refused, -⟩ | ⟨heap, _, _, block, granted, -⟩
  · rw [refused]
    rfl
  · rw [granted]
    rfl

/-- Two allocations, a write and the release of the lower block, in a heap of 64 KiB. -/
theorem heap_well_formed_two_blocks :
    ∃ system, ((heapMachine 0x10000 0 0x100000 fun _ => 0).guarded representable).Run
        [.alloc 24, .alloc 2000, .write 0x100010 7, .free 0x100010] system ∧
      system.live = [(0x100040, 2000)] ∧ system.heap.head (listFor 2) = 0x100010 ∧
      ∃ blocks lists, WellFormed (bootHeap 0x10000 0 0x100000 fun _ => 0) system blocks lists := by
  have found : ∃ final ∈ Machine.execute representable HeapSystem.step
      ⟨bootHeap 0x10000 0 0x100000 fun _ => 0, []⟩
      [.alloc 24, .alloc 2000, .write 0x100010 7, .free 0x100010],
      final.live = [(0x100040, 2000)] ∧ final.heap.head (listFor 2) = 0x100010 := by
    decide +kernel
  obtain ⟨system, run, live, listed⟩ := Machine.Run.exists_of_execute _ found
  exact ⟨system, run, live, listed, (heap_well_formed 0x10000 0 0x100000 (fun _ => 0) run).1⟩

/-- In a heap of 8 GiB a block of 2^32 - 16 bytes has the total size 0, so the next
block has the same address. -/
theorem heap_blocks_overlap : ∃ system, (heapMachine 0x200000000 0 0x100000 fun _ => 0).Run
        [.alloc (2 ^ 32 - 16), .alloc 16] system ∧
          system.live = [(0x100010, 2 ^ 32 - 16), (0x100010, 16)] ∧
      ¬ ∃ blocks lists,
        WellFormed (bootHeap 0x200000000 0 0x100000 fun _ => 0) system blocks lists := by
  have found : ∃ final ∈ [.alloc (2 ^ 32 - 16), .alloc 16].foldlM HeapSystem.step
      ⟨bootHeap 0x200000000 0 0x100000 fun _ => 0, []⟩,
      final.live = [(0x100010, 2 ^ 32 - 16), (0x100010, 16)] := by
    decide +kernel
  obtain ⟨system, executed, live⟩ := found
  refine ⟨system, Machine.Run.ofExecution _ executed, live, ?_⟩
  rintro ⟨blocks, lists, formed⟩
  have apart := formed.disjoint
  rw [live] at apart
  simp at apart

end Zapada.Mm
