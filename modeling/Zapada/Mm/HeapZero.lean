import Zapada.Mm.HeapRuns

namespace Zapada.Mm

open Foundation List

theorem blockZeroUser_inside (heap : Heap) (small : 16 * nBlocks < 2 ^ 32)
    (low : user ≤ address) (high : address < user + 16 * nBlocks) :
    (blockZeroUser heap user nBlocks).memory address = 0 := by
  have along : ∀ words, address < user + 8 * words →
      (List.range words).foldl (fun memory i => memory.store (user + 8 * i) 8 0) heap.memory
        address = 0 := by
    intro words
    induction words with
    | zero =>
      omega
    | succ words ih =>
      intro inside
      rw [range_succ, foldl_append]
      simp only [foldl_cons, foldl_nil]
      by_cases earlier : address < user + 8 * words
      · rw [Memory.store_outside _ _ _ _ _ (.inl earlier)]
        exact ih earlier
      · exact Memory.store_zero_inside _ _ _ (by omega) (by omega)
  apply along
  simp only [u32, kheapBlockAlign]
  omega

/-- The bump pointer and the limit stay, and so does every byte from the bump pointer on. -/
structure KeepsAbove (heap heap' : Heap) : Prop where
  current : heap'.heapCurrent = heap.heapCurrent
  limit : heap'.heapEnd = heap.heapEnd
  memory : ∀ address, heap.heapCurrent ≤ address → heap'.memory address = heap.memory address

namespace KeepsAbove

theorem refl (heap : Heap) : KeepsAbove heap heap := ⟨rfl, rfl, fun _ _ => rfl⟩

theorem trans (one : KeepsAbove heap middle)
    (two : KeepsAbove middle heap') : KeepsAbove heap heap' where
  current := two.current.trans one.current
  limit := two.limit.trans one.limit
  memory address above :=
    (two.memory address (one.current ▸ above)).trans (one.memory address above)

theorem setFreeBytes (keeps : KeepsAbove heap heap') (freeBytes : Nat) :
    KeepsAbove heap { heap' with freeBytes } :=
  ⟨keeps.current, keeps.limit, keeps.memory⟩

theorem setHead (heap : Heap) (address : Nat) (list : FreeList) :
    KeepsAbove heap (heap.setHead address list) := by
  cases list <;> exact ⟨rfl, rfl, fun _ _ => rfl⟩

theorem setFreeNextPtr (heap : Heap) (next : Nat) (below : user + 8 ≤ heap.heapCurrent) :
    KeepsAbove heap (heap.setFreeNextPtr user next) where
  current := rfl
  limit := rfl
  memory _ above := Memory.store_outside _ _ _ _ _ (by omega)

theorem bucketPush (heap : Heap) (nBlocks : Nat) (below : user + 8 ≤ heap.heapCurrent) :
    KeepsAbove heap (Mm.bucketPush heap user nBlocks) :=
  ((setFreeNextPtr heap _ below).trans (setHead _ _ _)).setFreeBytes _

theorem blockZeroUser (heap : Heap) (small : 16 * nBlocks < 2 ^ 32)
    (below : user + 16 * nBlocks ≤ heap.heapCurrent) :
    KeepsAbove heap (Mm.blockZeroUser heap user nBlocks) where
  current := rfl
  limit := rfl
  memory _ above := blockZeroUser_outside heap user nBlocks small (by omega)

theorem splitTail (heap : Heap) (size : block.size = 16 + 16 * units block)
    (small : block.size < 2 ^ 32) (room : nBlocks + 2 ≤ units block)
    (below : block.stop ≤ heap.heapCurrent) :
    KeepsAbove heap (Mm.splitTail heap (userPtr block) (units block) nBlocks) := by
  rw [splitTail_eq heap size small room]
  have cut : KeepsAbove heap { heap with memory := splitMemory heap block nBlocks } :=
    ⟨rfl, rfl, fun address above => splitMemory_outside heap size room (by omega)⟩
  apply cut.trans
  apply bucketPush
  simp only [userPtr, tailPart, Span.stop] at *
  omega

end KeepsAbove

namespace Layout

variable {heap : Heap} {blocks : List Span} {lists : FreeList → List Nat} {used : Nat → Prop}
  {block : Span}

section

variable (layout : Layout heap blocks lists used)

include layout

theorem stop_le (member : block ∈ blocks) :
    block.stop ≤ heap.heapCurrent := (layout.tiles.bounds.2 block member).2

theorem link_below (listed : p ∈ lists list) :
    p + 8 ≤ heap.heapCurrent := by
  obtain ⟨-, block, member, rfl, -⟩ := layout.listed list p listed
  have below := layout.stop_le member
  have least := (layout.sizes block member).least
  simp only [userPtr, Span.stop] at *
  omega

theorem keeps_unlinkBest (found : Best) (prev : ∀ p ∈ found.bestPrev, p ∈ lists .overflow) :
    KeepsAbove heap (unlinkBest heap found) := by
  simp only [unlinkBest]
  split
  · exact .setHead heap _ _
  · rename_i p isPrev
    exact .setFreeNextPtr heap _ (layout.link_below (prev p isPrev))

end

theorem keeps_popFast
    (popped : bucketPopFast heap nBlocks = (ptr, heap')) : KeepsAbove heap heap' := by
  simp only [bucketPopFast] at popped
  split at popped
  · cases popped
    exact .refl _
  · split at popped
    · cases popped
      exact .refl _
    · cases popped
      exact (KeepsAbove.setHead heap _ _).setFreeBytes _

theorem keeps_popOverflow (layout : Layout heap blocks lists used)
    (small : 16 * nBlocks ≤ 2 ^ 32 - 32)
    (popped : bucketPopOverflow heap nBlocks = some (ptr, heap')) : KeepsAbove heap heap' := by
  have sum_small : nBlocks + 2 < 2 ^ 32 := by omega
  rcases layout.bucketPopOverflow_cases sum_small with
    ⟨none_fits, -⟩ | ⟨first, rest, block, split, member, -, -, -, taken⟩
  · cases none_fits.symm.trans popped
    exact .refl heap
  · cases taken.symm.trans popped
    have prev : ∀ p ∈ first.getLast?, p ∈ lists .overflow := by
      intro p isLast
      rw [split]
      exact mem_append_left _ (mem_of_getLast? isLast)
    have unlinked := layout.keeps_unlinkBest ⟨userPtr block, first.getLast?, units block⟩ prev
    split
    · rename_i room
      apply (unlinked.setFreeBytes _).trans
      apply KeepsAbove.splitTail _ (layout.size_eq member) (layout.sizes block member).small room
      exact unlinked.current ▸ layout.stop_le member
    · exact unlinked.setFreeBytes _

theorem keeps_pin (layout : Layout heap blocks lists used) :
    KeepsAbove heap (pinAllocStart heap) := by
  simp only [pinAllocStart]
  split
  · have same := heapAlignUp_aligned layout.current_aligned layout.bounded
    simp only [same]
    exact ⟨rfl, rfl, fun _ _ => rfl⟩
  · exact .refl heap

end Layout

/-- A block of `nBlocks` units was handed out in `heap'`: cleared, or carved at the bump
pointer of `heap`. -/
structure HandedOut (heap heap' : Heap) (ptr nBlocks : Nat) : Prop where
  limit : heap'.heapEnd = heap.heapEnd
  grows : heap.heapCurrent ≤ heap'.heapCurrent
  above : ∀ address, heap.heapCurrent + 16 ≤ address → heap'.memory address = heap.memory address
  content : (∀ i < 16 * nBlocks, heap'.memory (ptr + i) = 0) ∨
    ptr = heap.heapCurrent + 16 ∧ ptr + 16 * nBlocks ≤ heap.heapEnd

namespace HandedOut

theorem recycled (keeps : KeepsAbove heap popped)
    (small : 16 * nBlocks < 2 ^ 32) (below : ptr + 16 * nBlocks ≤ popped.heapCurrent) :
    HandedOut heap (blockZeroUser popped ptr nBlocks) ptr nBlocks := by
  have cleared := keeps.trans (.blockZeroUser popped small below)
  refine ⟨cleared.limit, cleared.current.ge, fun address above => ?_, .inl fun i inside => ?_⟩
  · exact cleared.memory address (by omega)
  · exact blockZeroUser_inside popped small (by omega) (by omega)

/-- Nothing happened to memory, or the new header was written at the bump pointer. -/
theorem carved (aligned : heapAlignUp heap.heapCurrent kheapBlockAlign =
      heap.heapCurrent) (bounded : heap.heapCurrent < 2 ^ 64) (small : 16 * nBlocks ≤ 2 ^ 32 - 32)
    (taken : bumpAlloc heap (16 + 16 * nBlocks) = (ptr, heap')) (some_ptr : ptr ≠ 0) :
    HandedOut heap heap' ptr nBlocks := by
  simp only [bumpAlloc, aligned] at taken
  split at taken
  · cases taken
    contradiction
  · rename_i room
    have ends :
        u64 (heap.heapCurrent + (16 + 16 * nBlocks)) = heap.heapCurrent + (16 + 16 * nBlocks) := by
      simp only [u64] at *
      omega
    rw [ends] at room taken
    cases taken
    refine ⟨rfl, Nat.le_add_right .., fun address above => ?_, .inr ⟨rfl, ?_⟩⟩
    · exact heap.writeHeader_outside _ _ (.inr above)
    · simp only [kheapHeaderSize]
      omega

theorem start (keeps : KeepsAbove heap middle)
    (handed : HandedOut middle heap' ptr nBlocks) : HandedOut heap heap' ptr nBlocks := by
  obtain ⟨limit, grows, above, content⟩ := handed
  rw [keeps.limit] at limit content
  rw [keeps.current] at grows above content
  refine ⟨limit, grows, fun address high => ?_, content⟩
  rw [above address high, keeps.memory address (by omega)]

end HandedOut

theorem bumpAlloc_null (taken : bumpAlloc heap total = (0, heap')) : heap' = heap := by
  simp only [bumpAlloc] at taken
  split at taken
  · cases taken
    rfl
  · simp [kheapHeaderSize] at taken

namespace Layout

variable {heap : Heap} {blocks : List Span} {lists : FreeList → List Nat} {used : Nat → Prop}
  {block : Span}

theorem Granted.below (granted : Granted heap heap' blocks blocks' lists' used nBlocks block) :
    userPtr block + 16 * nBlocks ≤ heap'.heapCurrent := by
  have size := granted.layout.size_eq granted.member
  have stop := granted.layout.stop_le granted.member
  have enough := granted.enough
  simp only [userPtr, Span.stop] at *
  omega

theorem alloc_memory (layout : Layout heap blocks lists used) (small : size ≤ 2 ^ 32 - 32)
    (answer : kheapAlloc heap size = some (ptr, heap')) : (ptr = 0 ∧ KeepsAbove heap heap') ∨
      (size ≠ 0 ∧ HandedOut heap heap' ptr (blocksForSize size)) := by
  rcases layout.kheapAlloc_cases small with refused | ⟨positive, ready, source⟩
  · cases refused.symm.trans answer
    exact .inl ⟨rfl, .refl heap⟩
  · obtain ⟨-, -, units_small⟩ := blocksForSize_spec positive small
    obtain ⟨pinned, -, -⟩ := layout.pin ready
    have keeps := layout.keeps_pin
    rcases source with carved | ⟨popped, blocks', lists', block, source, granted, isAnswer⟩
    · have taken := Option.some.inj (carved.symm.trans answer)
      by_cases null : ptr = 0
      · subst null
        rw [bumpAlloc_null taken]
        exact .inl ⟨rfl, keeps⟩
      · have aligned := heapAlignUp_aligned pinned.current_aligned pinned.bounded
        exact .inr ⟨positive, (HandedOut.carved aligned pinned.bounded units_small taken null).start
          keeps⟩
    · cases isAnswer.symm.trans answer
      have above := source.elim keeps_popFast (pinned.keeps_popOverflow units_small)
      exact .inr ⟨positive, (HandedOut.recycled above (by omega) granted.below).start keeps⟩

end Layout

end Zapada.Mm
