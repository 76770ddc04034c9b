import Zapada.Mm.HeapSpec

namespace Zapada.Mm

open Foundation

theorem sameBounds_unlinkBest (heap : Heap) (found : Best) :
    SameBounds heap (unlinkBest heap found) := by
  simp only [unlinkBest]
  split
  · exact heap.sameBounds_setHead _ _
  · exact ⟨rfl, rfl, rfl⟩

theorem freeBytes_unlinkBest (heap : Heap) (found : Best) :
    (unlinkBest heap found).freeBytes = heap.freeBytes := by
  simp only [unlinkBest]
  split
  · simp
  · rfl

theorem sameBounds_splitTail (heap : Heap) (best bestBlocks nBlocks : Nat) :
    SameBounds heap (splitTail heap best bestBlocks nBlocks) := by
  simp only [splitTail]
  exact { sameBounds_bucketPush _ _ _ with }

theorem SameBounds.trans (one : SameBounds heap middle)
    (two : SameBounds middle heap') : SameBounds heap heap' :=
  ⟨two.first.trans one.first, two.limit.trans one.limit, two.size.trans one.size⟩

namespace Layout

variable {heap : Heap} {blocks : List Span} {lists : FreeList → List Nat} {used : Nat → Prop}
  {block : Span}

/-- How a block of the overflow list is taken: it is unlinked, and split if it is much too large. -/
theorem bucketPopOverflow_cases (layout : Layout heap blocks lists used)
    (small : nBlocks + 2 < 2 ^ 32) :
    (bucketPopOverflow heap nBlocks = some (0, heap) ∧ ∀ p ∈ lists .overflow,
      ¬ Suits nBlocks (heap.blocksAt p)) ∨
    ∃ first rest block, lists .overflow = first ++ userPtr block :: rest ∧ block ∈ blocks ∧
      ¬ used (userPtr block) ∧
      Suits nBlocks (units block) ∧
      (∀ p ∈ lists .overflow, Suits nBlocks (heap.blocksAt p) → units block ≤ heap.blocksAt p) ∧
      bucketPopOverflow heap nBlocks = some (userPtr block,
        let middle := { unlinkBest heap ⟨userPtr block, first.getLast?, units block⟩ with
          freeBytes := u64 (heap.freeBytes + 2 ^ 64 - u32 (units block * kheapBlockAlign)) }
        if nBlocks + 2 ≤ units block then Mm.splitTail middle (userPtr block) (units block)
          nBlocks else middle) := by
  obtain ⟨result, ends, found⟩ := overflowSearch_spec nBlocks (layout.chains .overflow) rfl
    (layout.length_le .overflow) none none (by simp)
  simp only [Heap.head] at ends
  simp only [bucketPopOverflow, ends]
  rcases found with ⟨rfl, none_suits⟩ | ⟨first, node, rest, split, rfl, suits, -, least⟩
  · exact .inl ⟨rfl, by simpa using none_suits⟩
  · obtain ⟨free, block, member, rfl, -⟩ := layout.listed .overflow node (by simp [split])
    have blocksAt := layout.blocksAt_eq member
    rw [blocksAt] at suits least
    have threshold : u32 (nBlocks + 2) = nBlocks + 2 := Nat.mod_eq_of_lt small
    simp only [blocksAt, Option.or_none, threshold, freeBytes_unlinkBest]
    refine .inr ⟨first, rest, block, split, member, free, suits, least, ?_⟩
    split <;> rfl

/-- What is left when a block was unlinked, and when its end was given back. -/
theorem popOverflow_taken (layout : Layout heap (before ++ block :: after) lists used)
    (split : lists .overflow = first ++ userPtr block :: rest) (positive : 1 ≤ nBlocks)
    (freeBytes : Nat) :
    let middle := { unlinkBest heap ⟨userPtr block, first.getLast?, units block⟩ with freeBytes }
    let lists' := Function.update lists .overflow (first ++ rest)
    Layout middle (before ++ block :: after) lists' (fun q => q = userPtr block ∨ used q) ∧
    (nBlocks + 2 ≤ units block → ¬ (userPtr (tailPart block nBlocks) = userPtr block ∨
      used (userPtr (tailPart block nBlocks))) ∧
      Layout (Mm.splitTail middle (userPtr block) (units block) nBlocks)
        (before ++ frontPart block nBlocks :: tailPart block nBlocks :: after)
        (listing lists' (tailPart block nBlocks)) fun q => q = userPtr block ∨ used q) := by
  have unlinked :
      Layout (unlinkBest heap ⟨userPtr block, first.getLast?, units block⟩)
        (before ++ block :: after)
      (Function.update lists .overflow (first ++ rest)) fun q => q = userPtr block ∨ used q :=
        layout.unlink split rfl
  have unlinked := unlinked.setFreeBytes freeBytes
  exact ⟨unlinked, fun room => unlinked.splitTail (.inl rfl) positive room⟩

theorem popOverflow (layout : Layout heap blocks lists used) (positive : 1 ≤ nBlocks)
    (small : 16 * nBlocks ≤ 2 ^ 32 - 32) : bucketPopOverflow heap nBlocks = some (0, heap) ∨
    ∃ heap' blocks' lists' block, bucketPopOverflow heap nBlocks = some (userPtr block, heap') ∧
      Accounted heap heap' blocks blocks' lists' used nBlocks block := by
  have sum_small : nBlocks + 2 < 2 ^ 32 := by omega
  rcases layout.bucketPopOverflow_cases sum_small with
    ⟨none_fits, -⟩ | ⟨first, rest, block, split, member, free, suits, -, popped⟩
  · exact .inl none_fits
  · refine .inr ?_
    rw [popped]
    have total := layout.freeBytes_pop member free
    have size := layout.size_eq member
    have sized := (layout.sizes block member).small
    obtain ⟨before, after, rfl⟩ := List.append_of_mem member
    have bounds :=
      (sameBounds_unlinkBest heap ⟨userPtr block, first.getLast?, units block⟩).setFreeBytes
      (u64 (heap.freeBytes + 2 ^ 64 - u32 (units block * kheapBlockAlign)))
    obtain ⟨whole, parts⟩ := layout.popOverflow_taken split positive
      (u64 (heap.freeBytes + 2 ^ 64 - u32 (units block * kheapBlockAlign)))
    split
    · rename_i room
      obtain ⟨unused, cut⟩ := parts room
      refine ⟨_, _, _, frontPart block nBlocks, rfl,
        ⟨bounds.trans (sameBounds_splitTail ..), cut, by simp, ?_, free, ?_⟩,
        fun balanced => ?_⟩
      · simp only [frontPart, units]
        omega
      · intro old inOld inUse
        have different : old ≠ block := by
          rintro rfl
          exact free inUse
        simp only [List.mem_append, List.mem_cons] at inOld ⊢
        tauto
      · have inTail :
            tailPart block nBlocks ∈ before ++ frontPart block nBlocks :: tailPart block nBlocks ::
              after := by simp
        rw [Balanced, splitTail_eq _ size sized room, freeBytes_bucketPush]
        refine cut.freeBytes_push inTail ?_
        rw [freeTotal_used (.inl rfl), freeTotal_free unused]
        simp only [total balanced]
        rw [freeTotal_used (.inl rfl)]
    · exact ⟨_, _, _, block, rfl, ⟨bounds, whole, member, suits.enough, free, fun _ old _ => old⟩,
        total⟩

theorem pin (layout : Layout heap blocks lists used) (ready : heap.heapCurrent ≠ 0) :
    Layout (pinAllocStart heap) blocks lists used ∧ SameBounds heap (pinAllocStart heap) ∧
      (pinAllocStart heap).heapAllocStart ≠ 0 := by
  simp only [pinAllocStart]
  split
  · rename_i unpinned
    have same := heapAlignUp_aligned layout.current_aligned layout.bounded
    simp only [same]
    have bounds : SameBounds heap { heap with heapAllocStart := heap.heapCurrent } :=
      ⟨by simp [Heap.first, ready, unpinned], rfl, rfl⟩
    refine ⟨?_, bounds, ready⟩
    refine { layout with aligned := ?_, tiles := ?_, chains list := ?_ }
    · rw [bounds.first]
      exact layout.aligned
    · rw [bounds.first]
      exact layout.tiles
    · have chain := layout.chains list
      cases list <;> exact chain
  · exact ⟨layout, ⟨rfl, rfl, rfl⟩, ‹_›⟩

theorem freeBytes_pin (heap : Heap) : (pinAllocStart heap).freeBytes = heap.freeBytes := by
  simp only [pinAllocStart]
  split <;> rfl

/-- The bump pointer moves over a new block, or the heap is exhausted. -/
theorem bump (layout : Layout heap blocks lists used) (pinned : heap.heapAllocStart ≠ 0)
    (positive : 1 ≤ nBlocks) (small : 16 * nBlocks ≤ 2 ^ 32 - 32) :
    bumpAlloc heap (16 + 16 * nBlocks) = (0, heap) ∨
    ∃ heap' blocks' block, bumpAlloc heap (16 + 16 * nBlocks) = (userPtr block, heap') ∧
      Accounted heap heap' blocks blocks' lists used nBlocks block := by
  have aligned := heapAlignUp_aligned layout.current_aligned layout.bounded
  simp only [bumpAlloc, aligned]
  split
  · exact .inl rfl
  · rename_i room
    refine .inr ?_
    have ends :
        u64 (heap.heapCurrent + (16 + 16 * nBlocks)) = heap.heapCurrent + (16 + 16 * nBlocks) := by
      simp only [u64] at *
      omega
    have size : BlockSize (16 + 16 * nBlocks) := ⟨by omega, by omega, by omega⟩
    rw [ends] at room ⊢
    have carved := layout.carve pinned size (by omega) (by simp only [u64] at ends; omega)
    have fresh : ¬ used (heap.heapCurrent + 16) := by
      intro taken
      obtain ⟨old, member, same⟩ := layout.owned _ taken
      have below := (layout.tiles.bounds.2 old member).2
      have least := (layout.sizes old member).least
      simp only [userPtr, Span.stop] at *
      omega
    have isNew :
        (⟨heap.heapCurrent, 16 + 16 * nBlocks⟩ : Span) ∈ blocks ++
          [⟨heap.heapCurrent, 16 + 16 * nBlocks⟩] := by
      simp
    refine ⟨_, _, ⟨heap.heapCurrent, 16 + 16 * nBlocks⟩, rfl,
      ⟨?_, carved, isNew, ?_, fresh, ?_⟩, fun balanced => ?_⟩
    · exact ⟨by simp [Heap.first, Heap.writeHeader, pinned], rfl, rfl⟩
    · simp only [units]
      omega
    · exact fun old member _ => List.mem_append_left _ member
    · have taken := carved.freeTotal_take used isNew fresh
      rw [freeTotal_free fresh, List.append_nil] at taken
      exact balanced.trans (Nat.add_right_cancel taken)

/-- A recycled block is cleared before it is handed out. -/
theorem Accounted.zero (granted : Accounted heap heap' blocks blocks' lists' used nBlocks block) :
    Accounted heap (blockZeroUser heap' (userPtr block) nBlocks) blocks blocks' lists' used
      nBlocks block :=
  { granted with
    bounds := ⟨granted.bounds.first, granted.bounds.limit, granted.bounds.size⟩
    layout := granted.layout.zero granted.member (.inl rfl) granted.enough }

theorem Accounted.start
    (granted : Accounted (pinAllocStart heap) heap' blocks blocks' lists' used nBlocks block)
    (bounds : SameBounds heap (pinAllocStart heap)) :
    Accounted heap heap' blocks blocks' lists' used nBlocks block :=
  { granted with
    bounds := bounds.trans granted.bounds
    balanced balanced := granted.balanced ((freeBytes_pin heap).trans balanced) }

section

variable (layout : Layout heap blocks lists used)

include layout

/-- How a request is answered: with null, from the bump pointer, or with a recycled block that is
cleared. -/
theorem kheapAlloc_cases (small : size ≤ 2 ^ 32 - 32) :
    kheapAlloc heap size = some (0, heap) ∨ size ≠ 0 ∧ heap.heapCurrent ≠ 0 ∧
      (kheapAlloc heap size = some (bumpAlloc (pinAllocStart heap) (16 + 16 * blocksForSize size)) ∨
      ∃ popped blocks' lists' block,
        (bucketPopFast (pinAllocStart heap) (blocksForSize size) = (userPtr block, popped) ∨
          bucketPopOverflow (pinAllocStart heap) (blocksForSize size) =
            some (userPtr block, popped)) ∧
        Accounted (pinAllocStart heap) popped blocks blocks' lists' used
          (blocksForSize size) block ∧
        kheapAlloc heap size = some (userPtr block,
          blockZeroUser popped (userPtr block) (blocksForSize size))) := by
  simp only [kheapAlloc]
  split
  · exact .inl rfl
  · rename_i ready
    rw [not_or] at ready
    obtain ⟨positive, -, units_small⟩ := blocksForSize_spec ready.1 small
    obtain ⟨pinned, -, -⟩ := layout.pin ready.2
    have total :
        u32 (kheapHeaderSize + blocksForSize size * kheapBlockAlign) =
          16 + 16 * blocksForSize size := by
      simp only [u32, kheapHeaderSize, kheapBlockAlign]
      omega
    have some_user : ∀ block, userPtr block ≠ 0 := fun block => by
      simp only [userPtr]
      omega
    rw [total]
    refine .inr ⟨ready.1, ready.2, ?_⟩
    rcases pinned.popFast (blocksForSize size) with
      empty | ⟨popped, lists', block, isPopped, granted⟩
    · simp only [empty, ne_eq, not_true, if_false]
      split
      · rcases pinned.popOverflow positive units_small with
          none_fits | ⟨popped, blocks', lists', block, isPopped, granted⟩
        · simp [none_fits]
        · refine .inr ⟨popped, blocks', lists', block, .inr isPopped, granted, ?_⟩
          simp [isPopped, some_user block]
      · exact .inl rfl
    · refine .inr ⟨popped, blocks, lists', block, .inl isPopped, granted, ?_⟩
      simp [isPopped, some_user block]

/-- An allocation returns null and changes no block, or hands out a block. -/
theorem alloc (small : size ≤ 2 ^ 32 - 32) :
    (∃ heap', kheapAlloc heap size = some (0, heap') ∧ SameBounds heap heap' ∧
      Layout heap' blocks lists used ∧
      heap'.freeBytes = heap.freeBytes) ∨
    ∃ heap' blocks' lists' block, kheapAlloc heap size = some (userPtr block, heap') ∧
      size ≠ 0 ∧ Accounted heap heap' blocks blocks' lists' used (blocksForSize size) block := by
  rcases layout.kheapAlloc_cases small with
    refused | ⟨positive, ready, carved | ⟨popped, blocks', lists', block, -, granted, answer⟩⟩
  · exact .inl ⟨heap, refused, ⟨rfl, rfl, rfl⟩, layout, rfl⟩
  · obtain ⟨pinned, bounds, isPinned⟩ := layout.pin ready
    obtain ⟨least, -, units_small⟩ := blocksForSize_spec positive small
    rw [carved]
    rcases pinned.bump isPinned least units_small with exhausted | ⟨heap', blocks', block,
      carved, granted⟩
    · exact .inl ⟨_, congrArg some exhausted, bounds, pinned, freeBytes_pin heap⟩
    · exact .inr ⟨heap', blocks', lists, block, congrArg some carved, positive,
        granted.start bounds⟩
  · exact .inr ⟨_, blocks', lists', block, answer, positive,
      granted.zero.start (layout.pin ready).2.1⟩

/-- No free block has 2^28 - 1 units, and a new one of this size has the total size 0. -/
theorem alloc_oversized (large : 2 ^ 32 - 32 < size)
    (small : size ≤ 2 ^ 32 - 16) (answer : kheapAlloc heap size = some (ptr, heap')) :
    (ptr = 0 ∧ SameBounds heap heap' ∧ Layout heap' blocks lists used) ∨
      (ptr ≠ 0 ∧ heap'.blockSize ptr = 0) := by
  have request : blocksForSize size = 2 ^ 28 - 1 := by
    have enough : ¬ (size + 15) / 16 * 16 < kheapMinUser := by
      simp only [kheapMinUser]
      omega
    simp only [blocksForSize]
    rw [heapAlignUp_block (by omega), if_neg enough, u32, kheapBlockAlign]
    omega
  obtain ⟨nBlocks, request, isUnits⟩ : ∃ nBlocks, blocksForSize size = nBlocks ∧
    nBlocks = 2 ^ 28 - 1 :=
    ⟨_, rfl, request⟩
  have total : u32 (kheapHeaderSize + nBlocks * kheapBlockAlign) = 0 := by
    subst isUnits
    decide
  have slowPath : nFastBuckets < nBlocks := by
    simp only [nFastBuckets]
    omega
  simp only [kheapAlloc, request, total] at answer
  split at answer
  · obtain ⟨rfl, rfl⟩ : 0 = ptr ∧ heap = heap' := by simpa using answer
    exact .inl ⟨rfl, ⟨rfl, rfl, rfl⟩, layout⟩
  · rename_i ready
    rw [not_or] at ready
    obtain ⟨pinned, bounds, -⟩ := layout.pin ready.2
    have slow : bucketPopFast (pinAllocStart heap) nBlocks = (0, pinAllocStart heap) := by
      rw [bucketPopFast, dif_pos (.inr slowPath)]
    have none_fits :
        bucketPopOverflow (pinAllocStart heap) nBlocks = some (0, pinAllocStart heap) := by
      have sum_small : nBlocks + 2 < 2 ^ 32 := by omega
      rcases pinned.bucketPopOverflow_cases sum_small with ⟨none_fits, -⟩ | ⟨-, -, block, -, member,
        -, suits, -⟩
      · exact none_fits
      · have fits := suits.enough
        have bound := (pinned.sizes block member).small
        rw [units] at fits
        omega
    simp only [slow, none_fits, ne_eq, not_true, if_false, Option.some.injEq, bumpAlloc,
      Nat.add_zero] at answer
    split at answer
    · obtain ⟨rfl, rfl⟩ : 0 = ptr ∧ pinAllocStart heap = heap' := by simpa using answer
      exact .inl ⟨rfl, bounds, pinned⟩
    · cases answer
      exact .inr ⟨by simp [kheapHeaderSize], Heap.load_writeHeader _ _ (by decide)⟩

/-- Releasing a block in use rewinds the bump pointer or lists the block. -/
theorem free (member : block ∈ blocks) (inUse : used (userPtr block)) :
    ∃ blocks' lists', SameBounds heap (kheapFree heap (userPtr block)) ∧
      Layout (kheapFree heap (userPtr block)) blocks' lists' (fun q => used q ∧ q ≠ userPtr block) ∧
      (∀ old ∈ blocks, old ≠ block → old ∈ blocks') ∧
      (Balanced heap blocks used → Balanced (kheapFree heap (userPtr block)) blocks' fun q =>
        used q ∧ q ≠ userPtr block) := by
  have inside := layout.tiles.bounds.2 block member
  have least := (layout.sizes block member).least
  have bounded := layout.bounded
  simp only [Span.stop] at inside
  have pinned : heap.heapAllocStart ≠ 0 := by
    intro unpinned
    have first : heap.first = heap.heapCurrent := by simp [Heap.first, unpinned]
    omega
  have first : heap.first = heap.heapAllocStart := by simp [Heap.first, pinned]
  have some_user : userPtr block ≠ 0 := by
    simp only [userPtr]
    omega
  have hdr : u64 (userPtr block + 2 ^ 64 - kheapHeaderSize) = block.start := by
    simp only [u64, userPtr, kheapHeaderSize]
    omega
  have inRegion : ¬ (block.start < heap.heapAllocStart ∨ heap.heapCurrent ≤ block.start) := by
    omega
  have stop : u64 (block.start + block.size) = block.start + block.size := by
    simp only [u64]
    omega
  simp only [kheapFree, some_user, pinned, or_self, if_false, hdr, inRegion,
    layout.blockSize_eq member, stop]
  have same : (fun q => q = userPtr block ∨ used q ∧ q ≠ userPtr block) = used := by
    funext q
    by_cases isBlock : q = userPtr block <;> simp [isBlock, inUse]
  have released : ¬ (used (userPtr block) ∧ userPtr block ≠ userPtr block) := fun kept => kept.2 rfl
  have grows := layout.freeTotal_take (fun q => used q ∧ q ≠ userPtr block) member released
  rw [same] at grows
  split
  · rename_i top
    obtain ⟨rest, rfl, rewound⟩ := layout.rewind pinned member inUse top
    refine ⟨rest, lists, ⟨by simp [Heap.first, pinned], rfl, rfl⟩, rewound, ?_, fun balanced => ?_⟩
    · intro old inBlocks different
      rcases List.mem_append.mp inBlocks with inRest | isBlock
      · exact inRest
      · exact absurd (by simpa using isBlock) different
    · rw [freeTotal_free released, List.append_nil] at grows
      exact balanced.trans (Nat.add_right_cancel grows).symm
  · rw [layout.blocksAt_eq member]
    have pushed := layout.push member inUse
    refine ⟨blocks, _, sameBounds_bucketPush _ _ _, pushed, fun _ old _ => old, fun balanced => ?_⟩
    rw [Balanced, freeBytes_bucketPush]
    refine pushed.freeBytes_push member ?_
    rw [grows, balanced]

end

end Layout

end Zapada.Mm
