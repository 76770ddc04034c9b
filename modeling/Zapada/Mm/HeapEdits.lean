import Zapada.Mm.Heap

namespace Zapada.Mm

open Foundation Function Memory List

/-- The lists with a block in front of the list for its size. -/
def listing (lists : FreeList → List Nat) (block : Span) : FreeList → List Nat :=
  update lists (listFor (units block)) (userPtr block :: lists (listFor (units block)))

namespace Layout

variable {heap : Heap} {blocks : List Span} {lists : FreeList → List Nat} {used : Nat → Prop}
  {block other : Span}

section

variable (layout : Layout heap blocks lists used)

include layout

theorem link_apart (one : p ∈ lists list)
    (two : q ∈ lists list') (different : p ≠ q) : p + 8 ≤ q ∨ q + 8 ≤ p := by
  obtain ⟨-, block, inBlocks, rfl, -⟩ := layout.listed list p one
  obtain ⟨-, other, inOther, rfl, -⟩ := layout.listed list' q two
  have notSame : block ≠ other := by
    rintro rfl
    exact different rfl
  have apart := layout.tiles.apart inBlocks inOther notSame
  have size := (layout.sizes block inBlocks).least
  have otherSize := (layout.sizes other inOther).least
  simp only [userPtr, Span.stop] at *
  omega

theorem header_apart (member : block ∈ blocks)
    (linked : q ∈ lists list) : block.start + 4 ≤ q ∨ q + 8 ≤ block.start := by
  obtain ⟨-, other, inOther, rfl, -⟩ := layout.listed list q linked
  by_cases same : block = other
  · subst same
    simp only [userPtr]
    omega
  · have apart := layout.tiles.apart member inOther same
    have otherSize := (layout.sizes other inOther).least
    simp only [userPtr, Span.stop] at *
    omega

theorem unlink (split : lists .overflow = first ++ found.best :: rest)
    (prev : found.bestPrev = first.getLast?) :
    Layout (unlinkBest heap found) blocks (update lists .overflow (first ++ rest))
      fun q => q = found.best ∨ used q := by
  cases last : first.getLast? with
  | none =>
    obtain rfl : first = [] := by simpa using last
    simp only [unlinkBest, prev]
    exact layout.pop split
  | some q =>
    rw [last] at prev
    have qIn : q ∈ lists .overflow := by
      rw [split]
      exact mem_append_left _ (mem_of_getLast? last)
    have distinct := layout.nodup .overflow
    rw [split] at distinct
    have fresh : found.best ∉ first ++ rest := by
      rw [nodup_middle, nodup_cons] at distinct
      exact distinct.1
    have loads : ∀ list, ∀ p ∈ lists list, p ≠ q →
        (heap.setFreeNextPtr q (heap.freeNextPtr found.best)).next p = heap.next p := by
      intro list p listed different
      simp only [Heap.next, Heap.freeNextPtr, Heap.setFreeNextPtr]
      rw [load_store_disjoint _ _ _ _ _ _ (layout.link_apart listed qIn different)]
    have linked :
        (heap.setFreeNextPtr q (heap.freeNextPtr found.best)).next q = heap.next found.best := by
      simp only [Heap.next, Heap.freeNextPtr, Heap.setFreeNextPtr]
      rw [load_store_of_lt _ _ _ _ (load_lt _ _ _)]
    simp only [unlinkBest, prev]
    refine layout.unlist ⟨rfl, rfl, rfl⟩ (fun block member => ?_) (fun list => ?_) (fun p => ?_)
      fresh ?_
    · exact load_store_disjoint _ _ _ _ _ _ (layout.header_apart member qIn)
    · by_cases here : list = .overflow
      · subst here
        have chain := layout.chains .overflow
        rw [split] at chain
        refine (chain.unlink first last distinct).congr fun p member => ?_
        have notBest : p ≠ found.best := by
          rintro rfl
          exact fresh member
        rw [update_of_ne notBest]
        by_cases isQ : p = q
        · rw [isQ, update_self, linked]
        · rw [update_of_ne isQ]
          refine (loads .overflow p ?_ isQ).symm
          rw [split]
          rcases mem_append.mp member with inFirst | inRest
          · exact mem_append_left _ inFirst
          · exact mem_append_right _ (mem_cons_of_mem _ inRest)
      · rw [update_of_ne here]
        refine (layout.chains list).congr fun p member => (loads list p member ?_).symm
        rintro rfl
        exact here (layout.list_unique member qIn)
    · rw [split]
      simp only [mem_append, mem_cons]
      constructor
      · rintro (inFirst | isBest | inRest)
        · exact .inr (.inl inFirst)
        · exact .inl isBest
        · exact .inr (.inr inRest)
      · rintro (isBest | inFirst | inRest)
        · exact .inr (.inl isBest)
        · exact .inl inFirst
        · exact .inr (.inr inRest)
    · rw [nodup_middle, nodup_cons] at distinct
      exact distinct.2

theorem relist (member : block ∈ blocks)
    (inUse : used (userPtr block)) (list : FreeList) (isList : listFor (units block) = list)
    (link : heap.next (userPtr block) = pointer (heap.head list)) :
    Layout (heap.setHead (userPtr block) list) blocks
      (update lists list (userPtr block :: lists list))
      fun q => used q ∧ q ≠ userPtr block := by
  have region := heap.sameRegion_setHead (userPtr block) list
  have fresh : ∀ other, userPtr block ∉ lists other := fun other listed =>
    (layout.listed other _ listed).1 inUse
  have some_user : pointer (userPtr block) = some (userPtr block) := by
    simp [pointer, userPtr]
  refine layout.refile region (by simp) (fun other => ?_) ?_
    (fun q kept => layout.owned q kept.1) (fun other q => ?_)
  · rw [Heap.next_setHead, Heap.head_setHead]
    by_cases here : other = list
    · subst here
      rw [update_self, update_self, some_user]
      exact .cons (link ▸ layout.chains other)
    · rw [update_of_ne here, update_of_ne here]
      exact layout.chains other
  · exact (forall_update_iff lists fun _ list => list.Nodup).mpr
      ⟨nodup_cons.mpr ⟨fresh list, layout.nodup list⟩, fun other _ => layout.nodup other⟩
  · have grown : q ∈ update lists list (userPtr block :: lists list) other ↔
        q = userPtr block ∧ other = list ∨ q ∈ lists other := by
      by_cases here : other = list
      · subst here
        simp
      · simp [here]
    rw [grown, layout.mem_iff]
    constructor
    · rintro (⟨rfl, rfl⟩ | ⟨free, found⟩)
      · exact ⟨fun kept => kept.2 rfl, block, member, rfl, isList⟩
      · exact ⟨fun kept => free kept.1, found⟩
    · rintro ⟨released, found, inFound, rfl, rfl⟩
      by_cases same : userPtr found = userPtr block
      · exact .inl ⟨same, by rw [layout.user_inj inFound member same, isList]⟩
      · exact .inr ⟨fun inUse => released ⟨inUse, same⟩, found, inFound, rfl, rfl⟩

theorem setFreeBytes (freeBytes : Nat) : Layout { heap with freeBytes } blocks lists used :=
  { layout with
    chains := fun list => by
      have chain := layout.chains list
      cases list <;> exact chain }

theorem push (member : block ∈ blocks) (inUse : used (userPtr block)) :
    Layout (bucketPush heap (userPtr block) (units block)) blocks (listing lists block)
      fun q => used q ∧ q ≠ userPtr block := by
  have size := (layout.sizes block member).least
  have linked : Layout (heap.setFreeNextPtr (userPtr block) (heap.head (listFor (units block))))
      blocks lists used := by
    refine layout.write member inUse fun address outside => ?_
    refine store_outside _ _ _ _ _ ?_
    simp only [userPtr, Span.stop] at *
    omega
  refine (linked.relist member inUse _ rfl ?_).setFreeBytes _
  have unchanged : (heap.setFreeNextPtr (userPtr block) (heap.head (listFor (units block)))).head
      = heap.head := rfl
  rw [unchanged]
  simp only [Heap.next, Heap.freeNextPtr, Heap.setFreeNextPtr]
  rw [load_store_of_lt _ _ _ _ (layout.head_lt _)]

theorem carve (pinned : heap.heapAllocStart ≠ 0)
    (size : BlockSize total) (fits : heap.heapCurrent + total ≤ heap.heapEnd)
    (bounded : heap.heapCurrent + total < 2 ^ 64) :
    Layout { heap.writeHeader heap.heapCurrent total with
        heapCurrent := heap.heapCurrent + total }
      (blocks ++ [⟨heap.heapCurrent, total⟩]) lists
      fun q => q = heap.heapCurrent + 16 ∨ used q := by
  have first : heap.first = heap.heapAllocStart := by simp [Heap.first, pinned]
  have below : ∀ old ∈ blocks, old.stop ≤ heap.heapCurrent :=
    fun old member => (layout.tiles.bounds.2 old member).2
  refine ⟨?_, ?_, ?_, ?_, fun list => ?_, layout.nodup, fun list p listed => ?_, ?_, ?_,
    .inr fits, bounded⟩
  · simpa [Heap.first, Heap.writeHeader, pinned, first] using layout.aligned
  · have tiles := layout.tiles.snoc total
    simpa [Heap.first, Heap.writeHeader, pinned, first] using tiles
  · intro new member
    rcases mem_append.mp member with old | isNew
    · exact layout.sizes new old
    · obtain rfl : new = ⟨heap.heapCurrent, total⟩ := by simpa using isNew
      exact size
  · intro new member
    rcases mem_append.mp member with old | isNew
    · rw [← layout.headers new old]
      refine load_congr _ _ _ _ fun address low high => ?_
      have stop := below new old
      have least := (layout.sizes new old).least
      refine heap.writeHeader_outside _ _ ?_
      simp only [Span.stop] at stop
      omega
    · obtain rfl : new = ⟨heap.heapCurrent, total⟩ := by simpa using isNew
      exact heap.load_writeHeader heap.heapCurrent size.small
  · have chain := layout.chains list
    have kept :
        ∀ p ∈ lists list, heap.next p = (heap.writeHeader heap.heapCurrent total).next p := by
      intro p listed
      obtain ⟨-, old, member, rfl, -⟩ := layout.listed list p listed
      have stop := below old member
      have least := (layout.sizes old member).least
      have loads : heap.memory.load (userPtr old) 8 =
          (heap.writeHeader heap.heapCurrent total).memory.load (userPtr old) 8 := by
        refine load_congr _ _ _ _ fun address low high => ?_
        refine (heap.writeHeader_outside _ _ ?_).symm
        simp only [userPtr, Span.stop] at *
        omega
      rw [Heap.next, Heap.next, Heap.freeNextPtr, Heap.freeNextPtr, loads]
    have same := chain.congr kept
    cases list <;> exact same
  · obtain ⟨free, old, member, isP, isList⟩ := layout.listed list p listed
    refine ⟨not_or.mpr ⟨?_, free⟩, old, mem_append_left _ member, isP, isList⟩
    have stop := below old member
    have least := (layout.sizes old member).least
    simp only [userPtr, Span.stop] at *
    omega
  · rintro q (rfl | inUse)
    · exact ⟨⟨heap.heapCurrent, total⟩, by simp, rfl⟩
    · obtain ⟨old, member, isQ⟩ := layout.owned q inUse
      exact ⟨old, mem_append_left _ member, isQ⟩
  · intro new member
    rcases mem_append.mp member with old | isNew
    · exact (layout.covered new old).imp .inr id
    · obtain rfl : new = ⟨heap.heapCurrent, total⟩ := by simpa using isNew
      exact .inl (.inl rfl)

theorem rewind (pinned : heap.heapAllocStart ≠ 0)
    (member : block ∈ blocks) (inUse : used (userPtr block)) (top : heap.heapCurrent ≤ block.stop) :
    ∃ rest, blocks = rest ++ [block] ∧ Layout { heap with heapCurrent := block.start } rest lists
        fun q => used q ∧ q ≠ userPtr block := by
  have first : heap.first = heap.heapAllocStart := by simp [Heap.first, pinned]
  obtain ⟨rest, rfl, tiles⟩ := layout.tiles.last layout.positive member top
  have stop := (layout.tiles.bounds.2 block member).2
  have grows : block.start ≤ block.stop := Nat.le_add_right ..
  have others : ∀ old ∈ rest, userPtr old ≠ userPtr block := by
    intro old inRest same
    have distinct := layout.tiles.nodup layout.positive
    rw [layout.user_inj (mem_append_left _ inRest) member same] at inRest
    rw [nodup_append] at distinct
    exact distinct.2.2 block inRest block (mem_singleton_self _) rfl
  refine ⟨rest, rfl, ?_, ?_, ?_, ?_, fun list => ?_, layout.nodup, fun list p listed => ?_,
    ?_, ?_, ?_, ?_⟩
  · simpa [Heap.first, pinned, first] using layout.aligned
  · simpa [Heap.first, pinned, first] using tiles
  · exact fun old inRest => layout.sizes old (mem_append_left _ inRest)
  · exact fun old inRest => layout.headers old (mem_append_left _ inRest)
  · have chain := layout.chains list
    cases list <;> exact chain
  · obtain ⟨free, old, inBlocks, isP, isList⟩ := layout.listed list p listed
    refine ⟨fun kept => free kept.1, old, ?_, isP, isList⟩
    rcases mem_append.mp inBlocks with inRest | isBlock
    · exact inRest
    · obtain rfl : old = block := by simpa using isBlock
      exact absurd (isP ▸ inUse) free
  · rintro q ⟨kept, different⟩
    obtain ⟨old, inBlocks, isQ⟩ := layout.owned q kept
    rcases mem_append.mp inBlocks with inRest | isBlock
    · exact ⟨old, inRest, isQ⟩
    · obtain rfl : old = block := by simpa using isBlock
      exact absurd isQ.symm different
  · intro old inRest
    exact (layout.covered old (mem_append_left _ inRest)).imp
      (fun kept => ⟨kept, others old inRest⟩) id
  · refine .inr ?_
    have inside := layout.inside.resolve_left (by simp)
    simp only
    omega
  · have bounded := layout.bounded
    simp only
    omega

end

/-- Cut a block in use in two, once both headers are written. -/
theorem cut (layout : Layout heap (first ++ block :: rest) lists used)
    (inUse : used (userPtr block)) (carved : BlockSize size) (tail : BlockSize (block.size - size))
    (header : memory.load block.start 4 = size)
    (tailHeader : memory.load (block.start + size) 4 = block.size - size)
    (same : ∀ address, address < block.start ∨ block.stop ≤ address →
      memory address = heap.memory address) :
    Layout { heap with memory }
      (first ++ ⟨block.start, size⟩ :: ⟨block.start + size, block.size - size⟩ :: rest) lists
      fun q => q = block.start + size + 16 ∨ used q := by
  have here : block ∈ first ++ block :: rest := by simp
  have outside : ∀ old ∈ first ++ rest,
      old ∈ first ++ block :: rest ∧ (old.stop ≤ block.start ∨ block.stop ≤ old.start) := by
    intro old member
    have inBlocks : old ∈ first ++ block :: rest := by
      rcases mem_append.mp member with inFirst | inRest <;> simp [*]
    refine ⟨inBlocks, layout.tiles.apart inBlocks here ?_⟩
    rintro rfl
    have distinct := layout.tiles.nodup layout.positive
    rw [nodup_middle, nodup_cons] at distinct
    exact distinct.1 member
  have cases :
      ∀ new ∈ first ++ ⟨block.start, size⟩ :: ⟨block.start + size, block.size - size⟩ :: rest,
      new ∈ first ++ rest ∨ new = ⟨block.start, size⟩ ∨
        new = ⟨block.start + size, block.size - size⟩ := by
    intro new member
    simp only [mem_append, mem_cons] at member ⊢
    tauto
  have keeps : ∀ old ∈ first ++ block :: rest, userPtr old ≠ userPtr block →
    old ∈ first ++ rest := by
    intro old member different
    simp only [mem_append, mem_cons] at member ⊢
    rcases member with inFirst | rfl | inRest
    · exact .inl inFirst
    · exact absurd rfl different
    · exact .inr inRest
  have least := tail.least
  refine { layout with
    tiles := layout.tiles.cut (by omega), sizes new member := ?_, headers new member :=
      ?_, chains list := ?_,
    listed list p listed := ?_, owned := ?_, covered new member := ?_, inside := .inr ?_ }
  · rcases cases new member with old | rfl | rfl
    · exact layout.sizes new (outside new old).1
    · exact carved
    · exact tail
  · rcases cases new member with old | rfl | rfl
    · obtain ⟨inBlocks, apart⟩ := outside new old
      have newLeast := (layout.sizes new inBlocks).least
      rw [← layout.headers new inBlocks]
      refine load_congr _ _ _ _ fun address low high => same address ?_
      simp only [Span.stop] at *
      omega
    · exact header
    · exact tailHeader
  · refine (layout.chains list).congr fun p listed => ?_
    obtain ⟨free, old, inBlocks, rfl, -⟩ := layout.listed list p listed
    have different : userPtr old ≠ userPtr block := fun equal => free (equal ▸ inUse)
    obtain ⟨-, apart⟩ := outside old (keeps old inBlocks different)
    have oldLeast := (layout.sizes old inBlocks).least
    have loads : heap.memory.load (userPtr old) 8 = memory.load (userPtr old) 8 := by
      refine load_congr _ _ _ _ fun address low high => (same address ?_).symm
      simp only [userPtr, Span.stop] at *
      omega
    rw [Heap.next, Heap.next, Heap.freeNextPtr, Heap.freeNextPtr, loads]
  · obtain ⟨free, old, inBlocks, isP, isList⟩ := layout.listed list p listed
    have different : userPtr old ≠ userPtr block := fun equal => free (isP ▸ equal ▸ inUse)
    have inOthers := keeps old inBlocks different
    obtain ⟨-, apart⟩ := outside old inOthers
    refine ⟨not_or.mpr ⟨?_, free⟩, old, ?_, isP, isList⟩
    · simp only [userPtr, Span.stop] at *
      omega
    · simp only [mem_append, mem_cons] at inOthers ⊢
      tauto
  · rintro q (rfl | kept)
    · exact ⟨⟨block.start + size, block.size - size⟩, by simp, rfl⟩
    · obtain ⟨old, inBlocks, isQ⟩ := layout.owned q kept
      by_cases isBlock : userPtr old = userPtr block
      · exact ⟨⟨block.start, size⟩, by simp, isBlock.symm.trans isQ⟩
      · have inOthers := keeps old inBlocks isBlock
        refine ⟨old, ?_, isQ⟩
        simp only [mem_append, mem_cons] at inOthers ⊢
        tauto
  · rcases cases new member with old | rfl | rfl
    · exact (layout.covered new (outside new old).1).imp .inr id
    · exact .inl (.inr inUse)
    · exact .inl (.inl rfl)
  · exact layout.inside.resolve_left (by simp)

end Layout

end Zapada.Mm
