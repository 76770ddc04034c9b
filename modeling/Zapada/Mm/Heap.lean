import Zapada.Foundation.Bytes
import Zapada.Foundation.Chain
import Zapada.Foundation.SequentialLayout

/-! The kernel heap of `mm/heap.c`: a bump pointer, 64 exact-size free lists and an
overflow list, all threaded through the heap memory. Addresses are 64-bit, sizes in
block headers 32-bit. -/

namespace Zapada.Mm

open Foundation List

def earlyHeapSize : Nat := 8 * 1024 * 1024

def kheapPageAlign : Nat := 4096
def kheapBlockAlign : Nat := 16
def kheapHeaderSize : Nat := 16
def kheapMinUser : Nat := 16
def nFastBuckets : Nat := 64

def u32 (value : Nat) : Nat := value % 2 ^ 32
def u64 (value : Nat) : Nat := value % 2 ^ 64

/-- The allocator's variables and the memory it manages; 0 is the null pointer. -/
structure Heap where
  heapAllocStart : Nat
  heapCurrent : Nat
  heapEnd : Nat
  heapMinStart : Nat
  heapSize : Nat
  freeBytes : Nat
  freeBuckets : Fin nFastBuckets → Nat
  overflowList : Nat
  memory : Memory

/-- A free list is a bucket for one size, or the list of larger blocks. -/
inductive FreeList where
  | bucket (index : Fin nFastBuckets)
  | overflow
deriving DecidableEq

namespace Heap

def head (heap : Heap) : FreeList → Nat
  | .bucket index => heap.freeBuckets index
  | .overflow => heap.overflowList

def setHead (heap : Heap) (pointer : Nat) : FreeList → Heap
  | .bucket index => { heap with freeBuckets := Function.update heap.freeBuckets index pointer }
  | .overflow => { heap with overflowList := pointer }

/-- `hdr->block_size` of the header in front of a user pointer. -/
def blockSize (heap : Heap) (userPtr : Nat) : Nat :=
  heap.memory.load (userPtr - kheapHeaderSize) 4

/-- The user area behind a header, in units of 16 bytes. -/
def blocksAt (heap : Heap) (userPtr : Nat) : Nat :=
  u32 (heap.blockSize userPtr + 2 ^ 32 - kheapHeaderSize) / kheapBlockAlign

def freeNextPtr (heap : Heap) (userPtr : Nat) : Nat := heap.memory.load userPtr 8

def setFreeNextPtr (heap : Heap) (userPtr next : Nat) : Heap :=
  { heap with memory := heap.memory.store userPtr 8 next }

def writeHeader (heap : Heap) (header blockSize : Nat) : Heap :=
  { heap with memory := (((heap.memory.store header 4 blockSize).store (header + 4) 4 0).store
      (header + 8) 4 0).store (header + 12) 4 0 }

end Heap

def heapAlignUp (v a : Nat) : Nat := u64 (v + a - 1) &&& (2 ^ 64 - a)

def blocksForSize (userSize : Nat) : Nat :=
  let aligned := heapAlignUp userSize kheapBlockAlign
  let aligned := if aligned < kheapMinUser then kheapMinUser else aligned
  u32 (aligned / kheapBlockAlign)

def blockZeroUser (heap : Heap) (userPtr nBlocks : Nat) : Heap :=
  let nWords := u32 (nBlocks * kheapBlockAlign) / 8
  { heap with memory :=
      (List.range nWords).foldl (fun memory i => memory.store (userPtr + 8 * i) 8 0) heap.memory }

/-- The list that holds the free blocks of a size. -/
def listFor (nBlocks : Nat) : FreeList :=
  if fast : 0 < nBlocks ∧ nBlocks ≤ nFastBuckets then .bucket ⟨nBlocks - 1, by omega⟩
  else .overflow

def bucketPush (heap : Heap) (userPtr nBlocks : Nat) : Heap :=
  let userBytes := u32 (nBlocks * kheapBlockAlign)
  let list := listFor nBlocks
  let heap := (heap.setFreeNextPtr userPtr (heap.head list)).setHead userPtr list
  { heap with freeBytes := u64 (heap.freeBytes + userBytes) }

/-- `bucket_pop_fast`: the null pointer when the bucket is empty. -/
def bucketPopFast (heap : Heap) (nBlocks : Nat) : Nat × Heap :=
  if fast : nBlocks = 0 ∨ nFastBuckets < nBlocks then (0, heap)
  else
    let list : FreeList := .bucket ⟨nBlocks - 1, by omega⟩
    let node := heap.head list
    if node = 0 then (0, heap)
    else
      let heap := heap.setHead (heap.freeNextPtr node) list
      let userBytes := u32 (nBlocks * kheapBlockAlign)
      (node, { heap with freeBytes := u64 (heap.freeBytes + 2 ^ 64 - userBytes) })

/-- The block the search has chosen, and the link that points to it: a null
`bestPrev` stands for the list head. -/
structure Best where
  best : Nat
  bestPrev : Option Nat
  bestBlocks : Nat

/-- The loop of `bucket_pop_overflow`; `none` if it has not ended after `fuel` rounds. -/
def overflowSearch (heap : Heap) (nBlocks : Nat) :
    (fuel : Nat) → (prev : Option Nat) → (cur : Nat) → Option Best → Option (Option Best)
  | 0, _, cur, best => if cur = 0 then some best else none
  | fuel + 1, prev, cur, best =>
    if cur = 0 then some best
    else
      let curBlocks := heap.blocksAt cur
      let candidate : Best := { best := cur, bestPrev := prev, bestBlocks := curBlocks }
      if curBlocks = nBlocks then some (some candidate)
      else
        let better := nBlocks < curBlocks ∧ (∀ found ∈ best, curBlocks < found.bestBlocks) ∧
          curBlocks ≤ u32 (nBlocks * 20) / 16
        overflowSearch heap nBlocks fuel (some cur) (heap.freeNextPtr cur)
          (if better then some candidate else best)

def unlinkBest (heap : Heap) (found : Best) : Heap :=
  let next := heap.freeNextPtr found.best
  match found.bestPrev with
  | none => heap.setHead next .overflow
  | some prev => heap.setFreeNextPtr prev next

/-- Give the end of a block that is too large back to the free lists. -/
def splitTail (heap : Heap) (best bestBlocks nBlocks : Nat) : Heap :=
  let tailBlocks := bestBlocks - nBlocks - 1
  let tailHdr := best + nBlocks * kheapBlockAlign
  let heap := heap.writeHeader tailHdr (u32 (kheapHeaderSize + tailBlocks * kheapBlockAlign))
  let carvedSize := u32 (kheapHeaderSize + nBlocks * kheapBlockAlign)
  let heap := { heap with memory := heap.memory.store (best - kheapHeaderSize) 4 carvedSize }
  bucketPush heap (tailHdr + kheapHeaderSize) tailBlocks

/-- The number of nodes of a list cannot exceed the number of bytes below the bump
pointer, so that bounds the search. -/
def bucketPopOverflow (heap : Heap) (nBlocks : Nat) : Option (Nat × Heap) :=
  match overflowSearch heap nBlocks heap.heapCurrent none heap.overflowList none with
  | none => none
  | some none => some (0, heap)
  | some (some found) =>
    let heap := unlinkBest heap found
    let userBytes := u32 (found.bestBlocks * kheapBlockAlign)
    let heap := { heap with freeBytes := u64 (heap.freeBytes + 2 ^ 64 - userBytes) }
    if u32 (nBlocks + 2) ≤ found.bestBlocks then
      some (found.best, splitTail heap found.best found.bestBlocks nBlocks)
    else some (found.best, heap)

def kheapSetSize (heap : Heap) (heapSize : Nat) : Heap :=
  if heap.heapCurrent ≠ 0 ∨ heapSize = 0 then heap else { heap with heapSize }

def kheapInit (heap : Heap) (kernelEnd : Nat) : Heap :=
  let start := heapAlignUp kernelEnd kheapPageAlign
  let start :=
    if start < heap.heapMinStart then heapAlignUp heap.heapMinStart kheapPageAlign else start
  { heap with
    heapAllocStart := 0
    heapCurrent := start
    heapEnd := u64 (start + heap.heapSize)
    freeBytes := 0 }

def kheapReserveUntil (heap : Heap) (minStart : Nat) : Heap :=
  if heap.heapCurrent = 0 then
    if heap.heapMinStart < minStart then { heap with heapMinStart := minStart } else heap
  else if heap.heapAllocStart ≠ 0 ∨ minStart ≤ heap.heapCurrent then heap
  else
    let aligned := heapAlignUp minStart kheapBlockAlign
    if heap.heapEnd < aligned then { heap with heapCurrent := heap.heapEnd }
    else { heap with heapCurrent := aligned }

/-- Fix the first block header at the first allocation. -/
def pinAllocStart (heap : Heap) : Heap :=
  if heap.heapAllocStart = 0 then
    let start := heapAlignUp heap.heapCurrent kheapBlockAlign
    { heap with heapAllocStart := start, heapCurrent := start }
  else heap

def bumpAlloc (heap : Heap) (totalSize : Nat) : Nat × Heap :=
  let blockStart := heapAlignUp heap.heapCurrent kheapBlockAlign
  let blockEnd := u64 (blockStart + totalSize)
  if heap.heapEnd < blockEnd ∨ blockEnd < blockStart then (0, heap)
  else
    (blockStart + kheapHeaderSize,
      { heap.writeHeader blockStart totalSize with heapCurrent := blockEnd })

/-- `kheap_alloc`; `none` if the search of the overflow list does not end. -/
def kheapAlloc (heap : Heap) (size : Nat) : Option (Nat × Heap) :=
  if size = 0 ∨ heap.heapCurrent = 0 then some (0, heap)
  else
    let nBlocks := blocksForSize size
    let totalSize := u32 (kheapHeaderSize + nBlocks * kheapBlockAlign)
    let heap := pinAllocStart heap
    let (userPtr, popped) := bucketPopFast heap nBlocks
    if userPtr ≠ 0 then some (userPtr, blockZeroUser popped userPtr nBlocks)
    else if nFastBuckets < nBlocks then
      match bucketPopOverflow heap nBlocks with
      | none => none
      | some (userPtr, popped) =>
        if userPtr ≠ 0 then some (userPtr, blockZeroUser popped userPtr nBlocks)
        else some (bumpAlloc heap totalSize)
    else some (bumpAlloc heap totalSize)

def kheapFree (heap : Heap) (ptr : Nat) : Heap :=
  if ptr = 0 ∨ heap.heapAllocStart = 0 then heap
  else
    let hdr := u64 (ptr + 2 ^ 64 - kheapHeaderSize)
    if hdr < heap.heapAllocStart ∨ heap.heapCurrent ≤ hdr then heap
    else if heap.heapCurrent ≤ u64 (hdr + heap.blockSize ptr) then { heap with heapCurrent := hdr }
    else bucketPush heap ptr (heap.blocksAt ptr)

def kheapGetFreeBytes (heap : Heap) : Nat :=
  if heap.heapEnd ≤ heap.heapCurrent then heap.freeBytes
  else u64 (heap.freeBytes + (heap.heapEnd - heap.heapCurrent))

/-! How the heap memory is laid out: blocks tile the carved region, free blocks are
chained in the list for their size, all other blocks are in use. Each edit of the
allocator keeps such a layout. -/

open Function Heap Memory

/-- A header and at least one unit of user data, small enough for the size field. -/
structure BlockSize (size : Nat) : Prop where
  aligned : size % 16 = 0
  least : 32 ≤ size
  small : size < 2 ^ 32

/-- The pointer that `kheap_alloc` returns for a block. -/
def userPtr (block : Span) : Nat := block.start + 16

/-- The size of a block's user area in units of 16 bytes. -/
def units (block : Span) : Nat := (block.size - 16) / 16

def pointer (address : Nat) : Option Nat := if address = 0 then none else some address

/-- The first block header; before the first allocation, where it will be. -/
def Heap.first (heap : Heap) : Nat :=
  if heap.heapAllocStart = 0 then heap.heapCurrent else heap.heapAllocStart

def Heap.next (heap : Heap) (userPtr : Nat) : Option Nat := pointer (heap.freeNextPtr userPtr)

structure Layout (heap : Heap) (blocks : List Span) (lists : FreeList → List Nat)
    (used : Nat → Prop) : Prop where
  aligned : heap.first % 16 = 0
  tiles : Tiles heap.first blocks heap.heapCurrent
  sizes : ∀ block ∈ blocks, BlockSize block.size
  headers : ∀ block ∈ blocks, heap.memory.load block.start 4 = block.size
  chains : ∀ list, Chain heap.next (pointer (heap.head list)) (lists list)
  nodup : ∀ list, (lists list).Nodup
  listed : ∀ list p, p ∈ lists list → ¬ used p ∧ ∃ block ∈ blocks, userPtr block = p ∧
    listFor (units block) = list
  owned : ∀ p, used p → ∃ block ∈ blocks, userPtr block = p
  covered : ∀ block ∈ blocks, used (userPtr block) ∨ userPtr block ∈ lists (listFor (units block))
  inside : blocks = [] ∨ heap.heapCurrent ≤ heap.heapEnd
  bounded : heap.heapCurrent < 2 ^ 64

/-- The bounds of the carved region are the same. -/
structure SameRegion (heap heap' : Heap) : Prop where
  first : heap'.first = heap.first
  current : heap'.heapCurrent = heap.heapCurrent
  limit : heap'.heapEnd = heap.heapEnd

section

variable (heap : Heap) (address : Nat) (list : FreeList)

include heap address list

@[simp] theorem Heap.head_setHead :
    (heap.setHead address list).head = update heap.head list address := by
  funext other
  cases list with
  | overflow => cases other <;> simp [setHead, head]
  | bucket index =>
    cases other with
    | overflow => simp [setHead, head]
    | bucket other =>
      by_cases same : other = index <;> simp [setHead, head, same]

@[simp] theorem Heap.memory_setHead : (heap.setHead address list).memory = heap.memory := by
  cases list <;> rfl

@[simp] theorem Heap.freeBytes_setHead :
    (heap.setHead address list).freeBytes = heap.freeBytes := by
  cases list <;> rfl

theorem Heap.sameRegion_setHead : SameRegion heap (heap.setHead address list) := by
  cases list <;> exact ⟨rfl, rfl, rfl⟩

@[simp] theorem Heap.next_setHead : (heap.setHead address list).next = heap.next := by
  cases list <;> rfl

end

theorem Heap.writeHeader_outside (heap : Heap) (header size : Nat)
    (outside : address < header ∨ header + 16 ≤ address) :
    (heap.writeHeader header size).memory address = heap.memory address := by
  simp only [writeHeader]
  rw [store_outside _ _ _ _ _ (by omega), store_outside _ _ _ _ _ (by omega),
    store_outside _ _ _ _ _ (by omega), store_outside _ _ _ _ _ (by omega)]

theorem Heap.load_writeHeader (heap : Heap) (header : Nat) (small : size < 2 ^ 32) :
    (heap.writeHeader header size).memory.load header 4 = size := by
  simp only [writeHeader]
  rw [load_store_disjoint _ _ _ _ _ _ (by omega), load_store_disjoint _ _ _ _ _ _ (by omega),
    load_store_disjoint _ _ _ _ _ _ (by omega)]
  exact load_store_of_lt _ _ _ _ small

namespace Layout

variable {heap : Heap} {blocks : List Span} {lists : FreeList → List Nat} {used : Nat → Prop}
  {block other : Span}

section

variable (layout : Layout heap blocks lists used)

include layout

theorem positive : ∀ block ∈ blocks, 0 < block.size :=
  fun block member => by
    have := (layout.sizes block member).least
    omega

theorem user_inj (member : block ∈ blocks)
    (otherMember : other ∈ blocks) (same : userPtr block = userPtr other) : block = other := by
  by_contra different
  have apart := layout.tiles.apart member otherMember different
  have one := layout.positive block member
  have two := layout.positive other otherMember
  simp only [userPtr, Span.stop] at *
  omega

theorem start_aligned (member : block ∈ blocks) : block.start % 16 = 0 := by
  have along : ∀ (blocks : List Span) (low : Nat), Tiles low blocks heap.heapCurrent →
      low % 16 = 0 → (∀ block ∈ blocks, BlockSize block.size) →
      ∀ block ∈ blocks, block.start % 16 = 0 := by
    intro blocks
    induction blocks with
    | nil => simp
    | cons first rest ih =>
      intro low tiles aligned sizes block member
      obtain ⟨here, after⟩ := tiles
      rcases mem_cons.mp member with rfl | later
      · omega
      · refine ih _ after ?_ (fun other inRest => sizes other (mem_cons_of_mem _ inRest))
          block later
        have size := (sizes first (mem_cons_self ..)).aligned
        simp only [Span.stop]
        omega
  exact along blocks _ layout.tiles layout.aligned layout.sizes block member

theorem current_aligned : heap.heapCurrent % 16 = 0 := by
  rcases eq_nil_or_concat blocks with rfl | ⟨rest, last, rfl⟩
  · have same : heap.first = heap.heapCurrent := layout.tiles
    rw [← same]
    exact layout.aligned
  · have member : last ∈ rest.concat last := by simp
    have start := layout.start_aligned member
    have size := (layout.sizes last member).aligned
    obtain ⟨middle, -, -, ends⟩ := tiles_append.mp (by simpa using layout.tiles)
    have stop : last.stop = heap.heapCurrent := ends
    simp only [Span.stop] at stop
    omega

theorem rewrite {memory : Memory}
    (headers : ∀ block ∈ blocks, memory.load block.start 4 = heap.memory.load block.start 4)
    (links : ∀ list, ∀ p ∈ lists list, memory.load p 8 = heap.memory.load p 8) :
    Layout { heap with memory } blocks lists used :=
  { layout with
    headers block member := (headers block member).trans (layout.headers block member)
    chains list := (layout.chains list).congr fun p member => by
      simp only [Heap.next, freeNextPtr, links list p member] }

/-- The user area of a block in use holds no header and no link. -/
theorem write {memory : Memory} (member : block ∈ blocks) (inUse : used (userPtr block))
    (same : ∀ address, address < userPtr block ∨ block.stop ≤ address →
      memory address = heap.memory address) : Layout { heap with memory } blocks lists used := by
  have outside : ∀ other ∈ blocks, other ≠ block → other.stop ≤ block.start ∨
    block.stop ≤ other.start :=
    fun other otherMember different => layout.tiles.apart otherMember member different
  refine layout.rewrite (fun other otherMember => ?_) (fun list p listed => ?_)
  · refine load_congr _ _ _ _ fun address low high => same address ?_
    by_cases here : other = block
    · subst here
      simp only [userPtr]
      omega
    · have apart := outside other otherMember here
      simp only [userPtr, Span.stop] at *
      omega
  · obtain ⟨free, other, otherMember, rfl, -⟩ := layout.listed list p listed
    have here : other ≠ block := by
      rintro rfl
      exact free inUse
    have apart := outside other otherMember here
    have size := (layout.sizes other otherMember).least
    refine load_congr _ _ _ _ fun address low high => same address ?_
    simp only [userPtr, Span.stop] at *
    omega

theorem mem_iff : p ∈ lists list ↔ ¬ used p ∧ ∃ block ∈ blocks, userPtr block = p ∧
      listFor (units block) = list := by
  constructor
  · exact layout.listed list p
  · rintro ⟨free, block, member, rfl, rfl⟩
    exact (layout.covered block member).resolve_left free

theorem list_unique (one : p ∈ lists list) (two : p ∈ lists list') : list = list' := by
  obtain ⟨-, block, member, isP, rfl⟩ := layout.listed list p one
  obtain ⟨-, found, inFound, alsoP, rfl⟩ := layout.listed list' p two
  rw [layout.user_inj member inFound (isP.trans alsoP.symm)]

/-- The region is the same, and the lists are those of the free blocks again. -/
theorem refile (region : SameRegion heap heap')
    (headers : ∀ block ∈ blocks, heap'.memory.load block.start 4 = heap.memory.load block.start 4)
    (chains : ∀ list, Chain heap'.next (pointer (heap'.head list)) (lists' list))
    (nodup : ∀ list, (lists' list).Nodup)
    (owned : ∀ p, used' p → ∃ block ∈ blocks, userPtr block = p)
    (members : ∀ list p, p ∈ lists' list ↔ ¬ used' p ∧ ∃ block ∈ blocks,
      userPtr block = p ∧ listFor (units block) = list) :
    Layout heap' blocks lists' used' where
  aligned := region.first ▸ layout.aligned
  tiles := by
    rw [region.first, region.current]
    exact layout.tiles
  sizes := layout.sizes
  headers block member := (headers block member).trans (layout.headers block member)
  chains := chains
  nodup := nodup
  listed list p := (members list p).mp
  owned := owned
  covered block member :=
    (Classical.em _).imp_right fun free => (members _ _).mpr ⟨free, block, member, rfl, rfl⟩
  inside := by
    rw [region.current, region.limit]
    exact layout.inside
  bounded := region.current ▸ layout.bounded

theorem unlist (region : SameRegion heap heap')
    (headers : ∀ block ∈ blocks, heap'.memory.load block.start 4 = heap.memory.load block.start 4)
    (chains : ∀ other, Chain heap'.next (pointer (heap'.head other))
      (update lists list remaining other))
    (members : ∀ q, q ∈ lists list ↔ q = p ∨ q ∈ remaining) (fresh : p ∉ remaining)
    (nodup : remaining.Nodup) :
    Layout heap' blocks (update lists list remaining) fun q => q = p ∨ used q := by
  have inList : p ∈ lists list := (members p).mpr (.inl rfl)
  refine layout.refile region headers chains ?_ ?_ (fun other q => ?_)
  · exact (forall_update_iff lists fun _ list => list.Nodup).mpr
      ⟨nodup, fun other _ => layout.nodup other⟩
  · rintro q (rfl | inUse)
    · obtain ⟨-, block, inBlocks, isP, -⟩ := layout.listed list q inList
      exact ⟨block, inBlocks, isP⟩
    · exact layout.owned q inUse
  · have kept : q ∈ update lists list remaining other ↔ q ≠ p ∧ q ∈ lists other := by
      by_cases here : other = list
      · subst here
        rw [update_self, members]
        exact ⟨fun remains => ⟨ne_of_mem_of_not_mem remains fresh, .inr remains⟩,
          fun ⟨different, listed⟩ => listed.resolve_left different⟩
      · rw [update_of_ne here]
        refine ⟨fun listed => ⟨?_, listed⟩, And.right⟩
        rintro rfl
        exact here (layout.list_unique listed inList)
    rw [kept, layout.mem_iff, not_or, and_assoc]

theorem listed_lt (member : p ∈ lists list) : 0 < p ∧ p < 2 ^ 64 := by
  obtain ⟨-, block, inBlocks, rfl, -⟩ := layout.listed list p member
  have size := (layout.sizes block inBlocks).least
  have inside := (layout.tiles.bounds.2 block inBlocks).2
  have bounded := layout.bounded
  simp only [userPtr, Span.stop] at *
  omega

theorem head_lt (list : FreeList) : heap.head list < 2 ^ 64 := by
  have chain := (layout.chains list).head_eq
  by_cases null : heap.head list = 0
  · omega
  · rw [pointer, if_neg null] at chain
    exact (layout.listed_lt (mem_of_head? chain.symm)).2

theorem pop (front : lists list = p :: rest) :
    Layout (heap.setHead (heap.freeNextPtr p) list) blocks (update lists list rest) fun q => q = p ∨
      used q := by
  have chain := layout.chains list
  have distinct := layout.nodup list
  rw [front] at chain distinct
  refine layout.unlist (heap.sameRegion_setHead _ _) (by simp) (fun other => ?_) ?_
    (nodup_cons.mp distinct).1 (nodup_cons.mp distinct).2
  · rw [next_setHead, head_setHead]
    by_cases here : other = list
    · subst here
      rw [update_self, update_self]
      exact (Chain.cons_iff.mp chain).2
    · rw [update_of_ne here, update_of_ne here]
      exact layout.chains other
  · intro q
    rw [front, mem_cons]

end

end Layout

end Zapada.Mm
