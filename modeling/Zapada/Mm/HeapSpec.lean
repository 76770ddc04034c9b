import Mathlib.Data.List.Perm.Subperm
import Zapada.Mm.HeapEdits

namespace Zapada.Mm

open Foundation

/-- The heap region and the size limit are the same. -/
structure SameBounds (heap heap' : Heap) : Prop where
  first : heap'.first = heap.first
  limit : heap'.heapEnd = heap.heapEnd
  size : heap'.heapSize = heap.heapSize

theorem SameBounds.setFreeBytes (bounds : SameBounds heap heap')
    (freeBytes : Nat) : SameBounds heap { heap' with freeBytes } :=
  { bounds with }

theorem Heap.sameBounds_setHead (heap : Heap) (address : Nat) (list : FreeList) :
    SameBounds heap (heap.setHead address list) := by
  cases list <;> exact ⟨rfl, rfl, rfl⟩

theorem heapAlignUp_eq (v bits : Nat) (fits : bits ≤ 64) :
    heapAlignUp v (2 ^ bits) = u64 (v + 2 ^ bits - 1) / 2 ^ bits * 2 ^ bits := by
  have width : 64 - bits + bits = 64 := Nat.sub_add_cancel fits
  have small : u64 (v + 2 ^ bits - 1) < 2 ^ 64 := Nat.mod_lt _ (by decide)
  have masked := and_high_mask (u64 (v + 2 ^ bits - 1)) (64 - bits) bits (by rwa [width])
  rw [width] at masked
  exact masked

theorem heapAlignUp_block (small : v + 15 < 2 ^ 64) :
    heapAlignUp v kheapBlockAlign = (v + 15) / 16 * 16 := by
  have rounded : heapAlignUp v kheapBlockAlign = u64 (v + 2 ^ 4 - 1) / 2 ^ 4 * 2 ^ 4 :=
    heapAlignUp_eq v 4 (by omega)
  rw [rounded, u64, Nat.mod_eq_of_lt (by omega)]
  omega

theorem heapAlignUp_page (v : Nat) :
    heapAlignUp v kheapPageAlign % 16 = 0 ∧ heapAlignUp v kheapPageAlign < 2 ^ 64 := by
  have rounded : heapAlignUp v kheapPageAlign = u64 (v + 2 ^ 12 - 1) / 2 ^ 12 * 2 ^ 12 :=
    heapAlignUp_eq v 12 (by omega)
  rw [rounded, u64]
  omega

theorem heapAlignUp_aligned (aligned : v % 16 = 0) (small : v < 2 ^ 64) :
    heapAlignUp v kheapBlockAlign = v := by
  rw [heapAlignUp_block (by omega)]
  omega

theorem blocksForSize_spec (positive : size ≠ 0) (small : size ≤ 2 ^ 32 - 32) :
    1 ≤ blocksForSize size ∧ size ≤ 16 * blocksForSize size ∧
      16 * blocksForSize size ≤ 2 ^ 32 - 32 := by
  have aligned : blocksForSize size = (size + 15) / 16 := by
    simp only [blocksForSize]
    have enough : ¬ (size + 15) / 16 * 16 < kheapMinUser := by
      simp only [kheapMinUser]
      omega
    rw [heapAlignUp_block (by omega), if_neg enough, u32, kheapBlockAlign]
    omega
  omega

theorem blockZeroUser_outside (heap : Heap) (user nBlocks : Nat) (small : 16 * nBlocks < 2 ^ 32)
    (outside : address < user ∨ user + 16 * nBlocks ≤ address) :
    (blockZeroUser heap user nBlocks).memory address = heap.memory address := by
  have along : ∀ words, 8 * words ≤ 16 * nBlocks →
      (List.range words).foldl (fun memory i => memory.store (user + 8 * i) 8 0)
        heap.memory address =
        heap.memory address := by
    intro words
    induction words with
    | zero => simp
    | succ words ih =>
      intro fits
      rw [List.range_succ, List.foldl_append]
      simp only [List.foldl_cons, List.foldl_nil]
      rw [Memory.store_outside _ _ _ _ _ (by omega)]
      exact ih (by omega)
  refine along _ ?_
  simp only [u32, kheapBlockAlign]
  omega

namespace Layout

variable {heap : Heap} {blocks : List Span} {lists : FreeList → List Nat} {used : Nat → Prop}
  {block : Span}

section

variable (layout : Layout heap blocks lists used) (member : block ∈ blocks)

include layout member

theorem blockSize_eq : heap.blockSize (userPtr block) = block.size :=
  layout.headers block member

theorem blocksAt_eq : heap.blocksAt (userPtr block) = units block := by
  have size := layout.sizes block member
  have least := size.least
  have small := size.small
  simp only [Heap.blocksAt, layout.blockSize_eq member, u32, kheapHeaderSize,
    kheapBlockAlign, units]
  omega

theorem size_eq : block.size = 16 + 16 * units block := by
  have size := layout.sizes block member
  have least := size.least
  have aligned := size.aligned
  simp only [units]
  omega

/-- Clearing the user area of a block in use. -/
theorem zero (inUse : used (userPtr block)) (fits : nBlocks ≤ units block) :
    Layout (blockZeroUser heap (userPtr block) nBlocks) blocks lists used := by
  have size := layout.size_eq member
  have small := (layout.sizes block member).small
  refine layout.write member inUse fun address outside => ?_
  refine blockZeroUser_outside heap _ _ (by omega) ?_
  simp only [userPtr, Span.stop] at *
  omega

end

theorem weaken (layout : Layout heap blocks lists used)
    (same : ∀ p, used p ↔ used' p) : Layout heap blocks lists used' := by
  have equal : used = used' := funext fun p => propext (same p)
  exact equal ▸ layout

/-- A block in use was handed out: the blocks that were in use before are still
there, and the new one is large enough. -/
structure Granted (heap heap' : Heap) (blocks blocks' : List Span) (lists' : FreeList → List Nat)
    (used : Nat → Prop) (nBlocks : Nat) (block : Span) : Prop where
  bounds : SameBounds heap heap'
  layout : Layout heap' blocks' lists' fun q => q = userPtr block ∨ used q
  member : block ∈ blocks'
  enough : nBlocks ≤ units block
  fresh : ¬ used (userPtr block)
  kept : ∀ old ∈ blocks, used (userPtr old) → old ∈ blocks'

open Classical in
/-- The user bytes of the blocks that are not in use. -/
noncomputable def freeTotal (blocks : List Span) (used : Nat → Prop) : Nat :=
  ((blocks.filter fun block => ¬ used (userPtr block)).map fun block => 16 * units block).sum

theorem freeTotal_used (inUse : used (userPtr block)) :
    freeTotal (before ++ block :: after) used = freeTotal (before ++ after) used := by
  simp [freeTotal, inUse]

theorem freeTotal_free (free : ¬ used (userPtr block)) :
    freeTotal (before ++ block :: after) used =
      freeTotal (before ++ after) used + 16 * units block := by
  simp [freeTotal, free]
  omega

theorem freeTotal_le (tiles : Tiles low blocks high) (used : Nat → Prop) :
    low + freeTotal blocks used ≤ high := by
  induction blocks generalizing low with
  | nil => exact tiles.le
  | cons block rest ih =>
    obtain ⟨rfl, after⟩ := tiles
    have later := ih after
    simp only [freeTotal, List.filter_cons, Span.stop] at *
    split
    · simp only [List.map_cons, List.sum_cons, units] at *
      omega
    · omega

theorem freeTotal_take (layout : Layout heap blocks lists used') (used : Nat → Prop)
    (member : block ∈ blocks) (free : ¬ used (userPtr block)) :
    freeTotal blocks used = freeTotal blocks (fun q => q = userPtr block ∨ used q) + 16 *
      units block := by
  obtain ⟨before, after, rfl⟩ := List.append_of_mem member
  have distinct := layout.tiles.nodup layout.positive
  rw [List.nodup_middle, List.nodup_cons] at distinct
  rw [freeTotal_free free, freeTotal_used (.inl rfl)]
  refine congrArg (fun kept => (List.map _ kept).sum + 16 * units block)
    (List.filter_congr fun old inOthers => ?_)
  have different : userPtr old ≠ userPtr block := by
    intro same
    have inBlocks : old ∈ before ++ block :: after := by
      rcases List.mem_append.mp inOthers with here | here <;> simp [here]
    rw [layout.user_inj inBlocks member same] at inOthers
    exact distinct.1 inOthers
  simp [different]

/-- The running total is that of the free blocks. -/
def Balanced (heap : Heap) (blocks : List Span) (used : Nat → Prop) : Prop :=
  heap.freeBytes = freeTotal blocks used

section

variable (layout : Layout heap blocks lists used) (member : block ∈ blocks)

include layout member

theorem userBytes : u32 (units block * kheapBlockAlign) = 16 * units block := by
  have size := layout.size_eq member
  have small := (layout.sizes block member).small
  simp only [u32, kheapBlockAlign]
  omega

theorem freeBytes_pop (free : ¬ used (userPtr block)) (balanced : Balanced heap blocks used) :
    u64 (heap.freeBytes + 2 ^ 64 - u32 (units block * kheapBlockAlign)) =
      freeTotal blocks fun q => q = userPtr block ∨ used q := by
  have taken := layout.freeTotal_take used member free
  have most := freeTotal_le layout.tiles used
  have bounded := layout.bounded
  rw [layout.userBytes member, balanced, u64]
  omega

theorem freeBytes_push (grows : freeTotal blocks used = freeBytes + 16 * units block) :
    u64 (freeBytes + u32 (units block * kheapBlockAlign)) = freeTotal blocks used := by
  have most := freeTotal_le layout.tiles used
  have bounded := layout.bounded
  rw [layout.userBytes member, u64]
  omega

end

/-- A block was handed out, and the running total is adjusted. -/
structure Accounted (heap heap' : Heap) (blocks blocks' : List Span) (lists' : FreeList → List Nat)
    (used : Nat → Prop) (nBlocks : Nat) (block : Span) : Prop
    extends Granted heap heap' blocks blocks' lists' used nBlocks block where
  balanced : Balanced heap blocks used → Balanced heap' blocks' fun q => q = userPtr block ∨ used q

theorem popFast (layout : Layout heap blocks lists used) (nBlocks : Nat) :
    bucketPopFast heap nBlocks = (0, heap) ∨
    ∃ heap' lists' block, bucketPopFast heap nBlocks = (userPtr block, heap') ∧
      Accounted heap heap' blocks blocks lists' used nBlocks block := by
  simp only [bucketPopFast]
  split
  · exact .inl rfl
  · rename_i fast
    split
    · exact .inl rfl
    · rename_i some_node
      refine .inr ?_
      have chain := (layout.chains (.bucket ⟨nBlocks - 1, by omega⟩)).head_eq
      rw [pointer, if_neg some_node] at chain
      obtain ⟨rest, front⟩ := List.head?_eq_some_iff.mp chain.symm
      obtain ⟨free, block, member, isNode, isList⟩ :=
        layout.listed _ _ (List.mem_of_head? chain.symm)
      have exact_size : nBlocks = units block := by
        simp only [listFor] at isList
        split at isList
        · simp only [FreeList.bucket.injEq, Fin.mk.injEq] at isList
          omega
        · contradiction
      have popped := layout.pop front
      rw [← isNode] at popped free ⊢
      have bounds := heap.sameBounds_setHead (heap.freeNextPtr (userPtr block))
        (.bucket ⟨nBlocks - 1, by omega⟩)
      refine ⟨_, _, block, rfl, ⟨bounds.setFreeBytes _, popped.setFreeBytes _, member,
        exact_size.le,
        free, fun _ old _ => old⟩, fun balanced => ?_⟩
      rw [Balanced, ← layout.freeBytes_pop member free balanced, ← exact_size]
      rfl

end Layout

/-- A size that the search may choose: the one asked for, or up to a quarter more. -/
def Suits (nBlocks curBlocks : Nat) : Prop :=
  curBlocks = nBlocks ∨ nBlocks < curBlocks ∧ curBlocks ≤ u32 (nBlocks * 20) / 16

theorem Suits.enough (suits : Suits nBlocks curBlocks) : nBlocks ≤ curBlocks :=
  suits.elim Eq.ge fun larger => larger.1.le

/-- The search ends, and what it finds is a node of the list with its predecessor, the
smallest of those that suit. -/
theorem overflowSearch_spec (nBlocks : Nat) (chain : Chain heap.next start list)
    (isStart : start = pointer cur) (enough : list.length ≤ fuel) (prev : Option Nat)
    (best : Option Best) (larger : ∀ found ∈ best, nBlocks < found.bestBlocks) :
    ∃ result, overflowSearch heap nBlocks fuel prev cur best = some result ∧
      ((result = best ∧ ∀ p ∈ list, Suits nBlocks (heap.blocksAt p) → ∃ found ∈ best,
        found.bestBlocks ≤ heap.blocksAt p) ∨
      ∃ first node rest, list = first ++ node :: rest ∧
        result = some ⟨node, first.getLast?.or prev, heap.blocksAt node⟩ ∧
          Suits nBlocks (heap.blocksAt node) ∧
        (∀ found ∈ best, heap.blocksAt node < found.bestBlocks) ∧
        ∀ p ∈ list, Suits nBlocks (heap.blocksAt p) → heap.blocksAt node ≤ heap.blocksAt p) := by
  induction chain generalizing cur fuel prev best with
  | nil =>
    have null : cur = 0 := by
      by_contra some_node
      rw [pointer, if_neg some_node] at isStart
      contradiction
    cases fuel <;> simp [overflowSearch, null]
  | @cons node list rest ih =>
    have isNode : cur = node ∧ cur ≠ 0 := by
      by_cases null : cur = 0
      · simp [pointer, null] at isStart
      · rw [pointer, if_neg null, Option.some.injEq] at isStart
        exact ⟨isStart.symm, null⟩
    obtain ⟨rfl, some_node⟩ := isNode
    obtain ⟨fuel, rfl⟩ : ∃ less, fuel = less + 1 := ⟨fuel - 1, by simp at enough; omega⟩
    simp only [overflowSearch, if_neg some_node, List.forall_mem_cons]
    split
    · rename_i same
      exact ⟨_, rfl, .inr ⟨[], cur, list, rfl, rfl,
        .inl same, fun found isBest => same.le.trans_lt (larger found isBest),
        fun _ => le_rfl, fun p _ suits => same.le.trans suits.enough⟩⟩
    · rename_i different
      split
      · rename_i better
        obtain ⟨result, ends, found⟩ :=
          ih rfl (by simpa using enough) (some cur) (some ⟨cur, prev, heap.blocksAt cur⟩)
          (by simpa using better.1)
        simp only [Option.mem_some_iff, forall_eq', exists_eq_left'] at found
        refine ⟨result, ends, .inr ?_⟩
        rcases found with ⟨rfl, all⟩ | ⟨first, node, later, split, isResult, suits, smaller, all⟩
        · exact ⟨[], cur, list, rfl, rfl, .inr ⟨better.1, better.2.2⟩,
            better.2.1, fun _ => le_rfl, all⟩
        · exact ⟨cur :: first, node, later, by simp [split],
            by simp [isResult, List.getLast?_cons], suits,
            fun found isBest => smaller.trans (better.2.1 found isBest), fun _ => smaller.le, all⟩
      · rename_i worse
        have beaten : Suits nBlocks (heap.blocksAt cur) →
          ∃ found ∈ best, found.bestBlocks ≤ heap.blocksAt cur := by
          intro suits
          by_contra none_smaller
          simp only [not_exists, not_and, not_le] at none_smaller
          exact worse ⟨(suits.resolve_left different).1, none_smaller,
            (suits.resolve_left different).2⟩
        obtain ⟨result, ends, found⟩ := ih rfl (by simpa using enough) (some cur) best larger
        refine ⟨result, ends, ?_⟩
        rcases found with ⟨rfl, all⟩ | ⟨first, node, later, split, isResult, suits, smaller, all⟩
        · exact .inl ⟨rfl, beaten, all⟩
        · refine .inr ⟨cur :: first, node, later, by simp [split],
            by simp [isResult, List.getLast?_cons], suits,
            smaller, fun inPlace => ?_, all⟩
          obtain ⟨found, isBest, less⟩ := beaten inPlace
          exact (smaller found isBest).le.trans less

theorem sameBounds_bucketPush (heap : Heap) (user nBlocks : Nat) :
    SameBounds heap (bucketPush heap user nBlocks) := by
  have bounds := (heap.setFreeNextPtr user (heap.head (listFor nBlocks))).sameBounds_setHead user
    (listFor nBlocks)
  exact { bounds with }

theorem freeBytes_bucketPush (heap : Heap) (user nBlocks : Nat) :
    (bucketPush heap user nBlocks).freeBytes =
      u64 (heap.freeBytes + u32 (nBlocks * kheapBlockAlign)) := by
  simp [bucketPush, Heap.setFreeNextPtr]

/-- The part of a block that is handed out. -/
def frontPart (block : Span) (nBlocks : Nat) : Span := ⟨block.start, 16 + 16 * nBlocks⟩

/-- The part of a block that is given back. -/
def tailPart (block : Span) (nBlocks : Nat) : Span :=
  ⟨block.start + (16 + 16 * nBlocks), block.size - (16 + 16 * nBlocks)⟩

/-- The memory with the headers of both parts. -/
def splitMemory (heap : Heap) (block : Span) (nBlocks : Nat) : Memory :=
  let tail := tailPart block nBlocks
  (heap.writeHeader tail.start tail.size).memory.store block.start 4 (frontPart block nBlocks).size

theorem splitTail_eq (heap : Heap) (size : block.size = 16 + 16 * units block)
    (small : block.size < 2 ^ 32) (room : nBlocks + 2 ≤ units block) :
    splitTail heap (userPtr block) (units block) nBlocks =
      bucketPush { heap with memory := splitMemory heap block nBlocks }
        (userPtr (tailPart block nBlocks)) (units (tailPart block nBlocks)) := by
  have tailSize : (tailPart block nBlocks).size = 16 + 16 * units (tailPart block nBlocks) := by
    simp only [tailPart, units]
    omega
  have tailUnits : units block - nBlocks - 1 = units (tailPart block nBlocks) := by
    simp only [tailPart, units]
    omega
  have tailHdr : userPtr block + nBlocks * kheapBlockAlign = (tailPart block nBlocks).start := by
    simp only [tailPart, userPtr, kheapBlockAlign]
    omega
  have tailField : u32 (kheapHeaderSize + units (tailPart block nBlocks) * kheapBlockAlign) =
      (tailPart block nBlocks).size := by
    simp only [u32, kheapHeaderSize, kheapBlockAlign]
    omega
  have frontField :
      u32 (kheapHeaderSize + nBlocks * kheapBlockAlign) = (frontPart block nBlocks).size := by
    simp only [frontPart, u32, kheapHeaderSize, kheapBlockAlign]
    omega
  have header : userPtr block - kheapHeaderSize = block.start := rfl
  simp only [splitTail, tailUnits, tailHdr, tailField, frontField, header]
  rfl

theorem load_front (heap : Heap) (size : BlockSize (frontPart block nBlocks).size) :
    (splitMemory heap block nBlocks).load block.start 4 = (frontPart block nBlocks).size :=
  Memory.load_store_of_lt _ _ _ _ size.small

theorem load_tail (heap : Heap) (size : BlockSize (tailPart block nBlocks).size) :
    (splitMemory heap block nBlocks).load (tailPart block nBlocks).start 4 =
      (tailPart block nBlocks).size := by
  rw [splitMemory, Memory.load_store_disjoint]
  · exact heap.load_writeHeader _ size.small
  · simp only [tailPart]
    omega

theorem splitMemory_outside (heap : Heap) (size : block.size = 16 + 16 * units block)
    (room : nBlocks + 2 ≤ units block) (outside : address < block.start ∨ block.stop ≤ address) :
    splitMemory heap block nBlocks address = heap.memory address := by
  rw [splitMemory, Memory.store_outside, heap.writeHeader_outside]
  · simp only [tailPart, Span.stop] at *
    omega
  · simp only [Span.stop] at *
    omega

namespace Layout

variable {heap : Heap} {blocks : List Span} {lists : FreeList → List Nat} {used : Nat → Prop}
  {block : Span}

/-- Every free list is shorter than the address of the bump pointer. -/
theorem length_le (layout : Layout heap blocks lists used) (list : FreeList) :
    (lists list).length ≤ heap.heapCurrent := by
  have subset : lists list ⊆ blocks.map userPtr := by
    intro p listed
    obtain ⟨-, block, member, isP, -⟩ := layout.listed list p listed
    exact List.mem_map.mpr ⟨block, member, isP⟩
  have shorter := (List.subperm_of_subset (layout.nodup list) subset).length_le
  have longest := layout.tiles.length_le layout.positive
  rw [List.length_map] at shorter
  omega

theorem splitTail (layout : Layout heap (before ++ block :: after) lists used)
    (inUse : used (userPtr block)) (positive : 1 ≤ nBlocks) (room : nBlocks + 2 ≤ units block) :
    ¬ used (userPtr (tailPart block nBlocks)) ∧
      Layout (Mm.splitTail heap (userPtr block) (units block) nBlocks)
        (before ++ frontPart block nBlocks :: tailPart block nBlocks :: after)
        (listing lists (tailPart block nBlocks)) used := by
  have member : block ∈ before ++ block :: after := by simp
  have size := layout.size_eq member
  have small := (layout.sizes block member).small
  rw [splitTail_eq heap size small room]
  have tailSize : BlockSize (tailPart block nBlocks).size := by
    refine ⟨?_, ?_, ?_⟩ <;> simp only [tailPart] <;> omega
  have carvedSize : BlockSize (frontPart block nBlocks).size := by
    refine ⟨?_, ?_, ?_⟩ <;> simp only [frontPart] <;> omega
  have cut : Layout { heap with memory := splitMemory heap block nBlocks }
      (before ++ frontPart block nBlocks :: tailPart block nBlocks :: after) lists
      fun q => q = userPtr (tailPart block nBlocks) ∨ used q :=
    layout.cut inUse carvedSize tailSize (load_front heap carvedSize)
      (load_tail heap tailSize)
      fun address outside => splitMemory_outside heap size room outside
  -- no block in use started inside the block that was split
  have unused : ¬ used (userPtr (tailPart block nBlocks)) := by
    intro taken
    obtain ⟨old, inBlocks, same⟩ := layout.owned _ taken
    have different : old ≠ block := by
      rintro rfl
      simp only [tailPart, userPtr] at same
      omega
    have apart := layout.tiles.apart inBlocks member different
    simp only [tailPart, userPtr, Span.stop] at *
    omega
  refine ⟨unused, (cut.push (by simp) (.inl rfl)).weaken fun p => ?_⟩
  constructor
  · rintro ⟨rfl | kept, different⟩
    · exact absurd rfl different
    · exact kept
  · intro kept
    refine ⟨.inr kept, ?_⟩
    rintro rfl
    exact unused kept

end Layout

end Zapada.Mm
