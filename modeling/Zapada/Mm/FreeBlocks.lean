import Zapada.Mm.HeapRuns

namespace Zapada.Mm

open Foundation Function List

namespace Layout

variable {heap : Heap} {blocks : List Span} {lists : FreeList → List Nat} {used : Nat → Prop}

/-- The search takes the best fit out of the overflow list, and the end of a block that is
split goes back to the lists. -/
theorem bucketPopOverflow_best_fit (layout : Layout heap blocks lists used) (nBlocks : Nat)
    (small : nBlocks * 20 < 2 ^ 32) :
    (bucketPopOverflow heap nBlocks = some (0, heap) ∧ ∀ p ∈ lists .overflow,
      ¬ (nBlocks ≤ heap.blocksAt p ∧ heap.blocksAt p ≤ nBlocks * 20 / 16)) ∨
    ∃ first rest before block after heap', lists .overflow = first ++ userPtr block :: rest ∧
      blocks = before ++ block :: after ∧
        bucketPopOverflow heap nBlocks = some (userPtr block, heap') ∧
      (units block = nBlocks ∨ nBlocks < units block ∧ units block ≤ nBlocks * 20 / 16 ∧
        ∀ p ∈ lists .overflow, nBlocks ≤ heap.blocksAt p → units block ≤ heap.blocksAt p) ∧
      (units block < nBlocks + 2 → Layout heap' blocks (update lists .overflow (first ++ rest))
        fun q => q = userPtr block ∨ used q) ∧
      (nBlocks + 2 ≤ units block → (frontPart block nBlocks).stop = (tailPart block nBlocks).start ∧
        (tailPart block nBlocks).stop = block.stop ∧
        Layout heap' (before ++ frontPart block nBlocks :: tailPart block nBlocks :: after)
          (listing (update lists .overflow (first ++ rest)) (tailPart block nBlocks))
          fun q => q = userPtr block ∨ used q) := by
  have sum_small : nBlocks + 2 < 2 ^ 32 := by omega
  have limit : u32 (nBlocks * 20) = nBlocks * 20 := Nat.mod_eq_of_lt small
  rcases layout.bucketPopOverflow_cases sum_small with
    ⟨none_fits, none_suits⟩ | ⟨first, rest, block, split, member, -, suits, least, popped⟩
  · refine .inl ⟨none_fits, fun p listed fits => none_suits p listed ?_⟩
    rw [Suits, limit]
    omega
  · have size := layout.size_eq member
    have larger := (layout.sizes block member).least
    obtain ⟨before, after, rfl⟩ := append_of_mem member
    rw [Suits, limit] at suits
    have positive : 1 ≤ nBlocks := by omega
    obtain ⟨whole, parts⟩ := layout.popOverflow_taken split positive
      (u64 (heap.freeBytes + 2 ^ 64 - u32 (units block * kheapBlockAlign)))
    refine .inr ⟨first, rest, before, block, after, _, split, rfl, popped,
      ?_, fun tight => ?_, fun room => ?_⟩
    · refine suits.imp_right fun fits => ⟨fits.1, fits.2, fun p listed enough => ?_⟩
      by_cases suited : heap.blocksAt p ≤ nBlocks * 20 / 16
      · refine least p listed ?_
        rw [Suits, limit]
        omega
      · omega
    · rw [if_neg (Nat.not_le.mpr tight)]
      exact whole
    · rw [if_pos room]
      refine ⟨rfl, ?_, (parts room).2⟩
      simp only [tailPart, Span.stop]
      omega

end Layout

/-- Of blocks of 80 and 100 units the search for 70 takes the first. -/
theorem bucketPopOverflow_best_fit_split : ∃ heap blocks lists used, Layout heap blocks lists used ∧
    lists .overflow = [0x100660, 0x100010] ∧ ∃ block heap',
      bucketPopOverflow heap 70 = some (userPtr block, heap') ∧
      userPtr block ∈ lists .overflow := by
  have found :
      ∃ final ∈ Machine.execute representable HeapSystem.step
        ⟨bootHeap 0x10000 0 0x100000 fun _ => 0, []⟩
      [.alloc 1600, .alloc 1280, .alloc 16, .free 0x100010, .free 0x100660],
      final.heap.overflowList = 0x100660 ∧ final.heap.freeNextPtr 0x100660 = 0x100010 ∧
      final.heap.freeNextPtr 0x100010 = 0 ∧ final.heap.blocksAt 0x100660 = 80 := by
    decide +kernel
  obtain ⟨system, run, head, second, last, units⟩ := Machine.Run.exists_of_execute _ found
  obtain ⟨blocks, lists, held, -⟩ := heap_held run
  have overflow : lists .overflow = [0x100660, 0x100010] := by
    refine (held.layout.chains .overflow).unique ?_
    simp [Chain.cons_iff, Chain.nil_iff, Heap.head, Heap.next, pointer, head, second, last]
  refine ⟨_, blocks, lists, _, held.layout, overflow, ?_⟩
  rcases held.layout.bucketPopOverflow_best_fit 70 (by decide) with
    ⟨-, none_fits⟩ | ⟨first, rest, -, block, -, heap', split, -, popped, -⟩
  · exact absurd (by simp [units]) (none_fits 0x100660 (by simp [overflow]))
  · exact ⟨block, heap', popped, by simp [split]⟩

def freeLists : List FreeList := (finRange nFastBuckets).map .bucket ++ [.overflow]

/-- The running total is the sum of the user sizes of all blocks on the free lists, and the
heap reports it together with the space above the bump pointer. -/
def FreeBytesExact (heap : Heap) : Prop :=
  ∃ lists : FreeList → List Nat, (∀ list, Chain heap.next (pointer (heap.head list)) (lists list)) ∧
    let total := ((freeLists.flatMap lists).map fun p => heap.blockSize p - kheapHeaderSize).sum
    heap.freeBytes = total ∧ kheapGetFreeBytes heap = total + (heap.heapEnd - heap.heapCurrent)

theorem mem_freeLists (list : FreeList) : list ∈ freeLists := by
  cases list <;> simp [freeLists]

namespace Layout

variable {heap : Heap} {blocks : List Span} {lists : FreeList → List Nat} {used : Nat → Prop}

open Classical in
theorem lists_perm (layout : Layout heap blocks lists used) :
    (freeLists.flatMap lists).Perm ((blocks.filter fun block => ¬ used (userPtr block)).map
      userPtr) := by
  have distinct : freeLists.Nodup := by decide
  refine (perm_ext_iff_of_nodup ?_ ?_).mpr fun p => ?_
  · refine nodup_flatMap.mpr ⟨fun list _ => layout.nodup list,
      distinct.imp fun different p one two => ?_⟩
    exact different (layout.list_unique one two)
  · refine ((layout.tiles.nodup layout.positive).filter _).map_on fun one inOne other inOther => ?_
    exact layout.user_inj (mem_of_mem_filter inOne) (mem_of_mem_filter inOther)
  · simp only [mem_flatMap, mem_freeLists, true_and, layout.mem_iff, mem_map, mem_filter,
      decide_eq_true_eq]
    constructor
    · rintro ⟨list, free, block, member, rfl, -⟩
      exact ⟨block, ⟨member, free⟩, rfl⟩
    · rintro ⟨block, ⟨member, free⟩, rfl⟩
      exact ⟨_, free, block, member, rfl, rfl⟩

theorem freeTotal_eq (layout : Layout heap blocks lists used) :
    ((freeLists.flatMap lists).map fun p => heap.blockSize p - kheapHeaderSize).sum =
      freeTotal blocks used := by
  rw [(layout.lists_perm.map _).sum_nat, map_map, freeTotal]
  refine congrArg sum (map_congr_left fun block kept => ?_)
  have member := mem_of_mem_filter kept
  have size := layout.size_eq member
  simp only [Function.comp, layout.blockSize_eq member, kheapHeaderSize]
  omega

end Layout

/-- As long as every request is representable the free bytes are exact. -/
theorem free_bytes_exact (heapSize minStart kernelEnd : UInt64) (memory : Memory)
    (run : ((heapMachine heapSize minStart kernelEnd memory).guarded representable).Run
      labels system) :
    FreeBytesExact system.heap := by
  obtain ⟨blocks, lists, held, booked⟩ := heap_held run
  refine ⟨lists, held.layout.chains, ?_⟩
  have most := Layout.freeTotal_le held.layout.tiles (· ∈ system.pointers)
  have bounded := held.layout.bounded
  have limit : system.heap.heapEnd < 2 ^ 64 := by
    rw [held.bounds.limit]
    exact Nat.mod_lt _ (by decide)
  have total : system.heap.freeBytes = _ := booked.trans held.layout.freeTotal_eq.symm
  refine ⟨total, ?_⟩
  rw [← total]
  rw [Booked, Layout.Balanced] at booked
  simp only [kheapGetFreeBytes, u64]
  split <;> omega

/-- Two allocations and the release of the lower block, in a heap of 64 KiB. -/
theorem free_bytes_exact_one_block :
    ∃ system, ((heapMachine 0x10000 0 0x100000 fun _ => 0).guarded representable).Run
        [.alloc 24, .alloc 2000, .free 0x100010] system ∧
      system.heap.freeBytes = 32 ∧ FreeBytesExact system.heap := by
  have found : ∃ final ∈ Machine.execute representable HeapSystem.step
      ⟨bootHeap 0x10000 0 0x100000 fun _ => 0, []⟩ [.alloc 24, .alloc 2000, .free 0x100010],
      final.heap.freeBytes = 32 := by
    decide +kernel
  obtain ⟨system, run, bytes⟩ := Machine.Run.exists_of_execute _ found
  exact ⟨system, run, bytes, free_bytes_exact 0x10000 0 0x100000 (fun _ => 0) run⟩

/-- In a heap of 16 GiB a block of 2^32 bytes is only a header; its link lies on the header
of the block above, which changes when the link does. -/
theorem free_bytes_diverge : ∃ system, (heapMachine 0x400000000 0 0x100000 fun _ => 0).Run
        [.alloc 1040, .alloc (2 ^ 32), .alloc 0x200000, .free 0x100010, .free 0x100430,
          .free 0x100440, .alloc 1040]
        system ∧ system.heap.freeBytes = 0x100000 ∧ ¬ FreeBytesExact system.heap := by
  have found :
      ∃ final ∈ [.alloc 1040, .alloc (2 ^ 32), .alloc 0x200000, .free 0x100010, .free 0x100430,
      .free 0x100440,
        .alloc 1040].foldlM HeapSystem.step ⟨bootHeap 0x400000000 0 0x100000 fun _ => 0, []⟩,
      final.heap.freeBytes = 0x100000 ∧ (∀ index, final.heap.freeBuckets index = 0) ∧
      final.heap.overflowList = 0x100440 ∧ final.heap.freeNextPtr 0x100440 = 0x100430 ∧
      final.heap.freeNextPtr 0x100430 = 0 ∧ final.heap.blockSize 0x100440 = 0 ∧
        final.heap.blockSize 0x100430 = 16 := by
    decide +kernel
  obtain ⟨system, executed, bytes, buckets, head, second, last, one, two⟩ := found
  refine ⟨system, Machine.Run.ofExecution _ executed, bytes, ?_⟩
  rintro ⟨lists, chains, total, -⟩
  have shown : lists = fun list => if list = .overflow then [0x100440, 0x100430] else [] := by
    funext list
    refine (chains list).unique ?_
    cases list with
    | bucket index => simp [Chain.nil_iff, Heap.head, pointer, buckets]
    | overflow =>
      simp [Chain.cons_iff, Chain.nil_iff, Heap.head, Heap.next, pointer, head, second, last]
  have all : freeLists.flatMap lists = [0x100440, 0x100430] := by
    rw [shown]
    decide
  simp [all, bytes, one, two, kheapHeaderSize] at total

end Zapada.Mm
