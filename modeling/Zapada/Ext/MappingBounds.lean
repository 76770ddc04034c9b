import Zapada.Ext.ExtVolumeReader

namespace Zapada.Ext.ExtVolumeReader

open Foundation Storage ExtLittleEndian List Option

variable {node : Buffer} {logicalBlock : Nat}

/-- An entry starts at or below the block. -/
def below (node : Buffer) (logicalBlock i : Nat) : Bool :=
  node.bytes.load (12 + i * 12) 4 ≤ logicalBlock

def covers (node : Buffer) (logicalBlock i : Nat) : Bool :=
  below node logicalBlock i &&
    logicalBlock < node.bytes.load (12 + i * 12) 4 +
      (node.bytes.load (12 + i * 12 + 4) 2 &&& 0x7FFF)

def childOf (node : Buffer) (i : Nat) : Nat :=
  node.bytes.load (12 + i * 12 + 4) 4 ||| node.bytes.load (12 + i * 12 + 8) 2 <<< 32

/-- The entries up to the first that holds the block lie in the leaf. -/
def LeafInside (node : Buffer) (logicalBlock : Nat) (entries : List Nat) : Prop :=
  ∀ i ∈ entries.take ((entries.takeWhile fun i => !covers node logicalBlock i).length + 1),
    24 + i * 12 ≤ node.length

/-- The starts of all entries, and the children at or below the block, lie in the index node. -/
def indexInside (node : Buffer) (logicalBlock : Nat) (entries : List Nat) : Bool :=
  entries.all fun i => (if below node logicalBlock i then 22 else 16) + i * 12 ≤ node.length

/-- Every node of the search that the reader accepts holds the entries it looks at. -/
def NodesInside (reader : ExtVolumeReader) (logicalBlock : Nat) : (levels : Nat) → Buffer → Prop
  | 0, _ => True
  | levels + 1, node =>
    let entries := List.range (node.bytes.load 2 2)
    node.bytes.load 0 2 = 0xF30A → entries.length ≤ 340 →
      if node.bytes.load 6 2 = 0 then LeafInside node logicalBlock entries
      else indexInside node logicalBlock entries = true ∧
        ∀ i ∈ (entries.filter (below node logicalBlock)).getLast?,
          ∀ child, reader.readBlock (childOf node i) = .ok child →
            NodesInside reader logicalBlock levels child

theorem readUInt16_outside (outside : buffer.length < offset + 2) :
    readUInt16 buffer offset = none := by
  have last : readByte buffer (offset + 1) = none := if_neg (by omega)
  simp [readUInt16, last]

theorem readUInt32_outside (outside : buffer.length < offset + 4) :
    readUInt32 buffer offset = none := by
  have last : readByte buffer (offset + 3) = none := if_neg (by omega)
  simp [readUInt32, readInt32, last]

theorem scanLeaf_inside (entries : List Nat) :
    scanLeaf node 0 logicalBlock entries ≠ none ↔ LeafInside node logicalBlock entries := by
  induction entries with
  | nil => simp [scanLeaf, LeafInside]
  | cons i rest ih =>
    simp only [scanLeaf, Nat.zero_add, Nat.add_zero]
    by_cases inside : 24 + i * 12 ≤ node.length
    · rw [readUInt32_eq (by omega), readUInt16_eq (by omega), readUInt16_eq (by omega),
        readUInt32_eq (by omega)]
      have same : (((node.bytes.load (12 + i * 12) 4 : Nat) : Int) ≤ logicalBlock ∧
          (logicalBlock : Int) < (node.bytes.load (12 + i * 12) 4 : Nat) +
            (node.bytes.load (12 + i * 12 + 4) 2 &&& 0x7FFF : Nat)) ↔
              covers node logicalBlock i = true := by
        simp only [covers, below, Bool.and_eq_true, decide_eq_true_eq]
        omega
      simp only [bind_eq_bind, bind_some, same]
      cases held : covers node logicalBlock i with
      | true => simp [LeafInside, held, inside]
      | false => simp [LeafInside, held, inside, ih]
    · rw [readUInt32_outside (show node.length < 12 + i * 12 + 8 + 4 by omega)]
      simp [LeafInside, inside]

theorem foldlM_selectEntry_inside (entries : List Nat) (selectedLeaf : Option Nat) :
    entries.foldlM (selectEntry node 0 logicalBlock) selectedLeaf =
      if indexInside node logicalBlock entries then
        some (((entries.filter (below node logicalBlock)).getLast?.map (childOf node)).or
          selectedLeaf)
      else none := by
  induction entries generalizing selectedLeaf with
  | nil => simp [indexInside]
  | cons i rest ih =>
    have round : selectEntry node 0 logicalBlock selectedLeaf i =
        if (if below node logicalBlock i then 22 else 16) + i * 12 ≤ node.length then
          some (if below node logicalBlock i then some (childOf node i) else selectedLeaf)
        else none := by
      simp only [selectEntry, Nat.zero_add, Nat.add_zero]
      by_cases start : 16 + i * 12 ≤ node.length
      · rw [readUInt32_eq (by omega)]
        have same : ((node.bytes.load (12 + i * 12) 4 : Nat) : Int) ≤ logicalBlock ↔
            below node logicalBlock i = true := by simp [below]
        simp only [bind_eq_bind, bind_some, same]
        cases isBelow : below node logicalBlock i with
        | false => simp [start]
        | true =>
          by_cases whole : 22 + i * 12 ≤ node.length
          · rw [readUInt32_eq (by omega), readUInt16_eq (by omega)]
            simp [whole, childOf]
          · rw [readUInt16_outside (show node.length < 12 + i * 12 + 8 + 2 by omega)]
            simp [whole]
      · rw [readUInt32_outside (by omega), if_neg (by split <;> omega)]
        rfl
    rw [foldlM_cons, round]
    by_cases inside : (if below node logicalBlock i then 22 else 16) + i * 12 ≤ node.length
    · simp only [inside, if_true, bind_eq_bind, bind_some, ih, indexInside,
        all_cons, decide_true,
        Bool.true_and]
      cases isBelow : below node logicalBlock i with
      | false => simp [isBelow]
      | true =>
        simp only [filter_cons_of_pos isBelow, List.getLast?_cons, if_true]
        cases (rest.filter (below node logicalBlock)).getLast? <;> rfl
    · simp [inside, indexInside]

theorem readBlock_length {reader : ExtVolumeReader} (read : reader.readBlock block = .ok child) :
    child.length = reader.superBlock.blockSize := by
  unfold readBlock at read
  simp only at read
  split_ifs at read
  all_goals cases read
  rfl

theorem mapExtentNode_inside (reader : ExtVolumeReader) (levels : Nat) (room : 8 ≤ node.length) :
    reader.mapExtentNode node 0 logicalBlock levels ≠ none ↔
      NodesInside reader logicalBlock levels node := by
  induction levels generalizing node with
  | zero => simp [mapExtentNode, NodesInside]
  | succ levels ih =>
    simp only [mapExtentNode, NodesInside, Nat.zero_add, length_range]
    rw [readUInt16_eq (by omega), readUInt16_eq (by omega), readUInt16_eq (by omega)]
    simp only [bind_eq_bind, bind_some]
    by_cases magic : node.bytes.load 0 2 = 0xF30A
    · by_cases few : node.bytes.load 2 2 ≤ 340
      · by_cases leaf : node.bytes.load 6 2 = 0
        · simp [magic, few, leaf, mapExtentLeaf, scanLeaf_inside, Nat.not_lt.mpr few]
        · simp only [magic, ne_eq, not_true_eq_false, if_false, Nat.not_lt.mpr few,
            leaf, selectLeaf,
            foldlM_selectEntry_inside, or_none, few, forall_const]
          cases inside : indexInside node logicalBlock (List.range (node.bytes.load 2 2)) with
          | false => simp
          | true =>
            simp only [if_true, bind_some, true_and]
            cases ((List.range (node.bytes.load 2 2)).filter
              (below node logicalBlock)).getLast? with
            | none => simp
            | some i =>
              simp only [map_some, mem_def, some.injEq, forall_eq']
              cases read : reader.readBlock (childOf node i) with
              | error readRc => simp
              | ok child =>
                obtain ⟨power, -, size⟩ := reader.superBlock.blockSize_cases
                have positive := Nat.two_pow_pos power
                simpa using ih (by rw [readBlock_length read, size]; omega)
      · simp [magic, few, Nat.not_le.mp few]
    · simp [magic]

theorem nodesInside_of_counts (reader : ExtVolumeReader) (levels : Nat)
    (blocks : ∀ block child, reader.readBlock block = .ok child →
      child.bytes.load 2 2 ≤ (reader.superBlock.blockSize - 12) / 12)
    (room : 12 + 12 * node.bytes.load 2 2 ≤ node.length) :
    NodesInside reader logicalBlock levels node := by
  induction levels generalizing node with
  | zero => trivial
  | succ levels ih =>
    have inside : ∀ i ∈ List.range (node.bytes.load 2 2), 24 + i * 12 ≤ node.length := by
      intro i member
      rw [mem_range] at member
      omega
    intro magic few
    split
    · exact fun i member => inside i (mem_of_mem_take member)
    · refine ⟨all_eq_true.mpr fun i member => ?_, fun i _ child read => ih ?_⟩
      · have whole := inside i member
        rw [decide_eq_true_eq]
        split <;> omega
      · have counted := blocks _ child read
        have length := readBlock_length read
        obtain ⟨power, -, size⟩ := reader.superBlock.blockSize_cases
        have positive := Nat.two_pow_pos power
        omega

theorem mapLogicalBlock_extents (reader : ExtVolumeReader) (inode : ExtInode) (logicalBlock : Nat) :
    reader.mapLogicalBlock (some inode) logicalBlock ≠ none ↔
      (inode.hasExtents = true → NodesInside reader logicalBlock 6 inode.blockMapBytes) := by
  simp only [mapLogicalBlock]
  rw [if_neg (by omega)]
  cases extents : inode.hasExtents with
  | true => simpa using mapExtentNode_inside reader 6 (show 8 ≤ 60 by decide)
  | false =>
    have pointer : ∀ index, index < 13 → inode.readBlockPointer index ≠ none := by
      intro index small
      rw [ExtInode.readBlockPointer, readUInt32_eq (show index * 4 + 3 < 60 by omega)]
      exact some_ne_none _
    simp only [Bool.false_eq_true, if_false, false_imp_iff, iff_true, mapClassicBlock]
    split
    · simpa using pointer logicalBlock (by omega)
    · split
      · obtain ⟨indirectBlock, isPointer⟩ := ne_none_iff_exists'.mp (pointer 12 (by decide))
        simp only [isPointer, bind_eq_bind, bind_some]
        split
        · simp
        · cases read : reader.readBlock indirectBlock with
          | error readRc => simp
          | ok block =>
            have length := readBlock_length read
            simp only
            rw [readUInt32_eq (by omega)]
            simp
      · simp

/-- The mapping stays inside the arrays exactly if every node of an extent search holds the
entries that the search looks at. It does where no node claims more entries than it has room
for: 4 in the block map, and 84, 169 or 340 in a block of 1, 2 or 4 KiB. -/
theorem mapLogicalBlock_inside_iff (reader : ExtVolumeReader) (inode : ExtInode)
    (logicalBlock : Nat) :
    (reader.mapLogicalBlock (some inode) logicalBlock ≠ none ↔
      (inode.hasExtents = true → NodesInside reader logicalBlock 6 inode.blockMapBytes)) ∧
    (inode.blockMapBytes.bytes.load 2 2 ≤ 4 →
      (∀ block child, reader.readBlock block = .ok child →
        child.bytes.load 2 2 ≤ (reader.superBlock.blockSize - 12) / 12) →
      reader.mapLogicalBlock (some inode) logicalBlock ≠ none) := by
  refine ⟨mapLogicalBlock_extents reader inode logicalBlock, fun root blocks => ?_⟩
  rw [mapLogicalBlock_extents]
  exact fun _ => nodesInside_of_counts reader 6 blocks (show 12 + 12 * _ ≤ 60 by omega)

/-- A root with five entries in its 60 bytes. -/
theorem mapLogicalBlock_root_outside :
    let root : ExtInode := ⟨ExtFeatureFlags.inodeFlagExtents, fun i => [0x0A, 0xF3, 5].getD i 0⟩
    mapLogicalBlock ⟨⟨none, 0, 0⟩, ⟨0, 0, 0, by decide⟩⟩ (some root) 0 = none := by
  decide +kernel

end Zapada.Ext.ExtVolumeReader
