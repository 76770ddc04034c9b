import Zapada.Zaclr.MetadataReader

namespace Zapada.Zaclr

open List

/-- The tables that the parent of a custom attribute can be in. -/
def standardHasCustomAttribute : Column :=
  .coded [0x06, 0x04, 0x01, 0x02, 0x08, 0x09, 0x0A, 0x00, 0x0E, 0x17, 0x14, 0x11, 0x1A, 0x1B, 0x20,
    0x23, 0x26, 0x27, 0x28, 0x2A, 0x2C, 0x2B] 5

/-- The tables of II.22 with their columns. The other coded indices are the reader's. -/
def standardTables : List (Nat × List Column) :=
  [(0x00, [.u16, .string, .guid, .guid, .guid]), (0x01, [resolutionScope, .string, .string]),
    (0x02, [.u32, .string, .string, typedefOrRef, .table 0x04, .table 0x06]),
      (0x04, [.u16, .string, .blob]),
    (0x06, [.u32, .u16, .u16, .string, .blob, .table 0x08]), (0x08, [.u16, .u16, .string]),
    (0x09, [.table 0x02, typedefOrRef]), (0x0A, [memberRefParent, .string, .blob]),
    (0x0B, [.u16, hasConstant, .blob]),
      (0x0C, [standardHasCustomAttribute, customAttributeType, .blob]),
    (0x0D, [hasFieldMarshal, .blob]), (0x0E, [.u16, hasDeclSecurity, .blob]),
      (0x0F, [.u16, .u32, .table 0x02]),
    (0x10, [.u32, .table 0x04]), (0x11, [.blob]), (0x12, [.table 0x02, .table 0x14]),
    (0x14, [.u16, .string, typedefOrRef]), (0x15, [.table 0x02, .table 0x17]),
      (0x17, [.u16, .string, .blob]),
    (0x18, [.u16, .table 0x06, hasSemantics]),
      (0x19, [.table 0x02, methodDefOrRef, methodDefOrRef]),
    (0x1A, [.string]), (0x1B, [.blob]), (0x1C, [.u16, memberForwarded, .string, .table 0x1A]),
    (0x1D, [.u32, .table 0x04]),
      (0x20, [.u32, .u16, .u16, .u16, .u16, .u32, .blob, .string, .string]),
    (0x21, [.u32]), (0x22, [.u32, .u32, .u32]),
    (0x23, [.u16, .u16, .u16, .u16, .u32, .blob, .string, .string, .blob]),
      (0x24, [.u32, .table 0x23]),
    (0x25, [.u32, .u32, .u32, .table 0x23]), (0x26, [.u32, .string, .blob]),
    (0x27, [.u32, .u32, .string, .string, implementation]),
      (0x28, [.u32, .u32, .string, implementation]),
    (0x29, [.table 0x02, .table 0x02]), (0x2A, [.u16, .u16, typeOrMethodDef, .string]),
    (0x2B, [methodDefOrRef, .blob]), (0x2C, [.table 0x2A, typedefOrRef])]

/-- The tables that a column refers to, and the bits of its tag. -/
def Column.targets : Column → List Nat × Nat
  | .table id => ([id], 0)
  | .coded tables tagBits => (tables, tagBits)
  | _ => ([], 0)

/-- The tag and the rows of all the tables fit into two bytes. -/
def Column.Narrow (shape : MetadataShape) (column : Column) : Prop :=
  ∀ table ∈ column.targets.1, shape.rowCounts table < 2 ^ (16 - column.targets.2)

instance (shape : MetadataShape) (column : Column) : Decidable (column.Narrow shape) :=
  inferInstanceAs (Decidable (∀ table ∈ column.targets.1, _))

def Column.standardWidth (shape : MetadataShape) (column : Column) : Nat :=
  match column with
  | .table _ | .coded _ _ => if column.Narrow shape then 2 else 4
  | column => column.width shape

def standardRowSize (shape : MetadataShape) (columns : List Column) : Nat :=
  (columns.map (Column.standardWidth shape)).sum

/-- When the reader's rows have the prescribed size. -/
def RowAgrees (shape : MetadataShape) : (table : Nat) → Prop
  | 0x0C => hasCustomAttribute.Narrow shape → shape.rowCounts 0x28 < 2 ^ 11
  | 0x22 => shape.heapIndexSize 0x01 = 2 ∧ shape.heapIndexSize 0x04 = 2
  | 0x24 | 0x25 => False
  | _ => True

variable {shape : MetadataShape}

theorem maxRowsForTables_lt_iff (shape : MetadataShape) (tables : List Nat)
    (known : ∀ table ∈ tables, table < maxTables) (positive : 0 < bound) :
    shape.maxRowsForTables tables < bound ↔ ∀ table ∈ tables, shape.rowCounts table < bound := by
  -- the greatest count so far stays below the bound
  have folded : ∀ start, tables.foldl (fun maxRows table =>
      if table < maxTables ∧ maxRows < shape.rowCounts table then
        shape.rowCounts table else maxRows) start < bound ↔
        start < bound ∧ ∀ table ∈ tables, shape.rowCounts table < bound := by
    induction tables with
    | nil => simp
    | cons table rest ih =>
      intro start
      have here := known table mem_cons_self
      rw [foldl_cons, ih fun other member => known other (mem_cons_of_mem table member)]
      simp only [here, true_and, forall_mem_cons, ← and_assoc]
      refine and_congr_left fun _ => ?_
      split <;> omega
  rw [MetadataShape.maxRowsForTables, folded]
  exact and_iff_right positive

theorem Column.width_standard (column : Column)
    (known : ∀ table ∈ column.targets.1, table < maxTables) :
    column.width shape = column.standardWidth shape := by
  cases column with
  | table id =>
    have here := known id mem_cons_self
    simp only [width, standardWidth, Narrow, targets, MetadataShape.tableIndexSize,
      mem_singleton, forall_eq]
    split_ifs <;> omega
  | coded tables tagBits =>
    have fits := maxRowsForTables_lt_iff shape tables known (Nat.two_pow_pos (16 - tagBits))
    simp only [width, standardWidth, Narrow, targets, MetadataShape.codedIndexSize,
      Nat.one_shiftLeft, ← fits]
    split_ifs <;> omega
  | _ => rfl

theorem standardRowSize_eq
    (known : ∀ column ∈ columns, ∀ table ∈ column.targets.1, table < maxTables) :
    standardRowSize shape columns = columnsWidth shape columns := by
  rw [standardRowSize, columnsWidth, map_congr_left fun column member => ?_]
  exact (column.width_standard (known column member)).symm

theorem standardHasCustomAttribute_narrow : standardHasCustomAttribute.Narrow shape ↔
    hasCustomAttribute.Narrow shape ∧ shape.rowCounts 0x28 < 2 ^ 11 := by
  constructor
  · intro small
    have others : ∀ table ∈ hasCustomAttribute.targets.1,
      table ∈ standardHasCustomAttribute.targets.1 := by decide
    exact ⟨fun table member => small table (others table member), small 0x28 (by decide)⟩
  · rintro ⟨small, resources⟩ table member
    have split : ∀ table ∈ standardHasCustomAttribute.targets.1, table = 0x28 ∨
        table ∈ hasCustomAttribute.targets.1 := by decide
    rcases split table member with rfl | other
    · exact resources
    · exact small table other

theorem hasCustomAttribute_width_iff :
    hasCustomAttribute.width shape = standardHasCustomAttribute.width shape ↔
    (hasCustomAttribute.Narrow shape → shape.rowCounts 0x28 < 2 ^ 11) := by
  rw [Column.width_standard _ (by decide), Column.width_standard _ (by decide)]
  change (if hasCustomAttribute.Narrow shape then 2 else 4) =
    (if standardHasCustomAttribute.Narrow shape then 2 else 4) ↔ _
  rw [if_congr standardHasCustomAttribute_narrow rfl rfl]
  by_cases small : hasCustomAttribute.Narrow shape <;> simp [small]

/-- The reader's rows have the prescribed size just if the counts and the heaps allow it. -/
theorem tableRowSize_standard_iff (shape : MetadataShape) (table : Nat) (columns : List Column)
    (listed : (table, columns) ∈ standardTables) :
    tableRowSize shape table = standardRowSize shape columns ↔ RowAgrees shape table := by
  have references : 2 ≤ shape.tableIndexSize 0x26 ∧ shape.tableIndexSize 0x23 ≤ 4 := by
    simp only [MetadataShape.tableIndexSize]
    split_ifs <;> decide
  have heaps : ∀ heapBit, 2 ≤ shape.heapIndexSize heapBit := by
    intro heapBit
    unfold MetadataShape.heapIndexSize
    split <;> decide
  have strings := heaps 0x01
  have blobs := heaps 0x04
  have known : ∀ entry ∈ standardTables, ∀ column ∈ entry.2, ∀ table ∈ column.targets.1,
    table < maxTables := by decide
  rw [tableRowSize, standardRowSize_eq (known _ listed)]
  by_cases special : table ∈ [0x0C, 0x22, 0x24, 0x25]
  · simp only [mem_cons, not_mem_nil, or_false] at special
    rcases special with rfl | rfl | rfl | rfl
    · obtain rfl : columns = [standardHasCustomAttribute, customAttributeType, .blob] := by
        simpa [standardTables] using listed
      refine Iff.trans ?_ hasCustomAttribute_width_iff
      simp [tableColumns, columnsWidth]
    · obtain rfl : columns = [.u32, .u32, .u32] := by simpa [standardTables] using listed
      simp only [tableColumns, columnsWidth, Column.width, RowAgrees, map_cons, map_nil, sum_cons,
        sum_nil]
      omega
    · obtain rfl : columns = [.u32, .table 0x23] := by simpa [standardTables] using listed
      refine iff_of_false ?_ id
      simp only [tableColumns, columnsWidth, Column.width, map_cons, map_nil, sum_cons, sum_nil]
      omega
    · obtain rfl : columns = [.u32, .u32, .u32, .table 0x23] := by
        simpa [standardTables] using listed
      refine iff_of_false ?_ id
      simp only [tableColumns, columnsWidth, Column.width, map_cons, map_nil, sum_cons, sum_nil]
      omega
  · have same : ∀ entry ∈ standardTables, entry.1 ∉ [0x0C, 0x22, 0x24, 0x25] →
      tableColumns entry.1 = entry.2 := by
      decide
    have agrees : RowAgrees shape table := by
      unfold RowAgrees
      split <;> simp_all
    rw [same _ listed special]
    exact iff_of_true rfl agrees

/-- Narrow heaps and a number of resources, nothing else. -/
def resourcesOnly (resources : Nat) : MetadataShape :=
  ⟨0, fun table => if table = 0x28 then resources else 0⟩

theorem rowSize_few_resources : tableRowSize (resourcesOnly 2047) 0x0C =
    standardRowSize (resourcesOnly 2047) [standardHasCustomAttribute, customAttributeType, .blob] :=
  (tableRowSize_standard_iff (resourcesOnly 2047) 0x0C _ (by decide)).mpr fun _ => by decide

/-- With 2048 resources the rows of the custom attributes are read as 6 bytes instead of 8. -/
theorem rowSize_many_resources :
    (0x0C, [standardHasCustomAttribute, customAttributeType, .blob]) ∈ standardTables ∧
    tableRowSize (resourcesOnly 2048) 0x0C = 6 ∧
    standardRowSize (resourcesOnly 2048) [standardHasCustomAttribute, customAttributeType, .blob] =
      8 := by
  decide

end Zapada.Zaclr
