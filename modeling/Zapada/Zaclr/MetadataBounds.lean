import Zapada.Zaclr.MetadataReader
import Zapada.Foundation.Fallible

namespace Zapada.Zaclr

open Foundation Function

def Slice.Within (inner outer : Slice) : Prop :=
  outer.data ≤ inner.data ∧ inner.data + inner.size ≤ outer.data + outer.size

/-- The bytes that a getter reads, for the row that it starts at `p`. -/
def RowGetter.extent (getter : RowGetter) (shape : MetadataShape) (p : Nat) : Slice :=
  ⟨p, columnsWidth shape getter.columns⟩

/-- Every row of a getter's table that the count announces is read inside the `#~` stream. -/
def MetadataReader.RowsInside (reader : MetadataReader) (getter : RowGetter) : Prop :=
  ∀ row, 1 ≤ row → row ≤ reader.rowCounts getter.table →
    ∃ p, getter.start reader.tables row = .ok p ∧
      (getter.extent reader.toMetadataShape p).Within reader.tildeStream

/-- Rows, strings and blobs are read inside their stream or their heap. -/
structure MetadataReader.Bounded (reader : MetadataReader) (memory : Memory) : Prop where
  rows : ∀ getter ∈ rowGetters, reader.RowsInside getter
  strings : ∀ index slice, reader.getString memory index = .ok slice →
    ∃ heap, reader.stringsHeap = some heap ∧ slice.Within heap
  blobs : ∀ index slice, reader.getBlob memory index = .ok slice →
    ∃ heap, reader.blobHeap = some heap ∧ slice.Within heap

def validMask (memory : Memory) (tilde : Slice) : BitVec 64 :=
  BitVec.ofNat 64 (readU32 memory (tilde.data + 8) ||| readU32 memory (tilde.data + 12) <<< 32)

/-- The number of tables before `table` that have a row count. -/
def countsBefore (mask : BitVec 64) (table : Nat) : Nat := (List.range table).countP mask.getLsbD

/-- The row counts stand one after the other, without a place for the absent tables. -/
def announcedShape (memory : Memory) (tilde : Slice) : MetadataShape where
  heapSizes := (memory (tilde.data + 6)).toBitVec
  rowCounts table :=
    if (validMask memory tilde).getLsbD table then
      readU32 memory (tilde.data + 24 + 4 * countsBefore (validMask memory tilde) table)
    else 0

/-- No table that has a getter needs 2^32 bytes or more. -/
def FitsTables (shape : MetadataShape) : Prop :=
  ∀ getter ∈ rowGetters, tableRowSize shape getter.table * shape.rowCounts getter.table < 2 ^ 32

instance (shape : MetadataShape) : Decidable (FitsTables shape) :=
  inferInstanceAs (Decidable (∀ getter ∈ rowGetters, _))

section Loops

variable {memory : Memory} {tilde : Slice} {mask : BitVec 64}

theorem countsBefore_succ (mask : BitVec 64) (table : Nat) :
    countsBefore mask (table + 1) = countsBefore mask table + if mask.getLsbD table then
      1 else 0 := by
  simp [countsBefore, List.range_succ]

theorem readRowCounts_announced (first : Nat)
    (read : readRowCounts memory tilde (validMask memory tilde) (List.range' first count)
      (tilde.data + 24 + 4 * countsBefore (validMask memory tilde) first) counts = .ok (p, counts'))
    (known : ∀ table, table < first ∨ (validMask memory tilde).getLsbD table = false →
      counts table = (announcedShape memory tilde).rowCounts table) :
    tilde.data ≤ p ∧ ∀ table, table < first + count ∨
      (validMask memory tilde).getLsbD table = false →
      counts' table = (announcedShape memory tilde).rowCounts table := by
  induction count generalizing first counts with
  | zero =>
    obtain ⟨rfl, rfl⟩ := read
    exact ⟨by omega, known⟩
  | succ count ih =>
    rw [List.range'_succ, readRowCounts] at read
    have next := countsBefore_succ (validMask memory tilde) first
    cases present : (validMask memory tilde).getLsbD first with
    | true =>
      rw [if_pos present] at read
      obtain ⟨-, read⟩ := passed_check read
      rw [present, if_pos rfl] at next
      have place : tilde.data + 24 + 4 * countsBefore (validMask memory tilde) first + 4 =
          tilde.data + 24 + 4 * countsBefore (validMask memory tilde) (first + 1) := by omega
      rw [place] at read
      rw [show first + (count + 1) = first + 1 + count by omega]
      refine ih (first + 1) read ?_
      intro table before
      by_cases here : table = first
      · subst here
        simp [announcedShape, if_pos present]
      · rw [update_of_ne here]
        exact known table (before.imp (by omega) id)
    | false =>
      rw [if_neg (by simp [present])] at read
      simp only [present, Bool.false_eq_true, if_false, Nat.add_zero] at next
      rw [← next] at read
      rw [show first + (count + 1) = first + 1 + count by omega]
      refine ih (first + 1) read ?_
      intro table before
      by_cases here : table = first
      · exact known table (.inr (here ▸ present))
      · exact known table (before.imp (by omega) id)

/-- Where the placing loop puts a table: in the stream as far as the product of 32 bits tells. -/
def PlacedIn (shape : MetadataShape) (tilde : Slice) (table : Nat)
    (view : Option TableView) : Prop :=
  ∃ rows, view = some ⟨rows, tableRowSize shape table, shape.rowCounts table⟩ ∧ tilde.data ≤ rows ∧
    rows + tableRowSize shape table * shape.rowCounts table % 2 ^ 32 ≤ tilde.data + tilde.size

theorem placeTables_placed
    (placed : placeTables shape tilde mask tables p views = .ok views') (low : tilde.data ≤ p)
    (before : ∀ table, mask.getLsbD table → table ∉ tables →
      PlacedIn shape tilde table (views table)) :
    ∀ table, mask.getLsbD table → PlacedIn shape tilde table (views' table) := by
  induction tables generalizing p views with
  | nil =>
    simp only [placeTables, Except.ok.injEq] at placed
    subst placed
    exact fun table valid => before table valid (by simp)
  | cons head rest ih =>
    rw [placeTables] at placed
    by_cases present : mask.getLsbD head = true
    · rw [if_pos present] at placed
      obtain ⟨-, placed⟩ := passed_check placed
      obtain ⟨room, placed⟩ := passed_check placed
      refine ih placed (by omega) ?_
      intro table valid absent
      by_cases here : table = head
      · subst here
        rw [update_self]
        exact ⟨p, rfl, low, by omega⟩
      · rw [update_of_ne here]
        exact before table valid (by simp [here, absent])
    · rw [if_neg present] at placed
      refine ih placed low ?_
      intro table valid absent
      have different : table ≠ head := fun same => present (same ▸ valid)
      exact before table valid (by simp [different, absent])

/-- A slice that the root of `size` bytes holds. -/
def Slice.InRoot (size : Nat) (slice : Slice) : Prop :=
  slice.size < 2 ^ 32 ∧ slice.data + slice.size ≤ size

/-- The streams found so far lie in the root. -/
def Streams.InRoot (size : Nat) (streams : Streams) : Prop :=
  ∀ slice, streams.strings = some slice ∨ streams.blob = some slice ∨
    streams.userString = some slice ∨
    streams.tilde = some slice → slice.InRoot size

theorem readStreams_inRoot (read : readStreams memory size count p streams = .ok streams')
    (inside : streams.InRoot size) : streams'.InRoot size := by
  induction count generalizing p streams with
  | zero =>
    simp only [readStreams, Except.ok.injEq] at read
    exact read ▸ inside
  | succ count ih =>
    obtain ⟨-, read⟩ := passed_check read
    split at read
    · cases read
    · obtain ⟨-, read⟩ := passed_check read
      obtain ⟨room, read⟩ := passed_check read
      have found : Slice.InRoot size ⟨readU32 memory p, readU32 memory (p + 4)⟩ :=
        ⟨memory.load_lt (p + 4) 4, by simpa using room⟩
      refine ih read ?_
      intro slice one
      have old := inside slice
      -- a header replaces at most one of the four streams
      split_ifs at one <;> grind

end Loops

section Accepted

variable {memory : Memory} {reader : MetadataReader}

theorem parseTildeStream_ok (parsed : parseTildeStream memory streams tilde = .ok reader) :
    reader.tildeStream = tilde ∧ reader.stringsHeap = streams.strings ∧
      reader.blobHeap = streams.blob ∧ reader.heapSizes = (announcedShape memory tilde).heapSizes ∧
      ∃ p, readRowCounts memory tilde (validMask memory tilde) (List.range maxTables)
          (tilde.data + 24) (fun _ => 0) = .ok (p, reader.rowCounts) ∧
        placeTables reader.toMetadataShape tilde (validMask memory tilde) (List.range maxTables) p
          (fun _ => none) = .ok reader.tables := by
  obtain ⟨-, parsed⟩ := passed_check parsed
  obtain ⟨⟨p, counts⟩, counted, parsed⟩ := bind_eq_ok parsed
  obtain ⟨tables, placed, parsed⟩ := bind_eq_ok parsed
  obtain ⟨row, -, parsed⟩ := bind_eq_ok parsed
  cases parsed
  exact ⟨rfl, rfl, rfl, rfl, p, counted, placed⟩

theorem initializeMetadata_ok (accepted : initializeMetadata memory size = .ok reader) :
    ∃ streams : Streams, streams.InRoot size ∧ streams.tilde = some reader.tildeStream ∧
      parseTildeStream memory streams reader.tildeStream = .ok reader := by
  obtain ⟨-, accepted⟩ := passed_check accepted
  obtain ⟨-, accepted⟩ := passed_check accepted
  obtain ⟨-, accepted⟩ := passed_check accepted
  obtain ⟨streams, read, accepted⟩ := bind_eq_ok accepted
  have inside : streams.InRoot size := by
    apply readStreams_inRoot read
    intro slice one
    simp at one
  split at accepted
  · cases accepted
  · rename_i tilde found
    have same := (parseTildeStream_ok accepted).1
    subst same
    exact ⟨streams, inside, found, accepted⟩

theorem readRowCounts_all
    (read : readRowCounts memory tilde (validMask memory tilde) (List.range maxTables)
      (tilde.data + 24) (fun _ => 0) = .ok (p, counts)) :
    tilde.data ≤ p ∧ counts = (announcedShape memory tilde).rowCounts := by
  rw [List.range_eq_range'] at read
  have none : ∀ table, table < 0 ∨ (validMask memory tilde).getLsbD table = false →
      0 = (announcedShape memory tilde).rowCounts table := by
    rintro table (below | absent)
    · omega
    · simp [announcedShape, absent]
  obtain ⟨low, known⟩ := readRowCounts_announced 0 read none
  refine ⟨low, funext fun table => known table ?_⟩
  by_cases small : table < maxTables
  · exact .inl (by omega)
  · exact .inr (BitVec.getLsbD_of_ge _ _ (by simpa [maxTables] using small))

/-- The widths and the counts of an accepted file are those that its header announces. -/
theorem initializeMetadata_shape (accepted : initializeMetadata memory size = .ok reader) :
    reader.toMetadataShape = announcedShape memory reader.tildeStream := by
  obtain ⟨streams, -, -, parsed⟩ := initializeMetadata_ok accepted
  obtain ⟨-, -, -, heaps, p, counted, -⟩ := parseTildeStream_ok parsed
  exact MetadataShape.ext heaps (readRowCounts_all counted).2

theorem initializeMetadata_placed (accepted : initializeMetadata memory size = .ok reader)
    (rows : reader.rowCounts table ≠ 0) :
    PlacedIn reader.toMetadataShape reader.tildeStream table (reader.tables table) := by
  obtain ⟨streams, -, -, parsed⟩ := initializeMetadata_ok accepted
  obtain ⟨-, -, -, -, p, counted, placed⟩ := parseTildeStream_ok parsed
  obtain ⟨low, counts⟩ := readRowCounts_all counted
  have present : (validMask memory reader.tildeStream).getLsbD table := by
    by_contra absent
    simp [counts, announcedShape, absent] at rows
  refine placeTables_placed placed low ?_ table present
  intro other valid outside
  have beyond : 64 ≤ other := by simpa [maxTables] using outside
  rw [BitVec.getLsbD_of_ge _ _ beyond] at valid
  cases valid

theorem rowGetters_columns : ∀ getter ∈ rowGetters, getter.columns = tableColumns getter.table := by
  decide

theorem extent_tableRowSize (member : getter ∈ rowGetters) (shape : MetadataShape) (p : Nat) :
    getter.extent shape p = ⟨p, tableRowSize shape getter.table⟩ := by
  rw [RowGetter.extent, rowGetters_columns getter member, tableRowSize]

theorem start_placed (view : tables getter.table = some ⟨rows, rowSize, rowCount⟩) (low : 1 ≤ row)
    (high : row ≤ rowCount) :
    RowGetter.start getter tables row = .ok (rows + (row - 1) * rowSize % 2 ^ 32) := by
  simp only [RowGetter.start, view]
  rw [if_neg (by omega)]

theorem rowsInside_of_fits (accepted : initializeMetadata memory size = .ok reader)
    (member : getter ∈ rowGetters)
    (fits : tableRowSize reader.toMetadataShape getter.table * reader.rowCounts
      getter.table < 2 ^ 32) :
    reader.RowsInside getter := by
  intro row low high
  have some_rows : reader.rowCounts getter.table ≠ 0 := by omega
  obtain ⟨rows, view, above, below⟩ := initializeMetadata_placed accepted some_rows
  refine ⟨_, start_placed view low high, ?_⟩
  rw [extent_tableRowSize member]
  -- the last byte of the row comes before the end of the table
  have last : (row - 1) * tableRowSize reader.toMetadataShape getter.table +
      tableRowSize reader.toMetadataShape getter.table ≤
      tableRowSize reader.toMetadataShape getter.table * reader.rowCounts getter.table := by
    rw [← Nat.succ_mul, Nat.mul_comm]
    exact Nat.mul_le_mul_left _ (by omega)
  constructor
  · simp only
    omega
  · simp only
    omega

theorem row_across (large : 2 ^ 32 ≤ rowSize * rowCount) :
    ∃ before, before < rowCount ∧ before * rowSize < 2 ^ 32 ∧
      2 ^ 32 ≤ before * rowSize + rowSize := by
  have some_width : 0 < rowSize := by
    apply Nat.pos_of_ne_zero
    rintro rfl
    simp at large
  have rest := Nat.lt_div_mul_add some_width (a := 2 ^ 32 - 1)
  have start : (2 ^ 32 - 1) / rowSize * rowSize ≤ 2 ^ 32 - 1 := Nat.div_mul_le_self _ _
  refine ⟨(2 ^ 32 - 1) / rowSize, ?_, by omega, by omega⟩
  rw [Nat.div_lt_iff_lt_mul some_width, Nat.mul_comm]
  omega

theorem fits_of_rowsInside (accepted : initializeMetadata memory size = .ok reader)
    (member : getter ∈ rowGetters) (inside : reader.RowsInside getter) :
    tableRowSize reader.toMetadataShape getter.table * reader.rowCounts getter.table < 2 ^ 32 := by
  obtain ⟨streams, inRoot, found, -⟩ := initializeMetadata_ok accepted
  have small : reader.tildeStream.size < 2 ^ 32 := (inRoot _ (by simp [found])).1
  by_contra large
  obtain ⟨before, counted, low, high⟩ := row_across (Nat.le_of_not_lt large)
  obtain ⟨p, started, -, below⟩ := inside (before + 1) (by omega) (by omega)
  have some_rows : reader.rowCounts getter.table ≠ 0 := by omega
  obtain ⟨rows, view, above, -⟩ := initializeMetadata_placed accepted some_rows
  have placed :
      getter.start reader.tables (before + 1) = .ok (rows + (before + 1 - 1) * _ % 2 ^ 32) :=
    start_placed view (by omega) counted
  rw [placed, Nat.add_sub_cancel, Nat.mod_eq_of_lt low, Except.ok.injEq] at started
  rw [extent_tableRowSize member] at below
  simp only at below
  omega

theorem getString_within (found : reader.getString memory index = .ok slice) :
    ∃ heap, reader.stringsHeap = some heap ∧ slice.Within heap := by
  unfold MetadataReader.getString at found
  split at found
  · cases found
  · rename_i heap heapFound
    obtain ⟨-, found⟩ := passed_check found
    split at found
    · cases found
    · obtain ⟨inside, found⟩ := passed_check found
      cases found
      exact ⟨heap, heapFound, by simp only [Slice.Within]; omega⟩

theorem getBlob_within (found : reader.getBlob memory index = .ok slice) :
    ∃ heap, reader.blobHeap = some heap ∧ slice.Within heap := by
  unfold MetadataReader.getBlob at found
  split at found
  · cases found
  · rename_i heap heapFound
    obtain ⟨-, found⟩ := passed_check found
    obtain ⟨⟨length, payloadOffset⟩, -, found⟩ := bind_eq_ok found
    obtain ⟨inside, found⟩ := passed_check found
    cases found
    exact ⟨heap, heapFound, by simp only [Slice.Within]; omega⟩

end Accepted

/-- An accepted file is read inside its streams exactly when no table that has a getter
announces 2^32 bytes or more. -/
theorem metadata_bounded_iff {memory : Memory} {reader : MetadataReader}
    (accepted : initializeMetadata memory size = .ok reader) :
    reader.Bounded memory ↔ FitsTables (announcedShape memory reader.tildeStream) := by
  rw [← initializeMetadata_shape accepted]
  constructor
  · intro bounded getter member
    exact fits_of_rowsInside accepted member (bounded.rows getter member)
  · intro fits
    exact {
      rows := fun getter member => rowsInside_of_fits accepted member (fits getter member)
      strings := fun _ _ found => getString_within found
      blobs := fun _ _ found => getBlob_within found }

/-- A root of 64 bytes: the signature, one stream header, and a `#~` stream whose only
table holds nested classes, `counts` of them; there is room for one. -/
def nestedClassesRoot (counts : List UInt8) : Memory := fun i =>
  ([0x42, 0x53, 0x4A, 0x42] ++ List.replicate 14 0 ++ [1, 0] ++
    [32, 0, 0, 0] ++ [32, 0, 0, 0] ++ [0x23, 0x7E, 0, 0] ++
    List.replicate 13 0 ++ [0x02] ++ List.replicate 10 0 ++ counts ++ List.replicate 4 1).getD i 0

theorem nestedClassesRoot_accepted (memory : Memory)
    (facts : ((initializeMetadata memory 64).toOption.map fun reader =>
      (reader.tildeStream, reader.rowCounts 0x29,
        (nestedclassRow.start reader.tables 2).toOption)) =
        some (tilde, count, start)) :
    ∃ reader, initializeMetadata memory 64 = .ok reader ∧ reader.tildeStream = tilde ∧
      reader.rowCounts 0x29 = count ∧ (nestedclassRow.start reader.tables 2).toOption = start := by
  cases accepted : initializeMetadata memory 64 with
  | error failure => rw [accepted] at facts; cases facts
  | ok reader =>
    simp only [accepted, Except.toOption, Option.map_some, Option.some.injEq,
      Prod.mk.injEq] at facts
    exact ⟨reader, rfl, facts⟩

/-- One nested class is read inside the stream. -/
theorem metadata_bounded_one :
    ∃ reader, initializeMetadata (nestedClassesRoot [1, 0, 0, 0]) 64 = .ok reader ∧
    reader.Bounded (nestedClassesRoot [1, 0, 0, 0]) := by
  obtain ⟨reader, accepted, tilde, -⟩ := nestedClassesRoot_accepted (nestedClassesRoot [1, 0, 0, 0])
    (by decide +kernel : _ = some (⟨32, 32⟩, 1, none))
  refine ⟨reader, accepted, (metadata_bounded_iff accepted).mpr ?_⟩
  rw [tilde]
  decide +kernel

/-- With 2^30 of them the bytes needed wrap to zero, and the second row lies behind the
root. -/
theorem metadata_unbounded :
    ∃ reader, initializeMetadata (nestedClassesRoot [0, 0, 0, 0x40]) 64 = .ok reader ∧
      ¬ reader.Bounded (nestedClassesRoot [0, 0, 0, 0x40]) := by
  obtain ⟨reader, accepted, tilde, count, start⟩ :=
    nestedClassesRoot_accepted (nestedClassesRoot [0, 0, 0, 0x40])
      (by decide +kernel : _ = some (⟨32, 32⟩, 0x40000000, some 64))
  refine ⟨reader, accepted, fun bounded => ?_⟩
  obtain ⟨p, started, -, below⟩ := bounded.rows nestedclassRow (by decide) 2 (by decide)
    (by rw [show nestedclassRow.table = 0x29 from rfl, count]; decide)
  rw [started] at start
  cases start
  have wide : 0 < columnsWidth reader.toMetadataShape nestedclassRow.columns := by
    simp only [columnsWidth, nestedclassRow, List.map_cons, List.map_nil, List.sum_cons,
      Column.width,
      MetadataShape.tableIndexSize]
    split_ifs <;> decide
  rw [tilde, RowGetter.extent] at below
  simp only at below
  omega

end Zapada.Zaclr
