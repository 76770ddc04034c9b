import Zapada.Initramfs.Cpio

namespace Zapada.Initramfs

open Foundation Memory

theorem length_hexField (upper : Bool) (len value : Nat) :
    (hexField upper len value).length = len := by
  induction len generalizing value with
  | zero => rfl
  | succ len ih => simp [hexField, ih]

theorem hexDigit_hexChar (upper : Bool) :
    ∀ digit < 16, hexDigit (hexChar upper digit) = some digit := by
  cases upper <;> decide

theorem parseHexDigits_hexField
    (shown : archive.Shows ptr (hexField upper len value)) (fits : value < 16 ^ len)
    (short : len ≤ 8) : parseHexDigits archive ptr len = some value := by
  induction len generalizing value with
  | zero =>
    have zero : value = 0 := by simpa using fits
    rw [parseHexDigits, zero]
  | succ len ih =>
    rw [hexField, shows_append, length_hexField, shows_singleton] at shown
    have front : value / 16 < 16 ^ len := by
      omega
    have small : value / 16 < 2 ^ 28 := by
      have bound : 16 ^ len ≤ 16 ^ 7 := Nat.pow_le_pow_right (by decide) (by omega)
      omega
    have whole : 2 ^ 4 * (value / 16) ||| value % 16 = value := by
      rw [← Nat.two_pow_add_eq_or_of_lt (by omega)]
      omega
    have shifted : u32 ((value / 16) <<< 4) = 2 ^ 4 * (value / 16) := by
      simp only [u32, Nat.shiftLeft_eq]
      omega
    rw [parseHexDigits, ih shown.1 front (by omega), shown.2,
      hexDigit_hexChar upper _ (Nat.mod_lt _ (by decide))]
    simp only [shifted, whole]

theorem cpioParseHex_hexField
    (shown : archive.Shows ptr (hexField upper 8 value)) (fits : value < 2 ^ 32) :
    cpioParseHex archive ptr 8 = some value := by
  exact parseHexDigits_hexField shown (by omega) (by omega)

theorem cpioStrcmp_eq_false (noNul : 0 ∉ text) : cpioStrcmp archive a text = false ↔
      archive.Shows a (text ++ [0]) := by
  induction text generalizing a with
  | nil => simp [cpioStrcmp, shows_singleton]
  | cons c text ih =>
    have rest : 0 ∉ text := fun member => noNul (List.mem_cons_of_mem _ member)
    have nonzero : c ≠ 0 := fun same => noNul (same ▸ List.mem_cons_self ..)
    rw [List.cons_append, shows_cons, cpioStrcmp]
    by_cases same : archive a = c
    · simp [same, nonzero, ih rest]
    · simp [same]

theorem cpioStrcmp_eq_false_iff (shown : archive.Shows a (name ++ [0]))
    (noNul : 0 ∉ name) (other : List UInt8) (otherNoNul : 0 ∉ other) :
    cpioStrcmp archive a other = false ↔ name = other := by
  rw [cpioStrcmp_eq_false otherNoNul, shows_string_iff shown noNul otherNoNul]

theorem cpioAlign4_eq (pos : Nat) : cpioAlign4 pos = (pos + 3) % 2 ^ 32 / 4 * 4 :=
  and_high_mask (u32 (pos + 3)) 30 2 (Nat.mod_lt _ (by decide))

theorem length_headerBytes (upper : Bool) (attributes : Attributes) (filesize namesize : Nat) :
    (headerBytes upper attributes filesize namesize).length = 110 := by
  simp [headerBytes, length_hexField, newcMagic]

theorem cpioParseHeader_headerBytes
    (shown : archive.Shows ptr (headerBytes upper attributes filesize namesize))
    (filesizeFits : filesize < 2 ^ 32) (namesizeFits : namesize < 2 ^ 32) :
    cpioCheckMagic archive ptr = true ∧
      cpioParseHeader archive ptr = some (attributes.header filesize namesize) := by
  have magicLength : newcMagic.length = 6 := rfl
  simp only [headerBytes, shows_append, List.length_append, length_hexField, magicLength,
    Nat.reduceAdd, and_assoc] at shown
  obtain ⟨magic, inode, mode, uid, gid, nlink, mtime, size, devMajor, devMinor,
    rdevMajor, rdevMinor,
    name, check⟩ := shown
  constructor
  · simp only [newcMagic, shows_cons] at magic
    obtain ⟨b0, b1, b2, b3, b4, b5, -⟩ := magic
    simp [cpioCheckMagic, b0, b1, b2, b3, b4, b5]
  · have word (value : UInt32) : value.toNat < 2 ^ 32 := value.toNat_lt
    simp only [cpioParseHeader, cpioParseHex_hexField inode (word _),
      cpioParseHex_hexField mode (word _), cpioParseHex_hexField uid (word _),
      cpioParseHex_hexField gid (word _), cpioParseHex_hexField nlink (word _),
      cpioParseHex_hexField mtime (word _), cpioParseHex_hexField size filesizeFits,
      cpioParseHex_hexField devMajor (word _), cpioParseHex_hexField devMinor (word _),
      cpioParseHex_hexField rdevMajor (word _), cpioParseHex_hexField rdevMinor (word _),
      cpioParseHex_hexField name namesizeFits, cpioParseHex_hexField check (word _)]
    rfl

theorem length_recordBytes (upper : Bool) (attributes : Attributes) (name data : List UInt8) :
    (recordBytes upper attributes name data).length =
      roundUp4 (110 + (name.length + 1)) + roundUp4 data.length := by
  simp [recordBytes, length_headerBytes]

structure RecordAt (iter : CpioIterator) (attributes : Attributes)
    (name data : List UInt8) : Prop where
  magic : cpioCheckMagic iter.archive iter.pos = true
  header :
      cpioParseHeader iter.archive iter.pos = some (attributes.header data.length (name.length + 1))
  showsName : iter.archive.Shows (iter.pos + 110) (name ++ [0])
  showsData : iter.archive.Shows (iter.pos + roundUp4 (110 + (name.length + 1))) data
  aligned : iter.pos % 4 = 0
  inside : iter.pos + (roundUp4 (110 + (name.length + 1)) + roundUp4 data.length) ≤ iter.archiveSize
  small : iter.archiveSize < 2 ^ 31

theorem recordAt_of_shows
    (shown : iter.archive.Shows iter.pos (recordBytes upper attributes name data))
    (aligned : iter.pos % 4 = 0)
    (inside : iter.pos + (recordBytes upper attributes name data).length ≤ iter.archiveSize)
    (small : iter.archiveSize < 2 ^ 31) : RecordAt iter attributes name data := by
  rw [length_recordBytes] at inside
  have sizes : data.length < 2 ^ 32 ∧ name.length + 1 < 2 ^ 32 := by
    simp only [roundUp4] at inside
    omega
  simp only [recordBytes, pad4, shows_append, List.length_append, length_headerBytes,
    List.length_singleton, List.length_replicate] at shown
  obtain ⟨⟨⟨head, letters, terminator⟩, -⟩, content, -⟩ := shown
  obtain ⟨magic, header⟩ := cpioParseHeader_headerBytes head sizes.1 sizes.2
  refine ⟨magic, header, shows_append.mpr ⟨letters, terminator⟩, ?_, aligned, inside, small⟩
  have place : 110 + (name.length + 1) + (roundUp4 (110 + (name.length + 1)) -
      (110 + (name.length + 1))) = roundUp4 (110 + (name.length + 1)) := by
    simp only [roundUp4]
    omega
  rwa [place] at content

namespace RecordAt

variable {iter : CpioIterator} {attributes : Attributes} {name data : List UInt8}

/-- What the iterator returns for a record, and where it goes on. -/
def advanced (iter : CpioIterator) (attributes : Attributes) (name data : List UInt8) :
    CpioEntry × CpioIterator :=
  ({ attributes.header data.length (name.length + 1) with
      filename := iter.pos + 110
      data := iter.pos + roundUp4 (110 + (name.length + 1)) },
    { iter with
      pos := iter.pos + (roundUp4 (110 + (name.length + 1)) + roundUp4 data.length)
      entryCount := u32 (iter.entryCount + 1) })

theorem next_eq (record : RecordAt iter attributes name data) : cpioIterNext iter =
      if ¬ cpioStrcmp iter.archive (iter.pos + 110) cpioTrailer then .error .endOfArchive else
        .ok (advanced iter attributes name data) := by
  have aligned := record.aligned
  have inside := record.inside
  have small := record.small
  have nameFits : 110 + (name.length + 1) ≤ roundUp4 (110 + (name.length + 1)) := by
    simp only [roundUp4]
    omega
  have dataFits : data.length ≤ roundUp4 data.length := by
    simp only [roundUp4]
    omega
  have filename : u32 (iter.pos + 110) = iter.pos + 110 := Nat.mod_eq_of_lt (by omega)
  have nameEnd : u32 (iter.pos + 110 + (name.length + 1)) = iter.pos + 110 + (name.length + 1) :=
    Nat.mod_eq_of_lt (by omega)
  have dataStart : cpioAlign4 (iter.pos + 110 + (name.length + 1)) =
      iter.pos + roundUp4 (110 + (name.length + 1)) := by
    simp only [cpioAlign4_eq, roundUp4]
    omega
  have dataEnd : u32 (iter.pos + roundUp4 (110 + (name.length + 1)) + data.length) =
      iter.pos + roundUp4 (110 + (name.length + 1)) + data.length := Nat.mod_eq_of_lt (by omega)
  have after : cpioAlign4 (iter.pos + roundUp4 (110 + (name.length + 1)) + data.length) =
      iter.pos + (roundUp4 (110 + (name.length + 1)) + roundUp4 data.length) := by
    simp only [cpioAlign4_eq, roundUp4] at *
    omega
  have started : ¬ iter.archiveSize ≤ iter.pos := by omega
  have sixLeft : ¬ iter.archiveSize - iter.pos < 6 := by omega
  have headerLeft : ¬ iter.archiveSize - iter.pos < 110 := by omega
  have nameInside : ¬ iter.archiveSize < iter.pos + 110 + (name.length + 1) := by omega
  have dataInside :
      ¬ iter.archiveSize < iter.pos + roundUp4 (110 + (name.length + 1)) + data.length := by omega
  simp [cpioIterNext, advanced, if_neg started, if_neg sixLeft, record.magic, if_neg headerLeft,
    record.header, filename, Attributes.header, nameEnd, if_neg nameInside, dataStart, dataEnd,
      if_neg dataInside, after]

theorem next_trailer (record : RecordAt iter attributes cpioTrailer data) :
    cpioIterNext iter = .error .endOfArchive := by
  have found : cpioStrcmp iter.archive (iter.pos + 110) cpioTrailer = false :=
    (cpioStrcmp_eq_false_iff record.showsName (by decide) cpioTrailer (by decide)).mpr rfl
  rw [record.next_eq, found]
  rfl

theorem next_entry (record : RecordAt iter attributes name data) (noNul : 0 ∉ name)
    (notTrailer : name ≠ cpioTrailer) :
    cpioIterNext iter = .ok (advanced iter attributes name data) := by
  have different : cpioStrcmp iter.archive (iter.pos + 110) cpioTrailer = true := by
    rw [← Bool.not_eq_false, cpioStrcmp_eq_false_iff record.showsName noNul cpioTrailer (by decide)]
    exact notTrailer
  rw [record.next_eq, different]
  rfl

end RecordAt

/-- The iterator stands at the first of these entries. -/
structure Remaining (upper : Bool) (trailer : Attributes) (iter : CpioIterator)
    (entries : List ArchiveEntry) : Prop where
  shown : iter.archive.Shows iter.pos (archiveBytes upper trailer entries)
  aligned : iter.pos % 4 = 0
  inside : iter.pos + (archiveBytes upper trailer entries).length ≤ iter.archiveSize
  small : iter.archiveSize < 2 ^ 31

namespace Remaining

variable {upper : Bool} {trailer : Attributes} {iter : CpioIterator} {entries : List ArchiveEntry}

theorem next_nil (remaining : Remaining upper trailer iter []) :
    cpioIterNext iter = .error .endOfArchive :=
  (recordAt_of_shows remaining.shown remaining.aligned remaining.inside
    remaining.small).next_trailer

theorem next_cons (remaining : Remaining upper trailer iter (entry :: entries)) :
    ∃ found after, cpioIterNext iter = .ok (found, after) ∧ ReadsAs iter.archive found entry ∧
      after.archive = iter.archive ∧ Remaining upper trailer after entries := by
  obtain ⟨shown, aligned, inside, small⟩ := remaining
  rw [archiveBytes, shows_append] at shown
  rw [archiveBytes, List.length_append] at inside
  have record := recordAt_of_shows shown.1 aligned (by omega) small
  refine ⟨_, _, record.next_entry entry.noNul entry.notTrailer,
    ⟨rfl, record.showsName, record.showsData⟩, rfl, ?_⟩
  rw [length_recordBytes] at shown inside
  refine ⟨shown.2, ?_, ?_, small⟩
  · simp only [roundUp4]
    omega
  · simp only
    omega

theorem init_eq (remaining : Remaining upper trailer ⟨archive, archiveSize, 0, 0⟩ entries) :
    cpioIterInit archive archiveSize = .ok ⟨archive, archiveSize, 0, 0⟩ := by
  have next : cpioIterNext ⟨archive, archiveSize, 0, 0⟩ ≠ .error .invalidFormat := by
    cases entries with
    | nil =>
      rw [remaining.next_nil]
      nofun
    | cons entry entries =>
      obtain ⟨found, after, isNext, -⟩ := remaining.next_cons
      rw [isNext]
      nofun
  unfold cpioIterInit
  split
  · exact absurd (by simp [cpioIterNext, *]) next
  split
  · exact absurd (by simp [cpioIterNext, *]) next
  · rfl

theorem entries_eq (remaining : Remaining upper trailer iter entries) :
    ∃ found, cpioEntries (entries.length + 1) iter = (found, some .endOfArchive) ∧
      List.Forall₂ (ReadsAs iter.archive) found entries := by
  induction entries generalizing iter with
  | nil =>
    refine ⟨[], ?_, .nil⟩
    rw [cpioEntries, remaining.next_nil]
  | cons entry entries ih =>
    obtain ⟨first, after, isNext, reads, same, rest⟩ := remaining.next_cons
    obtain ⟨found, isRest, all⟩ := ih rest
    refine ⟨first :: found, ?_, .cons reads (same ▸ all)⟩
    rw [List.length_cons, cpioEntries, isNext]
    simp [isRest]

theorem copy_data {archive dst : Memory} (shown : archive.Shows base data) :
    dst.copy 0 data.length archive base = fun i => data.getD i (dst i) := by
  funext i
  simp only [copy, Nat.zero_le, Nat.zero_add, true_and, Nat.sub_zero]
  split
  · rename_i inside
    rw [shown.byte i inside]
    simp [List.getD_eq_getElem?_getD, inside]
  · rename_i outside
    have past : data.length ≤ i := by omega
    simp [List.getD_eq_getElem?_getD, past]

theorem extract_eq (remaining : Remaining upper trailer iter entries) (noNul : 0 ∉ filename)
    (room : ∀ entry ∈ entries.find? (fun entry => entry.name = filename),
      entry.data.length ≤ dstLen)
    (enough : entries.length < fuel) :
    cpioExtractFrom filename dst dstLen fuel iter = some (extraction entries filename dst) := by
  induction entries generalizing iter fuel with
  | nil =>
    obtain ⟨fuel, rfl⟩ : ∃ less, fuel = less + 1 := ⟨fuel - 1, by omega⟩
    rw [cpioExtractFrom, remaining.next_nil]
    rfl
  | cons entry entries ih =>
    obtain ⟨fuel, rfl⟩ : ∃ less, fuel = less + 1 := ⟨fuel - 1, by omega⟩
    obtain ⟨found, after, isNext, reads, -, rest⟩ := remaining.next_cons
    have compared := cpioStrcmp_eq_false_iff reads.name entry.noNul filename noNul
    rw [cpioExtractFrom, isNext]
    by_cases same : entry.name = filename
    · have isFirst :
          ((entry :: entries).find? fun entry => entry.name = filename) = some entry := by
        simp [same]
      rw [isFirst] at room
      have fits : ¬ dstLen < found.filesize := by
        rw [reads.header]
        have := room entry rfl
        simp only [Attributes.header]
        omega
      have size : found.filesize = entry.data.length := by rw [reads.header]; rfl
      simp only [compared.mpr same, Bool.false_eq_true, not_false_eq_true, if_true, if_neg fits,
        extraction, isFirst]
      rw [size, copy_data reads.data]
    · have later : ((entry :: entries).find? fun entry => entry.name = filename) =
          entries.find? fun entry => entry.name = filename := by
        simp [same]
      have different : cpioStrcmp iter.archive found.filename filename = true := by
        rw [← Bool.not_eq_false, compared]
        exact same
      rw [later] at room
      simp only [different, not_true, if_false]
      rw [ih rest room (by simpa using enough), extraction, extraction, later]

end Remaining

/-- An archive of fewer than 2^31 bytes, whatever follows its trailer, is iterated to
exactly its entries, and each name is extracted from the first entry that has it. -/
theorem cpio_round_trip (upper : Bool) (trailer : Attributes) (entries : List ArchiveEntry)
    (rest : List UInt8) (archive : Memory)
    (shown : archive.Shows 0 (archiveBytes upper trailer entries ++ rest))
    (small : (archiveBytes upper trailer entries ++ rest).length < 2 ^ 31) :
    (∃ iter found, cpioIterInit archive (archiveBytes upper trailer entries ++ rest).length =
      .ok iter ∧
      cpioEntries (entries.length + 1) iter = (found, some .endOfArchive) ∧
      List.Forall₂ (ReadsAs archive) found entries) ∧ ∀ filename, 0 ∉ filename → ∀ dst dstLen,
      (∀ entry ∈ entries.find? (fun entry => entry.name = filename), entry.data.length ≤ dstLen) →
      ∀ fuel > entries.length,
        cpioExtractFile fuel archive (archiveBytes upper trailer entries ++ rest).length
          filename dst
          dstLen = some (extraction entries filename dst) := by
  rw [shows_append] at shown
  rw [List.length_append] at small ⊢
  have remaining : Remaining upper trailer
      ⟨archive, (archiveBytes upper trailer entries).length + rest.length, 0, 0⟩ entries :=
    ⟨shown.1, rfl, by simp, small⟩
  have started := remaining.init_eq
  refine ⟨?_, fun filename noNul dst dstLen room fuel enough => ?_⟩
  · obtain ⟨found, isFound, reads⟩ := remaining.entries_eq
    exact ⟨_, found, started, isFound, reads⟩
  · rw [cpioExtractFile, started]
    exact remaining.extract_eq noNul room enough

/-- A regular file that its owner may write. -/
def plainAttributes : Attributes :=
  { inode := 1, mode := 0o100644, uid := 0, gid := 0, nlink := 1, mtime := 0, devMajor := 0,
    devMinor := 0, rdevMajor := 0, rdevMinor := 0, check := 0 }

/-- The files `a` with three bytes and `bc` with none. -/
def twoFiles : List ArchiveEntry :=
  [⟨plainAttributes, [0x61], [7, 8, 9], by decide, by decide⟩,
   ⟨plainAttributes, [0x62, 0x63], [], by decide, by decide⟩]

theorem cpio_round_trip_two_files :
    (archiveBytes true plainAttributes twoFiles ++ [0, 0]).length = 358 ∧
    cpioExtractFile 3 (Memory.ofBytes (archiveBytes true plainAttributes twoFiles ++ [0, 0]))
      (archiveBytes true plainAttributes twoFiles ++ [0, 0]).length [0x61] (fun _ => 0) 3 =
        some (extraction twoFiles [0x61] fun _ => 0) ∧
    (extraction twoFiles [0x61] fun _ => 0).outLen = some 3 := by
  have size : (archiveBytes true plainAttributes twoFiles ++ [0, 0]).length = 358 := by
    decide +kernel
  have holds := cpio_round_trip true plainAttributes twoFiles [0, 0]
    (ofBytes (archiveBytes true plainAttributes twoFiles ++ [0, 0]))
    (shows_ofBytes _) (by rw [size]; omega)
  refine ⟨size, holds.2 [0x61] (by decide) (fun _ => 0) 3 ?_ 3 (by decide), by decide⟩
  decide

end Zapada.Initramfs
