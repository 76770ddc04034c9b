import Zapada.Foundation.Machine
import Zapada.Initramfs.CpioRoundTrip

namespace Zapada.Initramfs

open Foundation

inductive RamdiskStatus where
  | ok
  | corrupted

def ramdiskMaxFiles : Nat := 128

structure RamdiskEntry where
  filename : Nat
  data : Nat
  size : Nat
  mode : Nat
  mtime : Nat

/-- The loop of `ramdisk_init_from_archive`; `none` if it has not ended after `fuel` rounds. -/
def ramdiskIndexFrom : (fuel : Nat) → CpioIterator → List RamdiskEntry →
      Option (RamdiskStatus × List RamdiskEntry)
  | 0, _, _ => none
  | fuel + 1, iter, files =>
    match cpioIterNext iter with
    | .error .endOfArchive => some (.ok, files)
    | .error _ => some (.corrupted, files)
    | .ok (entry, next) =>
      if ramdiskMaxFiles ≤ files.length then some (.ok, files)
      else if entry.filesize = 0 then ramdiskIndexFrom fuel next files
      else ramdiskIndexFrom fuel next
        (files ++ [⟨entry.filename, entry.data, entry.filesize, entry.mode, entry.mtime⟩])

def cpioMachine (archive : Memory) (archiveSize : Nat) : Machine CpioIterator CpioEntry where
  initial iter := cpioIterInit archive archiveSize = .ok iter
  step before entry after := cpioIterNext before = .ok (entry, after)

/-- A call moves the position on, and the name that it reports ends inside the archive, as do the
data. -/
structure CpioEntry.Inside (entry : CpioEntry) (before after : CpioIterator) : Prop where
  moves : before.pos < after.pos
  name : ∃ i < before.archiveSize, entry.filename ≤ i ∧ before.archive i = 0
  data : entry.data + entry.filesize ≤ before.archiveSize

/-- There is a terminator behind the header, and the end of the data that the sizes lead to lies
behind
the position and does not wrap, also when it is rounded. -/
def CpioIterator.Sound (iter : CpioIterator) : Prop :=
  ∀ header, cpioParseHeader iter.archive iter.pos = some header →
    (∃ i < iter.archiveSize, iter.pos + 110 ≤ i ∧ iter.archive i = 0) ∧
      iter.pos < cpioAlign4 (u32 (iter.pos + 110 + header.namesize)) + header.filesize ∧
      cpioAlign4 (u32 (iter.pos + 110 + header.namesize)) + header.filesize ≤ 2 ^ 32 - 4

/-- The bytes that are read for an entry: the header, the name through its terminator and the data.
-/
def CpioEntry.Reads (entry : CpioEntry) (iter : CpioIterator) (i : Nat) : Prop :=
  iter.pos ≤ i ∧ i < iter.pos + 110 ∨
  entry.filename ≤ i ∧ (∀ j < i, entry.filename ≤ j → iter.archive j ≠ 0) ∨
  entry.data ≤ i ∧ i < entry.data + entry.filesize

variable {archive : Memory} {archiveSize : Nat} {iter after : CpioIterator} {entry : CpioEntry}

theorem cpioIterNext_ok (taken : cpioIterNext iter = .ok (entry, after))
    (small : iter.archiveSize < 2 ^ 32) :
    cpioParseHeader iter.archive iter.pos = some entry.toCpioHeader ∧
      iter.pos + 110 ≤ iter.archiveSize ∧
      entry.filename = iter.pos + 110 ∧
        entry.data = cpioAlign4 (u32 (iter.pos + 110 + entry.namesize)) ∧
      u32 (entry.data + entry.filesize) ≤ iter.archiveSize ∧
      after = { iter with pos := cpioAlign4 (u32 (entry.data + entry.filesize))
                          entryCount := u32 (iter.entryCount + 1) } := by
  simp only [cpioIterNext] at taken
  repeat' split at taken
  all_goals try contradiction
  rename_i parsed _ _ inside
  have filename : u32 (iter.pos + 110) = iter.pos + 110 := Nat.mod_eq_of_lt (by omega)
  cases taken
  simp only [filename] at *
  exact ⟨parsed, by omega, trivial, trivial, by omega, trivial⟩

theorem CpioEntry.inside_iff (taken : cpioIterNext iter = .ok (entry, after))
    (small : iter.archiveSize < 2 ^ 32)
    (aligned : iter.pos % 4 = 0) : entry.Inside iter after ↔ iter.Sound := by
  obtain ⟨parsed, header, filename, data, fits, rfl⟩ := cpioIterNext_ok taken small
  have sound : iter.Sound ↔ (∃ i < iter.archiveSize, iter.pos + 110 ≤ i ∧ iter.archive i = 0) ∧
      iter.pos < entry.data + entry.filesize ∧ entry.data + entry.filesize ≤ 2 ^ 32 - 4 := by
    rw [data]
    simp [CpioIterator.Sound, parsed]
  rw [sound]
  simp only [u32] at fits
  constructor
  · rintro ⟨moves, name, dataInside⟩
    simp only [cpioAlign4_eq, u32] at moves
    rw [filename] at name
    refine ⟨name, ?_⟩
    omega
  · rintro ⟨name, forward, low⟩
    refine ⟨?_, by rwa [filename], ?_⟩
    · simp only [cpioAlign4_eq, u32]
      omega
    · omega

theorem cpioMachine_aligned (small : archiveSize < 2 ^ 32)
    (run : (cpioMachine archive archiveSize).Run log iter) :
    iter.archiveSize = archiveSize ∧ iter.pos % 4 = 0 := by
  induction run with
  | start first =>
    simp only [cpioMachine, cpioIterInit] at first
    repeat' split at first
    all_goals cases first
    exact ⟨rfl, rfl⟩
  | next earlier taken ih =>
    obtain ⟨-, -, -, -, -, rfl⟩ := cpioIterNext_ok taken (by omega)
    exact ⟨ih.1, by simp [cpioAlign4_eq]⟩

theorem loops_end (small : archiveSize < 2 ^ 32)
    (sound : ∀ log iter, (cpioMachine archive archiveSize).Run log iter → iter.Sound)
    (run : (cpioMachine archive archiveSize).Run log iter) (enough : archiveSize < fuel + iter.pos)
    (some : 0 < fuel) : (cpioEntries fuel iter).2 ≠ none ∧
      (∀ filename dst dstLen, cpioExtractFrom filename dst dstLen fuel iter ≠ none) ∧
      ∀ files, ramdiskIndexFrom fuel iter files ≠ none := by
  induction fuel generalizing log iter with
  | zero => contradiction
  | succ fuel ih =>
    simp only [cpioEntries, cpioExtractFrom, ramdiskIndexFrom]
    cases taken : cpioIterNext iter with
    | error status => cases status <;> simp
    | ok result =>
      obtain ⟨rfl, aligned⟩ := cpioMachine_aligned small run
      obtain ⟨entry, after⟩ := result
      have moves := ((entry.inside_iff taken small aligned).mpr (sound log iter run)).moves
      obtain ⟨-, header, -⟩ := cpioIterNext_ok taken small
      obtain ⟨listed, extracted, indexed⟩ := ih (run.next taken) (by omega) (by omega)
      refine ⟨listed, fun filename dst dstLen => ?_, fun files => ?_⟩
      · dsimp only
        split
        · split <;> simp
        · exact extracted filename dst dstLen
      · dsimp only
        split_ifs
        · simp
        · exact indexed _
        · exact indexed _

theorem CpioEntry.Inside.reads (inside : entry.Inside iter after)
    (header : iter.pos + 110 ≤ iter.archiveSize)
    (read : entry.Reads iter i) : i < iter.archiveSize := by
  obtain ⟨-, ⟨stop, low, start, ends⟩, data⟩ := inside
  rcases read with inHeader | ⟨-, before⟩ | inData
  · omega
  · by_contra beyond
    exact before stop (by omega) start ends
  · omega

theorem parseHexDigits_congr (same : ∀ i < len, other (ptr + i) = archive (ptr + i)) :
    parseHexDigits other ptr len = parseHexDigits archive ptr len := by
  induction len with
  | zero => rfl
  | succ len ih =>
    rw [parseHexDigits, parseHexDigits, ih fun i inside => same i (by omega), same len (by omega)]

theorem cpioParseHeader_congr (same : ∀ i < 110, other (ptr + i) = archive (ptr + i)) :
    cpioCheckMagic other ptr = cpioCheckMagic archive ptr ∧
      cpioParseHeader other ptr = cpioParseHeader archive ptr := by
  have field :
      ∀ offset ≤ 102, cpioParseHex other (ptr + offset) 8 =
        cpioParseHex archive (ptr + offset) 8 := by
    intro offset low
    refine parseHexDigits_congr fun i inside => ?_
    rw [Nat.add_assoc]
    exact same _ (by omega)
  have first : other ptr = archive ptr := same 0 (by decide)
  constructor
  · simp only [cpioCheckMagic, first, same _ (by decide : 1 < 110), same _ (by decide : 2 < 110),
      same _ (by decide : 3 < 110), same _ (by decide : 4 < 110), same _ (by decide : 5 < 110)]
  · simp only [cpioParseHeader, field _ (by decide : 6 ≤ 102), field _ (by decide : 14 ≤ 102),
      field _ (by decide : 22 ≤ 102), field _ (by decide : 30 ≤ 102),
        field _ (by decide : 38 ≤ 102),
      field _ (by decide : 46 ≤ 102), field _ (by decide : 54 ≤ 102),
        field _ (by decide : 62 ≤ 102),
      field _ (by decide : 70 ≤ 102), field _ (by decide : 78 ≤ 102),
        field _ (by decide : 86 ≤ 102),
      field _ (by decide : 94 ≤ 102), field _ (by decide : 102 ≤ 102)]

theorem cpioStrcmp_congr (same : ∀ i, a ≤ i → i ≤ stop → other i = archive i) (low : a ≤ stop)
    (ends : archive stop = 0) : cpioStrcmp other a text = cpioStrcmp archive a text := by
  induction text generalizing a with
  | nil => rw [cpioStrcmp, cpioStrcmp, same a (by omega) low]
  | cons c text ih =>
    rw [cpioStrcmp, cpioStrcmp, same a (by omega) low]
    by_cases last : archive a = 0
    · simp [last]
    · have before : a ≠ stop := fun here => last (here ▸ ends)
      rw [ih (fun i start => same i (by omega)) (by omega)]

/-- A call on a sound iterator reads no byte behind the archive, whatever it returns. -/
theorem cpioIterNext_congr (sound : iter.Sound) (small : iter.archiveSize < 2 ^ 32)
    (same : ∀ i < iter.archiveSize, other i = iter.archive i) :
    cpioIterNext { iter with archive := other } =
      (cpioIterNext iter).map fun (entry, after) => (entry, { after with archive := other }) := by
  simp only [cpioIterNext]
  by_cases short : iter.archiveSize - iter.pos < 110
  · by_cases six : iter.archiveSize - iter.pos < 6
    · simp [six, Except.map]
    · have magic : cpioCheckMagic other iter.pos = cpioCheckMagic iter.archive iter.pos := by
        simp only [cpioCheckMagic]
        rw [same _ (by omega), same _ (by omega), same _ (by omega), same _ (by omega),
          same _ (by omega), same _ (by omega)]
      simp only [short, if_true, magic, six, if_false]
      split_ifs <;> rfl
  · obtain ⟨magic, header⟩ := cpioParseHeader_congr fun i inside => same (iter.pos + i) (by omega)
    simp only [magic, header]
    cases parsed : cpioParseHeader iter.archive iter.pos with
    | none =>
      simp only
      split_ifs <;> rfl
    | some header =>
      obtain ⟨⟨stop, inside, low, ends⟩, -⟩ := sound header parsed
      have start : u32 (iter.pos + 110) = iter.pos + 110 := Nat.mod_eq_of_lt (by omega)
      have name : cpioStrcmp other (iter.pos + 110) cpioTrailer =
          cpioStrcmp iter.archive (iter.pos + 110) cpioTrailer :=
        cpioStrcmp_congr (fun i _ upTo => same i (by omega)) low ends
      simp only [start, name]
      split_ifs <;> rfl

/-- In an archive below 4 GiB a successful call moves on and reports a name and data inside exactly
if the
iterator is sound. Then only bytes inside are read for an entry, and the bytes behind the archive do
not
count in any call. Iterating, extracting and indexing end if all iterators are sound. -/
theorem cpio_entries_inside (small : archiveSize < 2 ^ 32)
    (run : (cpioMachine archive archiveSize).Run log iter) :
    (∀ entry after, cpioIterNext iter = .ok (entry, after) →
      (entry.Inside iter after ↔ iter.Sound) ∧
      (iter.Sound → ∀ i, entry.Reads iter i → i < archiveSize)) ∧
    (iter.Sound → ∀ other : Memory, (∀ i < archiveSize, other i = iter.archive i) →
      cpioIterNext { iter with archive := other } =
        (cpioIterNext iter).map fun (entry, after) => (entry, { after with archive := other })) ∧
    ((∀ log iter, (cpioMachine archive archiveSize).Run log iter → iter.Sound) →
      ∀ fuel > archiveSize,
      (cpioEntries fuel iter).2 ≠ none ∧
      (∀ filename dst dstLen, cpioExtractFrom filename dst dstLen fuel iter ≠ none) ∧
      ∀ files, ramdiskIndexFrom fuel iter files ≠ none) := by
  obtain ⟨rfl, aligned⟩ := cpioMachine_aligned small run
  refine ⟨fun entry after taken => ?_, fun sound other => cpioIterNext_congr sound small,
    fun sound fuel enough => loops_end small sound run (by omega) (by omega)⟩
  have exact_when := entry.inside_iff taken small aligned
  exact ⟨exact_when, fun sound i => (exact_when.mpr sound).reads (cpioIterNext_ok taken small).2.1⟩

/-- One file `a` whose size leads back to the start. -/
def loopArchive : Memory :=
  .ofBytes (headerBytes true plainAttributes (2 ^ 32 - 112) 2 ++ [0x61, 0])

theorem loopArchive_next (count : Nat) : cpioIterNext ⟨loopArchive, 112, 0, count⟩ =
    .ok ({ plainAttributes.header (2 ^ 32 - 112) 2 with filename := 110, data := 112 },
      ⟨loopArchive, 112, 0, u32 (count + 1)⟩) := by
  have magic : cpioCheckMagic loopArchive 0 = true := by decide +kernel
  have header : cpioParseHeader loopArchive 0 = some (plainAttributes.header (2 ^ 32 - 112) 2) := by
    decide +kernel
  have name : cpioStrcmp loopArchive 110 cpioTrailer = true := by decide +kernel
  simp [cpioIterNext, magic, header, name, u32, cpioAlign4, Attributes.header]

theorem loopArchive_init : cpioIterInit loopArchive 112 = .ok ⟨loopArchive, 112, 0, 0⟩ := by
  simp only [cpioIterInit, show cpioCheckMagic loopArchive 0 = true by decide +kernel]
  rfl

theorem RecordAt.sound (record : RecordAt iter attributes name data) : iter.Sound := by
  obtain ⟨-, header, showsName, -, aligned, inside, small⟩ := record
  intro found parsed
  cases header.symm.trans parsed
  have nul := (Memory.shows_append.mp showsName).2
  rw [Memory.shows_singleton] at nul
  simp only [roundUp4] at inside
  refine ⟨⟨iter.pos + 110 + name.length, by omega, by omega, nul⟩, ?_⟩
  simp only [Attributes.header, cpioAlign4_eq, u32]
  omega

/-- The iterators over an archive that was written are sound. -/
theorem Remaining.sound (remaining : Remaining upper trailer iter entries) : iter.Sound := by
  obtain ⟨shown, aligned, inside, small⟩ := remaining
  cases entries with
  | nil => exact (recordAt_of_shows shown aligned inside small).sound
  | cons entry entries =>
    rw [archiveBytes, Memory.shows_append] at shown
    rw [archiveBytes, List.length_append] at inside
    exact (recordAt_of_shows shown.1 aligned (by omega) small).sound

theorem Remaining.run (remaining : Remaining upper trailer ⟨archive, archiveSize, 0, 0⟩ entries)
    (run : (cpioMachine archive archiveSize).Run log iter) :
    ∃ rest, Remaining upper trailer iter rest := by
  induction run with
  | start first =>
    cases remaining.init_eq.symm.trans first
    exact ⟨entries, remaining⟩
  | next earlier taken ih =>
    obtain ⟨rest, before⟩ := ih
    cases rest with
    | nil => cases before.next_nil.symm.trans taken
    | cons entry rest =>
      obtain ⟨found, after, isNext, -, -, remains⟩ := before.next_cons
      cases isNext.symm.trans taken
      exact ⟨rest, remains⟩

/-- The archive that leads back is not sound; in one of two files all iterators are. -/
theorem cpio_entries_inside_loop : ¬ CpioIterator.Sound ⟨loopArchive, 112, 0, 0⟩ ∧
    (cpioEntries 359 ⟨.ofBytes (archiveBytes true plainAttributes twoFiles ++ [0, 0]), 358, 0,
      0⟩).2 ≠ none := by
  have run : (cpioMachine loopArchive 112).Run [] ⟨loopArchive, 112, 0, 0⟩ :=
    .start loopArchive_init
  have size : (archiveBytes true plainAttributes twoFiles ++ [0, 0]).length = 358 := by
    decide +kernel
  have shown := Memory.shows_ofBytes (archiveBytes true plainAttributes twoFiles ++ [0, 0])
  rw [Memory.shows_append] at shown
  rw [List.length_append] at size
  have remaining : Remaining true plainAttributes
      ⟨.ofBytes (archiveBytes true plainAttributes twoFiles ++ [0, 0]), 358, 0, 0⟩ twoFiles :=
    ⟨shown.1, rfl, by simp only; omega, by decide⟩
  constructor
  · intro sound
    exact absurd (((cpio_entries_inside (by decide) run).1 _ _ (loopArchive_next 0)).1.mpr
      sound).moves (by decide)
  · refine ((cpio_entries_inside (by decide) (.start remaining.init_eq)).2.2 ?_ 359 (by decide)).1
    intro log iter run
    obtain ⟨rest, remains⟩ := remaining.run run
    exact remains.sound

/-- The position stays at the start, the data lie outside, and a search for another file does not
end. -/
theorem cpio_extract_loops : cpioIterNext ⟨loopArchive, 112, 0, 0⟩ =
      .ok ({ plainAttributes.header (2 ^ 32 - 112) 2 with filename := 110, data := 112 },
        ⟨loopArchive, 112, 0, 1⟩) ∧
    ∀ fuel, cpioExtractFile fuel loopArchive 112 [0x62] (fun _ => 0) 0 = none := by
  have other : cpioStrcmp loopArchive 110 [0x62] = true := by decide +kernel
  have loops :
      ∀ fuel count, cpioExtractFrom [0x62] (fun _ => 0) 0 fuel ⟨loopArchive, 112, 0, count⟩ =
        none := by
    intro fuel
    induction fuel with
    | zero => intro count; rfl
    | succ fuel ih => simp [cpioExtractFrom, loopArchive_next, other, ih]
  exact ⟨loopArchive_next 0, fun fuel =>
    by rw [cpioExtractFile, loopArchive_init]; exact loops fuel 0⟩

end Zapada.Initramfs
