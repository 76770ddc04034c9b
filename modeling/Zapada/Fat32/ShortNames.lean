import Zapada.Fat32.DirectoryCalls

namespace Zapada.Fat32

open Foundation Storage

/-- The bytes FAT32 allows in a short name. -/
def legalNameByte (byte : Nat) : Bool :=
  (0x20 ≤ byte || byte = 0x05) && byte ≠ 0x22 && !(0x2A ≤ byte && byte ≤ 0x2C) && byte ≠ 0x2E &&
    byte ≠ 0x2F && !(0x3A ≤ byte && byte ≤ 0x3F) && !(0x5B ≤ byte && byte ≤ 0x5D) &&
    !(0x61 ≤ byte && byte ≤ 0x7A) && byte ≠ 0x7C

namespace Record

variable {record : Record}

/-- A name field of a file or directory: legal bytes, and no space at its start. -/
structure Legal (record : Record) : Prop where
  bytes : ∀ byte ∈ record.field 0 11, legalNameByte byte
  start : record 0 ≠ 0x20

instance (record : Record) : Decidable record.Legal :=
  decidable_of_iff ((∀ byte ∈ record.field 0 11, legalNameByte byte) ∧ record 0 ≠ 0x20)
    ⟨fun legal => ⟨legal.1, legal.2⟩, fun legal => ⟨legal.bytes, legal.start⟩⟩

/-- The entries for a directory itself and for its parent. -/
def isDot (record : Record) : Bool :=
  record.field 0 11 = 0x2E :: List.replicate 10 0x20 ∨
    record.field 0 11 = 0x2E :: 0x2E :: List.replicate 9 0x20

theorem field_split (record : Record) :
    record.field 0 11 = record.field 0 8 ++ record.field 8 3 := by
  simp [field, List.range_succ]

theorem field_parts (same : record.field 0 11 = bytes) :
    record.field 0 8 = bytes.take 8 ∧ record.field 8 3 = bytes.drop 8 := by
  have length : (record.field 0 8).length = 8 := by simp [field]
  rw [field_split] at same
  constructor
  · rw [← same, List.take_append_of_le_length (by omega), List.take_of_length_le (by omega)]
  · rw [← same, List.drop_append_of_le_length (by omega), List.drop_of_length_le (by omega),
      List.nil_append]

theorem isDotName_of_isDot (isDot : record.isDot = true) : record.isDotName = true := by
  simp only [Record.isDot, decide_eq_true_eq] at isDot
  rcases isDot with self | parent
  · obtain ⟨base, ext⟩ := field_parts self
    simp only [isDotName, shortName, base, ext]
    decide
  · obtain ⟨base, ext⟩ := field_parts parent
    simp only [isDotName, shortName, base, ext]
    decide

theorem byte_lt (member : byte ∈ record.field start length) : byte < 256 := by
  simp only [field, List.mem_map] at member
  obtain ⟨i, -, rfl⟩ := member
  exact (record (start + i)).toNat_lt

private theorem table_legal : ∀ byte < 256, legalNameByte byte → byteToString byte ≠ '.' ∧
    (byteToString byte = Char.ofNat byte ↔ inByteTable byte) := by
  decide +kernel

theorem Legal.isDotName (legal : record.Legal) : record.isDotName = false := by
  have base : record.field 0 8 = (record 0).toNat :: (List.range 7).map fun i =>
      (record (i + 1)).toNat := by
    simp [field, List.range_succ]
  have first : (record 0).toNat ∈ record.field 0 11 := by
    rw [field_split, base]
    simp
  have notSpace : (record 0).toNat ≠ 0x20 := by
    intro same
    exact legal.start (UInt8.toNat_inj.mp same)
  have head : record.shortName.head? = some (byteToString (record 0).toNat) := by
    simp [shortName, printed, base, notSpace]
  have different := (table_legal _ (record 0).toNat_lt (legal.bytes _ first)).1
  simp only [Record.isDotName, decide_eq_false_iff_not, not_or]
  constructor
  · intro same
    rw [same] at head
    exact different (Option.some.inj head).symm
  · intro same
    rw [same] at head
    exact different (Option.some.inj head).symm

end Record

theorem trimmed_append :
    ∃ spaces, bytes = bytes.rdropWhile (· = 0x20) ++ List.replicate spaces 0x20 := by
  have rest :
      bytes.rtakeWhile (· = 0x20) = List.replicate (bytes.rtakeWhile (· = 0x20)).length 0x20 := by
    rw [List.eq_replicate_iff]
    refine ⟨rfl, fun byte member => ?_⟩
    have space := List.mem_rtakeWhile_imp member
    simpa using space
  exact ⟨_, by rw [← rest, List.rdropWhile_append_rtakeWhile]⟩

theorem padField_nil (length : Nat) : padField length [] = List.replicate length 0x20 := by
  simp [padField, List.map_const']

theorem padField_cons (length : Nat) (ch : Char) (part : Name) :
    padField (length + 1) (ch :: part) = toUpperAscii ch.toNat :: padField length part := by
  simp only [padField, List.range_succ_eq_map, List.map_cons, List.getElem?_cons_zero, List.map_map]
  congr 1

private theorem upper_legal : ∀ byte < 256, legalNameByte byte →
    toUpperAscii (Char.ofNat byte).toNat = byte ∧ Char.ofNat byte ≠ '.' ∧
      Char.ofNat byte ≠ '/' := by
  decide +kernel

theorem padField_bytes (spaces : Nat) (legal : ∀ byte ∈ bytes, byte < 256 ∧ legalNameByte byte) :
    padField (bytes.length + spaces) (bytes.map Char.ofNat) =
      bytes ++ List.replicate spaces 0x20 := by
  induction bytes with
  | nil => simp [padField_nil]
  | cons byte rest ih =>
    obtain ⟨small, allowed⟩ := legal byte (by simp)
    have length : (byte :: rest).length + spaces = rest.length + spaces + 1 := by
      rw [List.length_cons]
      omega
    rw [length, List.map_cons, padField_cons, (upper_legal byte small allowed).1,
      ih fun byte member => legal byte (by simp [member]), List.cons_append]

theorem padField_trimmed (legal : ∀ byte ∈ bytes, byte < 256 ∧ legalNameByte byte) :
    padField bytes.length (Record.trimmed bytes) = bytes := by
  obtain ⟨spaces, split⟩ := @trimmed_append bytes
  have length : bytes.length = (bytes.rdropWhile (· = 0x20)).length + spaces := by
    conv_lhs => rw [split]
    simp
  have front : ∀ byte ∈ bytes.rdropWhile (· = 0x20), byte < 256 ∧ legalNameByte byte :=
    fun byte member => legal byte ((List.rdropWhile_prefix _ bytes).mem member)
  rw [length, Record.trimmed, padField_bytes spaces front, ← split]

namespace Record

variable {record : Record}

theorem Legal.field (legal : record.Legal) :
    (∀ byte ∈ record.field 0 8, byte < 256 ∧ legalNameByte byte) ∧
      ∀ byte ∈ record.field 8 3, byte < 256 ∧ legalNameByte byte := by
  have bytes := legal.bytes
  rw [field_split] at bytes
  exact ⟨fun byte member => ⟨byte_lt member, bytes byte (by simp [member])⟩,
    fun byte member => ⟨byte_lt member, bytes byte (by simp [member])⟩⟩

theorem trimmed_plain (legal : ∀ byte ∈ bytes, byte < 256 ∧ legalNameByte byte) :
    ∀ ch ∈ trimmed bytes, ch ≠ '.' ∧ ch ≠ '/' := by
  intro ch member
  simp only [trimmed, List.mem_map] at member
  obtain ⟨byte, kept, rfl⟩ := member
  obtain ⟨small, allowed⟩ := legal byte ((List.rdropWhile_prefix _ bytes).mem kept)
  exact (upper_legal byte small allowed).2

/-- A field in which every byte up to the last one that is no space is none and in the driver's
table. -/
def Printable (bytes : List Nat) : Prop := ∀ byte ∈ bytes.rdropWhile (· = 0x20), byte ≠ 0x20 ∧
      inByteTable byte

instance (bytes : List Nat) : Decidable (Printable bytes) :=
  inferInstanceAs (Decidable (∀ _ ∈ _, _))

theorem printed_eq_trimmed_iff (legal : ∀ byte ∈ bytes, byte < 256 ∧ legalNameByte byte) :
    printed bytes = trimmed bytes ↔ Printable bytes := by
  obtain ⟨spaces, split⟩ := @trimmed_append bytes
  have front : ∀ byte ∈ bytes.rdropWhile (· = 0x20), byte < 256 ∧ legalNameByte byte :=
    fun byte member => legal byte ((List.rdropWhile_prefix _ bytes).mem member)
  have shown :
      printed bytes = ((bytes.rdropWhile (· = 0x20) ++ List.replicate spaces 0x20).takeWhile
      (· ≠ 0x20)).map byteToString := by rw [← split]; rfl
  rw [shown, trimmed, Printable]
  generalize bytes.rdropWhile (· = 0x20) = body at front
  by_cases clear : ∀ byte ∈ body, byte ≠ 0x20
  · have none : (List.replicate spaces 0x20).takeWhile (· ≠ 0x20) = [] := by cases spaces <;> simp
    rw [List.takeWhile_append_of_pos (by simpa using clear), none, List.append_nil,
      List.map_inj_left]
    refine forall₂_congr fun byte member => ?_
    rw [(table_legal byte (front byte member).1 (front byte member).2).2]
    exact (and_iff_right (clear byte member)).symm
  · refine iff_of_false (fun same => clear ?_) fun printable => clear fun byte member =>
      (printable byte member).1
    have length := congrArg List.length same
    rw [List.length_map, List.length_map, List.takeWhile_append] at length
    split at length
    · rename_i whole
      have all := (List.takeWhile_prefix _).eq_of_length whole
      simpa using List.takeWhile_eq_self_iff.mp all
    · contradiction

theorem dotted_eq_iff {base ext base' ext' : Name} (plain : ∀ ch ∈ base, ch ≠ '.')
    (plain' : ∀ ch ∈ base', ch ≠ '.') :
    (base ++ if ext = [] then [] else '.' :: ext) =
      (base' ++ if ext' = [] then [] else '.' :: ext') ↔
      base = base' ∧ ext = ext' := by
  have front : ∀ base ext : Name, (∀ ch ∈ base, ch ≠ '.') →
      (base ++ if ext = [] then [] else '.' :: ext).takeWhile (· ≠ '.') = base := by
    intro base ext plain
    rw [List.takeWhile_append_of_pos (by simpa using plain)]
    split <;> simp
  constructor
  · intro same
    have bases := congrArg (List.takeWhile (· ≠ '.')) same
    rw [front base ext plain, front base' ext' plain'] at bases
    subst bases
    have rest := List.append_cancel_left same
    split_ifs at rest <;> simp_all
  · rintro ⟨rfl, rfl⟩
    rfl

theorem Legal.shortName_eq_iff (legal : record.Legal) : record.shortName = record.name83 ↔
    Printable (record.field 0 8) ∧ Printable (record.field 8 3) := by
  obtain ⟨baseLegal, extLegal⟩ := legal.field
  rw [← printed_eq_trimmed_iff baseLegal, ← printed_eq_trimmed_iff extLegal, shortName, name83]
  refine dotted_eq_iff ?_ fun ch member => (trimmed_plain baseLegal ch member).1
  intro ch member
  obtain ⟨byte, kept, rfl⟩ := List.mem_map.mp member
  obtain ⟨small, allowed⟩ := baseLegal byte ((List.takeWhile_prefix _).mem kept)
  exact (table_legal byte small allowed).1

theorem Legal.base_ne_nil (legal : record.Legal) : trimmed (record.field 0 8) ≠ [] := by
  intro empty
  simp only [trimmed, List.map_eq_nil_iff, List.rdropWhile_eq_nil_iff] at empty
  have first : (record 0).toNat ∈ record.field 0 8 := by
    simp [Record.field, List.range_succ]
  have space := empty _ first
  simp only [decide_eq_true_eq] at space
  exact legal.start (UInt8.toNat_inj.mp space)

theorem trimmed_length (bytes : List Nat) : (trimmed bytes).length ≤ bytes.length := by
  rw [trimmed, List.length_map]
  exact (List.rdropWhile_prefix _ bytes).length_le

theorem Legal.field83_name83 (legal : record.Legal) :
    field83 record.name83 = some (record.field 0 11) := by
  obtain ⟨baseLegal, extLegal⟩ := legal.field
  have basePlain := trimmed_plain baseLegal
  have extPlain := trimmed_plain extLegal
  have basePad := padField_trimmed baseLegal
  have extPad := padField_trimmed extLegal
  have baseLength := trimmed_length (record.field 0 8)
  have extLength := trimmed_length (record.field 8 3)
  have some_base := List.length_pos_iff.mpr legal.base_ne_nil
  have eight : (record.field 0 8).length = 8 := by simp [Record.field]
  have three : (record.field 8 3).length = 3 := by simp [Record.field]
  rw [eight] at basePad baseLength
  rw [three] at extPad extLength
  rw [field_split, ← basePad, ← extPad]
  simp only [name83]
  generalize trimmed (record.field 0 8) = base at *
  generalize trimmed (record.field 8 3) = ext at *
  have baseDots : base.count '.' = 0 :=
    List.count_eq_zero.mpr fun member => (basePlain _ member).1 rfl
  have extDots : ext.count '.' = 0 := List.count_eq_zero.mpr fun member => (extPlain _ member).1 rfl
  have kept : ∀ ch ∈ base, decide (ch ≠ '.') = true := fun ch member => by
    simp [basePlain ch member]
  cases ext with
  | nil =>
    have front : base.takeWhile (· ≠ '.') = base := List.takeWhile_eq_self_iff.mpr kept
    have back : base.dropWhile (· ≠ '.') = [] := List.dropWhile_eq_nil_iff.mpr kept
    simp only [if_true, List.append_nil, field83, front, back, baseDots, List.drop_nil]
    rw [if_neg (by simp only [List.length_nil]; omega)]
  | cons ch ext =>
    have front : (base ++ '.' :: ch :: ext).takeWhile (· ≠ '.') = base := by
      rw [List.takeWhile_append_of_pos kept]
      simp
    have back : (base ++ '.' :: ch :: ext).dropWhile (· ≠ '.') = '.' :: ch :: ext := by
      rw [List.dropWhile_append_of_pos kept]
      simp
    have dots : (base ++ '.' :: ch :: ext).count '.' = 1 := by
      rw [List.count_append, List.count_cons_self, baseDots, extDots]
    simp only [reduceCtorEq, if_false, field83, front, back, dots, List.drop_succ_cons,
      List.drop_zero]
    rw [if_neg (by omega)]

theorem Legal.name83_component (legal : record.Legal) : record.name83 ≠ [] ∧
      ∀ ch ∈ record.name83, ch ≠ '/' := by
  obtain ⟨baseLegal, extLegal⟩ := legal.field
  constructor
  · intro empty
    exact legal.base_ne_nil (List.append_eq_nil_iff.mp empty).1
  · intro ch member
    simp only [name83, List.mem_append] at member
    rcases member with inBase | inExt
    · exact (trimmed_plain baseLegal ch inBase).2
    · split at inExt
      · cases inExt
      · rcases List.mem_cons.mp inExt with rfl | inExt
        · decide
        · exact (trimmed_plain extLegal ch inExt).2

end Record

end Zapada.Fat32
