import Zapada.Fat32.DirectoryReports

namespace Zapada.Fat32

open Foundation Storage Image Slots Fat32Mount Record List

/-- The listing of a directory reports the 8.3 names of the records that count, and a
lookup of such a name leads to the record. -/
def Agrees (image : Memory) (clusters : List Nat) (mount : Fat32Mount) (node : Fin maxNodes)
    (path : Name) (counts : Record → Bool) : Prop :=
  let listing := (mount.listDirectory node.val).2
  listing.reported.map Reported.name = ((entries image clusters).filter counts).map name83 ∧
    ∀ record ∈ entries image clusters, counts record →
      ∃ (handle : Fin maxNodes) (after : Fat32Mount) (name : Name),
        listing.mount.resolve (some (path ++ '/' :: record.name83)) = ((handle.val : Int), after) ∧
        after.slots handle = some ⟨record.firstCluster, record.size, record.kind, name⟩

/-- A record that a lookup takes for another one: neither deleted nor part of a long
name, with the same name field. -/
def Record.namesake (record other : Record) : Bool :=
  !other.isDeleted && !other.isLongNamePart && decide (other.field 0 11 = record.field 0 11)

/-- When listing and lookup agree on the entries of a directory. -/
structure AgreementCondition (image : Memory) (clusters : List Nat)
    (mount : Fat32Mount) : Prop where
  /-- The entries lie in the first 128 clusters and below sector 2^31. -/
  reached : ∀ i record, (entries image clusters)[i]? = some record → record.isEntry →
    i < dirEntriesPerSector * (scannedSectors image clusters).length
  /-- The names have no inner space and no byte that the driver cannot print. -/
  printed : ∀ record ∈ entries image clusters, record.isEntry →
    Printable (record.field 0 8) ∧ Printable (record.field 8 3)
  /-- The node table has a free node for every entry that it does not hold yet. -/
  room : (mount.slots.unseen id (((entries image clusters).filter Record.isEntry).map
    Record.entry)).card ≤ mount.slots.free
  /-- The first record with an entry's name, be it a volume label, is as good as the entry. -/
  first : ∀ record ∈ entries image clusters, record.isEntry →
    ((seen image clusters).find? record.namesake).map Record.facts = some record.facts

namespace DirectoryAt

variable {image : Memory} {before mount : Fat32Mount} {node : Fin maxNodes} {clusters : List Nat}
variable (standing : Standing image mount) (directory : DirectoryAt image mount node clusters)

include standing directory

theorem held_after_listing
    (reached : ∀ i record, (entries image clusters)[i]? = some record → record.isEntry →
      i < dirEntriesPerSector * (scannedSectors image clusters).length)
    (room : (mount.slots.unseen id (((entries image clusters).filter Record.isEntry).map
      Record.entry)).card ≤ mount.slots.free)
    (member : record ∈ entries image clusters) (isEntry : record.isEntry) :
    record.entry ∈ (mount.listDirectory node.val).2.mount.slots.keys id := by
  obtain ⟨status, listed⟩ := directory.listed standing
  have all :
      (seen image clusters).filter Record.isEntry =
        (entries image clusters).filter Record.isEntry := by
    rw [seen_eq_take]
    exact ((take_sublist _ _).filter _).eq_of_length (filter_take_eq_iff.mpr reached)
  rw [all] at listed
  rw [show (mount.listDirectory node.val).2.mount.slots = _ from listed.slots]
  exact mem_keys_internEach id room (mem_map_of_mem (mem_filter.mpr ⟨member, isEntry⟩))

omit standing in
theorem legal_of_isEntry
    (member : record ∈ entries image clusters) (isEntry : record.isEntry) : record.Legal := by
  simp only [Record.isEntry, Bool.and_eq_true, Bool.not_eq_true'] at isEntry
  rcases directory.named record member isEntry.1 with legal | isDot
  · exact legal
  · rw [isEntry.2] at isDot
    cases isDot

variable (grown : Grown before mount) (rooted : before.Rooted)
  (resolved : before.resolve (some path) = ((node.val : Int), mount))

include grown rooted resolved

omit standing grown in
theorem trail_component : ∃ entries c, clusters.head? = some c ∧
      (∀ entry ∈ entries, entry ∈ mount.slots.keys id) ∧
      ∀ name, trail before.volume before.volume.rootCluster (Fs.components path ++ [name]) =
        extendTrail entries (findEntryInDirectory before.volume (c : Nat) name false) := by
  obtain ⟨entries, found, fits, slots, isLast⟩ := resolved_trail rooted resolved
  obtain ⟨entry, held, kind, start⟩ := directory.entry
  obtain ⟨c, head, first⟩ := Option.map_eq_some_iff.mp start
  obtain ⟨rootName, root⟩ := rooted.root
  rw [held, lastEntry, root] at isLast
  have directories : ∀ last ∈ entries.getLast?, last.kind = 2 := by
    intro last final
    rw [Option.mem_def.mp final] at isLast
    obtain rfl := Option.some.inj isLast
    exact kind
  have ends : trailEnd before.volume.rootCluster entries = (c : Int) := by
    rw [trailEnd, show (c : Int) = entry.firstCluster from first]
    cases final : entries.getLast? with
    | some last =>
      rw [final] at isLast
      obtain rfl := Option.some.inj isLast
      rfl
    | none =>
      rw [final] at isLast
      obtain rfl := Option.some.inj isLast
      rfl
  refine ⟨entries, c, head, fun entry member => ?_, fun name =>
    by rw [trail_append found directories, ends]⟩
  rw [slots]
  exact mem_keys_internEach id fits member

omit standing in
theorem trail_name {record : Record} (kept : Grown mount later) (legal : record.Legal) :
    ∃ entries c, clusters.head? = some c ∧ (∀ entry ∈ entries, entry ∈ later.slots.keys id) ∧
      trail later.volume later.volume.rootCluster (Fs.components (path ++ '/' :: record.name83)) =
        extendTrail entries (findEntryInDirectory mount.volume (c : Nat) record.name83 false) := by
  obtain ⟨some_name, plain⟩ := legal.name83_component
  obtain ⟨entries, c, head, known, goesOn⟩ := directory.trail_component rooted resolved
  have rootCluster : later.volume.rootCluster = before.volume.rootCluster := by
    obtain ⟨nodes, tokens, disk⟩ := (grown.trans kept).disk
    rw [disk]
  refine ⟨entries, c, head, fun entry member => keys_mono id kept.retains (known entry member), ?_⟩
  rw [Fs.components_slash, Fs.components_name some_name plain, rootCluster,
    trail_sameDisk (grown.trans kept).disk, goesOn, findEntryInDirectory_sameDisk grown.disk]

/-- When a lookup of a record's name leads to the record, in a table that holds it. -/
theorem resolves_iff {record : Record}
    (kept : Grown mount later) (legal : record.Legal) (held : record.entry ∈ later.slots.keys id) :
    (∃ (handle : Fin maxNodes) (after : Fat32Mount) (name : Name),
        later.resolve (some (path ++ '/' :: record.name83)) = ((handle.val : Int), after) ∧
        after.slots handle = some ⟨record.firstCluster, record.size, record.kind, name⟩) ↔
      ((seen image clusters).find? record.namesake).map Record.facts = some record.facts := by
  obtain ⟨entries, c, head, known, walked⟩ := directory.trail_name grown rooted resolved kept legal
  have laterRooted := kept.rooted standing.rooted
  have asked : (fun other => answers record.name83 other) = record.namesake := by
    funext other
    simp only [answers, legal.field83_name83, Option.some.injEq, namesake]
    congr 1
    exact decide_eq_decide.mpr ⟨Eq.symm, Eq.symm⟩
  cases found : (seen image clusters).find? record.namesake with
  | none =>
    rw [← asked] at found
    obtain ⟨rc, low, failed⟩ :=
      findEntryInDirectory_none standing.mounted directory.chain head found false
    rw [failed, extendTrail] at walked
    refine iff_of_false ?_ (by simp)
    rintro ⟨handle, after, name, same, -⟩
    obtain ⟨_, ended, -⟩ := resolved_trail laterRooted same
    rw [walked] at ended
    cases ended
  | some other =>
    have sameField : other.field 0 11 = record.field 0 11 := by
      have chosen := find?_some found
      simp only [namesake, Bool.and_eq_true, decide_eq_true_eq] at chosen
      exact chosen.2
    rw [← asked] at found
    rw [findEntryInDirectory_some standing.mounted directory.chain head found false] at walked
    simp only [Bool.false_eq_true, false_and, if_false, extendTrail] at walked
    simp only [Option.map_some, Option.some.injEq]
    have isLast : later.lastEntry (entries ++ [other.entry]) = some other.entry := by
      simp [lastEntry]
    constructor
    · rintro ⟨handle, after, name, same, stored⟩
      obtain ⟨_, ended, -, -, reached⟩ := resolved_trail laterRooted same
      rw [walked] at ended
      cases ended
      rw [stored, isLast, Option.some.injEq] at reached
      simp only [Record.entry, NodeEntry.mk.injEq] at reached
      simp [Record.facts, reached]
    · intro facts
      have sameEntry : other.entry = record.entry := by
        obtain ⟨base, ext⟩ := field_parts sameField
        obtain ⟨base', ext'⟩ := field_parts (rfl : record.field 0 11 = _)
        simp only [Record.facts, Prod.mk.injEq] at facts
        simp [Record.entry, shortName, base, ext, base', ext', facts]
      have inTable : later.slots.unseen id (entries ++ [other.entry]) = ∅ := by
        rw [unseen, Finset.sdiff_eq_empty_iff_subset]
        intro entry member
        simp only [map_id, mem_toFinset, mem_append, mem_singleton] at member
        rcases member with earlier | rfl
        · exact known entry earlier
        · rw [sameEntry]
          exact held
      obtain ⟨node, after, entry, same, -, -, reached, isEntry⟩ := resolve_fits laterRooted walked
        (by rw [Fits, inTable]; simp)
      obtain rfl := Option.some.inj (isLast.symm.trans isEntry)
      exact ⟨node, after, record.shortName, same, by rw [reached, sameEntry]; rfl⟩

theorem agrees_iff :
    Agrees image clusters mount node path Record.isEntry ↔
      AgreementCondition image clusters mount := by
  have kept := (listDirectory_tended standing.rooted (node.val : Int)).toGrown
  have reports := directory.reports_iff standing
  have names :
      (∀ record ∈ entries image clusters, record.isEntry → record.shortName = record.name83) ↔ _ :=
    forall₃_congr fun record member isEntry =>
      (directory.legal_of_isEntry member isEntry).shortName_eq_iff
  rw [names] at reports
  constructor
  · rintro ⟨reported, finds⟩
    obtain ⟨reached, printed, room⟩ := reports.mp reported
    refine ⟨reached, printed, room, fun record member isEntry => ?_⟩
    exact (directory.resolves_iff standing grown rooted resolved kept
      (directory.legal_of_isEntry member isEntry)
      (directory.held_after_listing standing reached room member isEntry)).mp
      (finds record member isEntry)
  · intro condition
    refine ⟨reports.mpr ⟨condition.reached, condition.printed, condition.room⟩, fun record member
      isEntry => ?_⟩
    exact (directory.resolves_iff standing grown rooted resolved kept
      (directory.legal_of_isEntry member isEntry)
      (directory.held_after_listing standing condition.reached condition.room member isEntry)).mpr
      (condition.first record member isEntry)

end DirectoryAt

end Zapada.Fat32
