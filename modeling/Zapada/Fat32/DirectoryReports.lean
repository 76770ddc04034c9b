import Zapada.Fat32.LookupRuns
import Zapada.Fat32.ShortNames

namespace Zapada.Fat32

open Foundation Storage Image Record List

namespace Image

theorem length_sectorRecords (image : Memory) (sector : Nat) :
    (sectorRecords image sector).length = dirEntriesPerSector := by
  simp [sectorRecords]

theorem records_take (image : Memory) (sectors : List Nat) (count : Nat) :
    records image (sectors.take count) = (records image sectors).take
      (dirEntriesPerSector * count) := by
  induction sectors generalizing count with
  | nil => simp [records]
  | cons sector rest ih =>
    cases count with
    | zero => simp [records]
    | succ count =>
      have length := length_sectorRecords image sector
      have more : dirEntriesPerSector * (count + 1) =
          (sectorRecords image sector).length + dirEntriesPerSector * count := by
        rw [length, Nat.mul_succ, Nat.add_comm]
      simp only [records, take_succ_cons, flatMap_cons] at ih ⊢
      rw [ih, more, take_length_add_append]

/-- A walk sees the entries of the directory up to the last sector it gets to. -/
theorem seen_eq_take (image : Memory) (clusters : List Nat) : seen image clusters =
      (entries image clusters).take (dirEntriesPerSector *
        (scannedSectors image clusters).length) := by
  have front : scannedSectors image clusters <+: dirSectors image clusters := by
    have followed :
        dirSectors image (clusters.take maxClusterChain) <+: dirSectors image clusters := by
      refine ⟨dirSectors image (clusters.drop maxClusterChain), ?_⟩
      rw [dirSectors, dirSectors, ← flatMap_append, take_append_drop, dirSectors]
    exact ( takeWhile_prefix _).trans followed
  rw [seen, scanned, entries, take_takeWhile, ← records_take, ← prefix_iff_eq_take.mp front]

end Image

/-- Selecting from a beginning selects all exactly if nothing is selected behind it. -/
theorem filter_take_eq_iff {items : List α} {count : Nat} :
    ((items.take count).filter p).length = (items.filter p).length ↔
      ∀ i item, items[i]? = some item → p item → i < count := by
  have split : (items.filter p).length =
      ((items.take count).filter p).length + ((items.drop count).filter p).length := by
    rw [← length_append, ← filter_append, take_append_drop]
  rw [split, Nat.left_eq_add, length_eq_zero_iff, filter_eq_nil_iff]
  constructor
  · intro none i item here chosen
    by_contra behind
    refine none item ?_ chosen
    rw [mem_iff_getElem?]
    exact ⟨i - count, by rw [getElem?_drop, Nat.add_sub_cancel' (by omega), here]⟩
  · intro early item member chosen
    obtain ⟨i, here⟩ := mem_iff_getElem?.mp member
    rw [getElem?_drop] at here
    have := early _ item here chosen
    omega

/-- A directory of a mounted volume, by its node, and the clusters that hold it. Its
files and directories have legal short names. -/
structure DirectoryAt (image : Memory) (mount : Fat32Mount) (node : Fin maxNodes)
    (clusters : List Nat) : Prop where
  entry : ∃ entry, mount.slots node = some entry ∧ entry.kind = 2 ∧
    clusters.head?.map Int.ofNat = some entry.firstCluster
  chain : Image.Chain image mount.volume.partition.sectorCount.toNat clusters
  named : ∀ record ∈ Image.entries image clusters, record.isLive → record.Legal ∨ record.isDot

/-- A file or a directory other than `.` and `..`. -/
def Record.isEntry (record : Record) : Bool := record.isLive && !record.isDot

namespace DirectoryAt

variable {image : Memory} {mount : Fat32Mount} {node : Fin maxNodes} {clusters : List Nat}

theorem isDotName_eq (directory : DirectoryAt image mount node clusters)
    (member : record ∈ entries image clusters) (live : record.isLive = true) :
    record.isDotName = record.isDot := by
  cases dot : record.isDot with
  | true => exact record.isDotName_of_isDot dot
  | false =>
    rcases directory.named record member live with legal | isDot
    · exact legal.isDotName
    · rw [dot] at isDot
      cases isDot

theorem shown_eq (directory : DirectoryAt image mount node clusters) :
    recordView.shown (scanned image clusters) = (seen image clusters).filter isEntry := by
  refine filter_congr fun record member => ?_
  have listed : record ∈ entries image clusters := by
    rw [show (scanned image clusters).takeWhile (!recordView.isEnd ·) =
      seen image clusters from rfl, seen_eq_take] at member
    exact mem_of_mem_take member
  simp only [recordView, isEntry]
  cases live : record.isLive with
  | false => rfl
  | true => rw [directory.isDotName_eq listed live]

/-- `ListDirectory` goes over the entries it gets to. -/
theorem listed (standing : Standing image mount)
    (directory : DirectoryAt image mount node clusters) :
    ∃ status, Listed ⟨mount, []⟩ (.error (mount.listDirectory node.val))
      (((seen image clusters).filter isEntry).map Record.entry) (some status) := by
  obtain ⟨entry, held, kind, start⟩ := directory.entry
  obtain ⟨valid, nodeKind, cluster⟩ := Fat32Mount.validNode_of_slots held
  obtain ⟨c, head, first⟩ := Option.map_eq_some_iff.mp start
  obtain ⟨complete, walked⟩ := listWalk_respects.overChain_eq standing.mounted directory.chain head
    ⟨mount, []⟩
  have result := recordView.foldlM_list (scanned image clusters)
    (show (⟨mount, []⟩ : Listing).mount.Rooted from standing.rooted)
  rw [directory.shown_eq] at result
  have isCluster : (mount.volume.nodes node).firstCluster = (c : Int) := by
    rw [cluster, ← first]
    rfl
  have isDirectory : (mount.volume.nodes node).kind = 2 := by rw [nodeKind, kind]
  rw [Fat32Mount.listDirectory_eq valid isDirectory, isCluster, walked]
  exact ⟨_, result.finish complete⟩

theorem reports_iff (standing : Standing image mount)
    (directory : DirectoryAt image mount node clusters) :
    (mount.listDirectory node.val).2.reported.map Reported.name =
        ((entries image clusters).filter isEntry).map name83 ↔
      (∀ i record, (entries image clusters)[i]? = some record → record.isEntry →
          i < dirEntriesPerSector * (scannedSectors image clusters).length) ∧
        (∀ record ∈ entries image clusters, record.isEntry → record.shortName = record.name83) ∧
        (mount.slots.unseen id (((entries image clusters).filter isEntry).map
          Record.entry)).card ≤ mount.slots.free := by
  obtain ⟨status, listed⟩ := directory.listed standing
  have reported := listed.reported
  have fits := Slots.internEach_all_iff id mount.slots
    (((seen image clusters).filter isEntry).map Record.entry)
  have part := Slots.internEach_initial id mount.slots
    (((seen image clusters).filter isEntry).map Record.entry)
  have names :
      (mount.listDirectory node.val).2.reported.map Reported.name = ((mount.slots.internEach id
        (((seen image clusters).filter isEntry).map Record.entry)).1.map Prod.snd).map
          NodeEntry.name := by
    rw [show (mount.listDirectory node.val).2.reported = _ from reported]
    simp only [nil_append, map_map]
    rfl
  rw [names]
  have reached := @filter_take_eq_iff _ isEntry (entries image clusters)
    (dirEntriesPerSector * (scannedSectors image clusters).length)
  rw [← seen_eq_take] at reached
  have fewer : ((seen image clusters).filter isEntry).Sublist
      ((entries image clusters).filter isEntry) := by
    rw [seen_eq_take]
    exact (take_sublist _ _).filter _
  have printed : ∀ records :
      List Record, (records.map Record.entry).map NodeEntry.name = records.map shortName := by
    intro records
    rw [map_map]
    rfl
  rw [← reached]
  generalize (mount.slots.internEach id
    (((seen image clusters).filter isEntry).map Record.entry)).1.map Prod.snd = done at *
  constructor
  · intro same
    have counted := congrArg length same
    rw [length_map, length_map] at counted
    have bound := part.length_le
    have short := fewer.length_le
    rw [length_map] at bound
    have all : ((seen image clusters).filter isEntry) = (entries image clusters).filter isEntry :=
      fewer.eq_of_length_le (by omega)
    have whole : done = ((seen image clusters).filter isEntry).map Record.entry :=
      part.eq_of_length_le (by rw [length_map]; omega)
    refine ⟨by rw [all], ?_, ?_⟩
    · rw [whole, all, printed] at same
      intro record member chosen
      exact map_inj_left.mp same record (mem_filter.mpr ⟨member, chosen⟩)
    · rw [← all]
      exact fits.mp whole
  · rintro ⟨length, shown, room⟩
    have all : ((seen image clusters).filter isEntry) =
        (entries image clusters).filter isEntry := fewer.eq_of_length length
    rw [all] at fits
    rw [fits.mpr room, printed]
    refine map_congr_left fun record member => ?_
    obtain ⟨member, chosen⟩ := mem_filter.mp member
    exact shown record member chosen

end DirectoryAt

end Zapada.Fat32
