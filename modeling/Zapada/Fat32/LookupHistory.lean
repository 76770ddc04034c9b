import Zapada.Fat32.LookupRuns

namespace Zapada.Fat32

open Foundation Storage Fat32Mount Slots StorageStatus

namespace Fat32Mount

def nodeOf (mount : Fat32Mount) (handle : Int) : Option NodeEntry :=
  (mount.volume.validNode handle).bind mount.slots

/-- What a caller learns by resolving a path: a node, or a status. -/
def shows (mount : Fat32Mount) (path : Name) : Except Int (Option NodeEntry) :=
  let (handle, after) := mount.resolve (some path)
  if handle < 0 then .error handle else .ok (after.nodeOf handle)

/-- What a caller learns by listing the directory that a path leads to: a status, and
the name, the kind and the node of every entry reported. -/
def lists (mount : Fat32Mount) (path : Name) :
    Except Int (Int × List (Name × Int × Option NodeEntry)) :=
  let (handle, after) := mount.resolve (some path)
  if handle < 0 then .error handle
  else
    let (status, listing) := after.listDirectory handle
    .ok (status, listing.reported.map fun reported =>
      (reported.name, reported.kind, listing.mount.nodeOf reported.childHandle))

variable {mount : Fat32Mount}

theorem nodeOf_slot (held : mount.slots node = some entry) :
    mount.nodeOf node.val = some entry := by
  rw [nodeOf, (validNode_of_slots held).1]
  exact held

section

variable (rooted : mount.Rooted)
  (found : trail mount.volume mount.volume.rootCluster (Fs.components path) = (entries, none))

include rooted found

theorem shows_eq : mount.shows path = mount.slots.answer id tableFull (mount.slots rootNode) some
      entries none := by
  by_cases fits : mount.slots.Fits id entries
  · obtain ⟨node, after, entry, resolved, -, -, held, isLast⟩ := resolve_fits rooted found fits
    have nonneg : ¬ (node.val : Int) < 0 := by omega
    simp only [shows, resolved, if_neg nonneg, answer, if_pos fits, nodeOf_slot held]
    rw [← isLast]
    rfl
  · obtain ⟨after, resolved⟩ := resolve_full rooted found fits
    have negative : tableFull < 0 := by decide
    simp [shows, resolved, if_pos negative, answer, if_neg fits]

theorem lists_eq (isLast : mount.lastEntry entries = some directory)
    (isDirectory : directory.kind = 2) :
    mount.lists path = mount.slots.report id tableFull
      (listedEntries mount.volume directory.firstCluster).2
      (fun entry => (entry.name, entry.kind, some entry)) entries
      (listedEntries mount.volume directory.firstCluster).1 := by
  by_cases fits : mount.slots.Fits id entries
  · obtain ⟨node, after, entry, resolved, slots, disk, held, same⟩ := resolve_fits rooted found fits
    obtain rfl : directory = entry := Option.some.inj (isLast.symm.trans same)
    have nonneg : ¬ (node.val : Int) < 0 := by omega
    have grown : after.Rooted := rooted.keep disk (by
      rw [slots]
      exact internEach_retains id _ _)
    have listed := listDirectory_listed grown held isDirectory
    rw [listedEntries_sameDisk disk] at listed
    have table := listed.slots
    have status := listed.status
    have reported := listed.reported
    simp only [slots, listingOf, stopOf, List.nil_append] at table status reported
    simp only [lists, resolved, if_neg nonneg, report, if_pos fits, Except.ok.injEq, Prod.mk.injEq]
    constructor
    · rw [← apply_ite some, Option.some.injEq] at status
      rw [status]
      exact if_congr (fits_append id fits _).symm rfl rfl
    · rw [reported, List.map_map, List.map_map]
      refine List.map_congr_left fun done interned => ?_
      obtain ⟨stored, sits, equal⟩ := internEach_held id interned
      rw [← table, show stored = done.2 from equal] at sits
      simp [reportOf, nodeOf_slot sits]
  · obtain ⟨after, resolved⟩ := resolve_full rooted found fits
    have negative : tableFull < 0 := by decide
    simp [lists, resolved, if_pos negative, report, if_neg fits]

end

end Fat32Mount

/-- A volume some time after it was mounted: the disk is the same, and no node has
left the table or taken two slots of it. -/
structure Worn (fresh mount : Fat32Mount) : Prop where
  grown : Grown fresh mount
  rooted : fresh.Rooted
  distinct : mount.slots.Distinct id

theorem worn_mountVolume (mounts : mountVolume (some view) = .ok fresh) : Worn fresh fresh := by
  unfold mountVolume at mounts
  cases opened : initializeVolume (some view) with
  | error status =>
    rw [opened] at mounts
    cases mounts
  | ok volume =>
    rw [opened] at mounts
    cases mounts
    have nodes := nodes_initializeVolume opened
    refine ⟨Grown.refl _, ⟨['/'], ?_⟩, ?_⟩
    · simp [slots, nodes, if_pos (show rootNode.val = 0 from rfl)]
    · intro i j one two here there same
      simp only [slots, nodes] at here there
      by_cases first : i.val = 0
      · by_cases second : j.val = 0
        · exact Fin.ext (first.trans second.symm)
        · simp [second] at there
      · simp [first] at here

theorem worn_run (mounts : mountVolume (some view) = .ok fresh)
    (run : (lookupMachine view).Run log mount) : Worn fresh mount := by
  have rule : (lookupMachine view).Inductive (Worn fresh) := by
    constructor
    · intro mount again
      obtain rfl : fresh = mount := Except.ok.inj (mounts.symm.trans again)
      exact worn_mountVolume mounts
    · intro before label after worn taken
      have rooted := worn.grown.rooted worn.rooted
      have tended := call_tended rooted label.1
      rw [show before.call label.1 = (label.2, after) from taken] at tended
      exact ⟨worn.grown.trans tended.toGrown, worn.rooted, tended.distinct worn.distinct⟩
  exact rule.reached run

variable {fresh mount : Fat32Mount}

section

variable (worn : Worn fresh mount)

include worn

theorem Worn.narrower (entries : List NodeEntry) :
    mount.slots.Fits id entries → fresh.slots.Fits id entries :=
  Slots.Fits.of_retains id worn.distinct worn.grown.retains

theorem Worn.root : mount.slots rootNode = fresh.slots rootNode := by
  obtain ⟨name, root⟩ := worn.rooted.root
  rw [root]
  exact worn.grown.retains _ _ root

theorem Worn.trail_eq (path : Name) :
    trail mount.volume mount.volume.rootCluster (Fs.components path) =
      trail fresh.volume fresh.volume.rootCluster (Fs.components path) := by
  rw [trail_sameDisk worn.grown.disk]
  obtain ⟨nodes, tokens, same⟩ := worn.grown.disk
  rw [same]

/-- A path is shown as on the fresh volume exactly if the node table has room for it,
or a fresh one has not. -/
theorem Worn.shows_eq_iff
    (found : trail fresh.volume fresh.volume.rootCluster (Fs.components path) = (entries, none)) :
    mount.shows path = fresh.shows path ↔
      (fresh.slots.Fits id entries → mount.slots.Fits id entries) := by
  have again := (worn.trail_eq path).trans found
  rw [shows_eq (worn.grown.rooted worn.rooted) again, shows_eq worn.rooted found, worn.root]
  exact answer_eq_iff id worn.narrower _ _ _ _

/-- A directory is listed as on the fresh volume exactly if each beginning of its
entries that a fresh table takes is taken. -/
theorem Worn.lists_eq_iff
    (found : trail fresh.volume fresh.volume.rootCluster (Fs.components path) = (entries, none))
    (isLast : fresh.lastEntry entries = some directory) (isDirectory : directory.kind = 2) :
    mount.lists path = fresh.lists path ↔
      ∀ count ≤ (listedEntries fresh.volume directory.firstCluster).1.length, fresh.slots.Fits id
            (entries ++ (listedEntries fresh.volume directory.firstCluster).1.take count) →
              mount.slots.Fits id
            (entries ++ (listedEntries fresh.volume directory.firstCluster).1.take count) := by
  have again := (worn.trail_eq path).trans found
  have ends : mount.lastEntry entries = some directory := by
    rw [← isLast, lastEntry, worn.root]
    rfl
  rw [lists_eq (worn.grown.rooted worn.rooted) again ends isDirectory,
    lists_eq worn.rooted found isLast isDirectory, listedEntries_sameDisk worn.grown.disk]
  exact report_eq_iff id worn.narrower _ _ _ _ _

end

end Zapada.Fat32
