import Zapada.Fat32.WalkItems
import Zapada.Foundation.InternTable

namespace Zapada.Fat32

open Foundation Storage Slots StorageStatus BufHelper List

/-- Volumes that differ in their tables only. -/
def SameDisk (volume other : Fat32Volume) : Prop :=
  ∃ nodes tokens, other = { volume with nodes, tokens }

theorem SameDisk.refl (volume : Fat32Volume) : SameDisk volume volume := ⟨_, _, rfl⟩

theorem SameDisk.trans (first : SameDisk one two) (second : SameDisk two three) :
    SameDisk one three := by
  obtain ⟨nodes, tokens, rfl⟩ := first
  obtain ⟨nodes', tokens', rfl⟩ := second
  exact ⟨nodes', tokens', rfl⟩

theorem SameDisk.mountedAt (same : SameDisk volume other) (mounted : MountedAt volume image) :
    MountedAt other image := by
  obtain ⟨nodes, tokens, rfl⟩ := same
  exact ⟨⟨mounted.bps, mounted.spc, mounted.spcPositive, mounted.fatStart, mounted.fatCount,
    mounted.dataStart, mounted.holds⟩, mounted.wrapped⟩

theorem chainItems_sameDisk (same : SameDisk volume other) (depth : Nat)
    (cluster : Int) : chainItems other depth cluster = chainItems volume depth cluster := by
  obtain ⟨nodes, tokens, rfl⟩ := same
  induction depth generalizing cluster with
  | zero => rfl
  | succ depth ih =>
    rw [chainItems, chainItems]
    simp only [ih]
    rfl

namespace Fat32Mount

variable {mount after : Fat32Mount}

/-- The table of nodes; an unused node has no entry. -/
def slots (mount : Fat32Mount) : Slots maxNodes NodeEntry := fun i =>
  let node := mount.volume.nodes i
  if node.used then some ⟨node.firstCluster, node.size, node.kind, mount.nodeName i⟩ else none

def rootNode : Fin maxNodes := ⟨0, by decide⟩

/-- The first node stands for the root directory. -/
structure Rooted (mount : Fat32Mount) : Prop where
  root : ∃ name, mount.slots rootNode = some ⟨mount.volume.rootCluster, 0, 2, name⟩

theorem slots_setNode (mount : Fat32Mount) (i : Fin maxNodes) (entry : NodeEntry) :
    (mount.setNode i entry).slots = Function.update mount.slots i (some entry) := by
  funext j
  by_cases here : j = i
  · subst here
    simp [slots, setNode]
  · simp [slots, setNode, here]

theorem sameNode_eq (mount : Fat32Mount) (entry : NodeEntry) :
    mount.sameNode entry = fun i => decide ((mount.slots i).map id = some entry) := by
  funext i
  rw [Bool.eq_iff_iff, decide_eq_true_iff, Option.map_id, id]
  simp only [sameNode, slots]
  cases (mount.volume.nodes i).used with
  | false => simp
  | true => simp [NodeEntry.ext_iff, and_assoc]

theorem isNone_slots (mount : Fat32Mount) (i : Fin maxNodes) :
    (mount.slots i).isNone = !(mount.volume.nodes i).used := by
  simp only [slots]
  cases (mount.volume.nodes i).used <;> rfl

/-- The free node that `CacheNode` takes is the first one: the root is in use. -/
theorem vacant_eq (rooted : mount.Rooted) :
    ((List.finRange maxNodes).find? fun i => 1 ≤ i.val ∧ !(mount.volume.nodes i).used) =
      mount.slots.vacant := by
  obtain ⟨name, root⟩ := rooted.root
  congr 1
  funext i
  rw [isNone_slots, Bool.eq_iff_iff, decide_eq_true_iff]
  constructor
  · exact fun taken => taken.2
  · intro unused
    refine ⟨?_, unused⟩
    by_contra isRoot
    obtain rfl : i = rootNode := Fin.ext (show i.val = 0 by omega)
    rw [← isNone_slots, root] at unused
    cases unused

theorem cacheNode_eq (rooted : mount.Rooted) (entry : NodeEntry) :
    (mount.slots.intern id entry = none ∧ mount.cacheNode entry = (tableFull, mount)) ∨
      ∃ (i : Fin maxNodes) (cached : Fat32Mount),
        mount.slots.intern id entry = some (i, cached.slots) ∧
        mount.cacheNode entry = ((i.val : Int), cached) ∧ SameDisk mount.volume cached.volume := by
  unfold cacheNode
  rw [vacant_eq rooted, sameNode_eq]
  cases found : mount.slots.holding id entry with
  | some i =>
    unfold holding at found
    refine .inr ⟨i, mount, ?_, ?_, SameDisk.refl _⟩
    · simp only [intern, holding, id_eq, found]
    · simp only [found]
  | none =>
    have absent := found
    unfold holding at absent
    cases free : mount.slots.vacant with
    | none =>
      refine .inl ⟨?_, ?_⟩
      · simp [intern, found, free]
      · simp only [absent]
    | some i =>
      refine .inr ⟨i, mount.setNode i entry, ?_, ?_, ⟨_, _, rfl⟩⟩
      · simp [intern, found, free, slots_setNode]
      · simp only [absent]

theorem Rooted.keep (rooted : mount.Rooted) (same : SameDisk mount.volume after.volume)
    (retains : mount.slots.Retains after.slots) : after.Rooted := by
  obtain ⟨name, root⟩ := rooted.root
  obtain ⟨nodes, tokens, disk⟩ := same
  refine ⟨name, ?_⟩
  rw [disk]
  exact retains _ _ root

end Fat32Mount

/-- How the entries of a directory are looked at. -/
structure EntryView (α : Type) where
  isEnd : α → Bool
  isShown : α → Bool
  entry : α → NodeEntry

def EntryView.list {α : Type} (view : EntryView α) (listing : Listing) (item : α) :
    Except (Int × Listing) Listing :=
  if view.isEnd item then .error (ok, listing)
  else if view.isShown item then
    let (childHandle, mount) := listing.mount.cacheNode (view.entry item)
    if childHandle < 0 then .error (childHandle, { listing with mount })
    else .ok {
      mount
      reported := listing.reported ++
        [{ childHandle, name := (view.entry item).name, kind := (view.entry item).kind }] }
  else .ok listing

def EntryView.shown {α : Type} (view : EntryView α) (items : List α) : List α :=
  (items.takeWhile (!view.isEnd ·)).filter view.isShown

def recordView : EntryView Record where
  isEnd := Record.isEnd
  isShown record := record.isLive && !record.isDotName
  entry := Record.entry

def itemView : EntryView Item where
  isEnd item := getByte item.secBuf (item.entOff + 0) = 0x00
  isShown item :=
    let attr := getByte item.secBuf (item.entOff + 11)
    let name := (scanEntry item.secBuf item.entOff).name
    getByte item.secBuf (item.entOff + 0) ≠ 0xE5 ∧ attr ≠ attrLfn ∧
      attr &&& attrVolumeId = 0 ∧ ¬ (name = ['.'] ∨ name = ['.', '.'])
  entry item := scanEntry item.secBuf item.entOff

theorem listWalk_visitItem : listWalk.visitItem = itemView.list := by
  funext listing item
  simp only [DirectoryWalk.visitItem, listWalk, EntryView.list, itemView, decide_eq_true_eq]
  by_cases ended : getByte item.secBuf (item.entOff + 0) = 0x00
  · rw [if_pos ended, if_pos ended]
  rw [if_neg ended, if_neg ended]
  by_cases deleted : getByte item.secBuf (item.entOff + 0) = 0xE5
  · rw [if_pos deleted, if_neg fun shown => shown.1 deleted]
  rw [if_neg deleted]
  by_cases longName : getByte item.secBuf (item.entOff + 11) = attrLfn
  · rw [if_pos longName, if_neg fun shown => shown.2.1 longName]
  rw [if_neg longName]
  by_cases label : getByte item.secBuf (item.entOff + 11) &&& attrVolumeId = 0
  · rw [if_neg (not_not.mpr label)]
    by_cases dots : (scanEntry item.secBuf item.entOff).name = ['.'] ∨
        (scanEntry item.secBuf item.entOff).name = ['.', '.']
    · rw [if_pos dots, if_neg fun shown => shown.2.2.2 dots]
    · rw [if_neg dots, if_pos (show _ ∧ _ ∧ _ ∧ _ from ⟨deleted, longName, label, dots⟩)]
      rfl
  · rw [if_pos label, if_neg fun shown => label shown.2.2.1]

def findStep (component : Name) (requireDirectory : Bool) (_ : Unit) (record : Record) :
    Except (Except Int NodeEntry) Unit :=
  if record.isEnd then .error (.error notFound)
  else if record.answers component then
    if requireDirectory ∧ !record.isDirectory then .error (.error notDirectory)
    else .error (.ok record.entry)
  else .ok ()

section Tests

variable (sector : Memory) {entOff : Nat} (inside : entOff + 31 < 512)
include inside

theorem isEnd_iff : getByte (packSector sector) (entOff + 0) = 0x00 ↔
    (recordAt sector entOff).isEnd = true := by
  rw [Record.isEnd, decide_eq_true_iff]
  exact getByte_eq_iff sector inside 0 (by omega) 0x00

theorem isDeleted_iff : getByte (packSector sector) (entOff + 0) = 0xE5 ↔
    (recordAt sector entOff).isDeleted = true := by
  rw [Record.isDeleted, decide_eq_true_iff]
  exact getByte_eq_iff sector inside 0 (by omega) 0xE5

theorem isLongNamePart_iff : getByte (packSector sector) (entOff + 11) = attrLfn ↔
    (recordAt sector entOff).isLongNamePart = true := by
  rw [Record.isLongNamePart, decide_eq_true_iff]
  exact getByte_eq_iff sector inside 11 (by omega) 0x0F

theorem isVolumeLabel_iff : getByte (packSector sector) (entOff + 11) &&& attrVolumeId = 0 ↔
      (recordAt sector entOff).isVolumeLabel = false := by
  rw [Record.isVolumeLabel, decide_eq_false_iff_not, not_not]
  exact getByte_and_iff sector inside 0x08

theorem isDirectory_iff : getByte (packSector sector) (entOff + 11) &&& attrDirectory = 0 ↔
      (recordAt sector entOff).isDirectory = false := by
  rw [Record.isDirectory, decide_eq_false_iff_not, not_not]
  exact getByte_and_iff sector inside 0x10

end Tests

theorem listWalk_respects : listWalk.Respects recordView.list := by
  intro listing sector entOff inside
  have isEnd :
      itemView.isEnd ⟨packSector sector, entOff⟩ = recordView.isEnd (recordAt sector entOff) := by
    simp only [itemView, recordView, isEnd_iff sector inside, Bool.decide_eq_true]
  have isShown :
      itemView.isShown ⟨packSector sector, entOff⟩ =
        recordView.isShown (recordAt sector entOff) := by
    simp only [itemView, recordView, Record.isLive, Record.isDotName, Record.entry,
      scanEntry_eq sector inside,
      isDeleted_iff sector inside, isLongNamePart_iff sector inside,
        isVolumeLabel_iff sector inside, ne_eq]
    simp [Bool.and_assoc]
  have entry :
      itemView.entry ⟨packSector sector, entOff⟩ = recordView.entry (recordAt sector entOff) := by
    simp only [itemView, recordView, scanEntry_eq sector inside]
  have visited := congrFun (congrFun listWalk_visitItem listing) ⟨packSector sector, entOff⟩
  rw [EntryView.list, isEnd, isShown, entry] at visited
  simpa only [DirectoryWalk.visitItem, EntryView.list] using visited

theorem findWalk_respects (component : Name) (requireDirectory : Bool) :
    (findWalk component requireDirectory).Respects (findStep component requireDirectory) := by
  intro state sector entOff inside
  simp only [findWalk, findStep, scanEntry_eq sector inside, isEnd_iff sector inside,
    isDeleted_iff sector inside, isLongNamePart_iff sector inside, isDirectory_iff sector inside,
    matchPathComponent83_eq sector inside]
  generalize recordAt sector entOff = record
  cases isEnd : record.isEnd with
  | true => rfl
  | false =>
    cases deleted : record.isDeleted with
    | true => simp [Record.answers, deleted]
    | false =>
      cases longName : record.isLongNamePart with
      | true => simp [Record.answers, longName]
      | false =>
        by_cases asked : field83 component = some (record.field 0 11)
        · simp [Record.answers, deleted, longName, asked]
        · simp [Record.answers, asked]

/-- The records a walk sees before the end mark. -/
def Image.seen (image : Memory) (clusters : List Nat) : List Record :=
  (Image.scanned image clusters).takeWhile (!·.isEnd)

theorem foldlM_findStep (component : Name) (requireDirectory : Bool) (records : List Record) :
    records.foldlM (findStep component requireDirectory) () =
      match (records.takeWhile (!·.isEnd)).find? (·.answers component) with
      | some record =>
        .error (if requireDirectory ∧ !record.isDirectory then
          .error notDirectory else .ok record.entry)
      | none => if records.any (·.isEnd) then .error (.error notFound) else .ok () := by
  induction records with
  | nil => rfl
  | cons record rest ih =>
    rw [foldlM_cons, findStep]
    cases isEnd : record.isEnd with
    | true =>
      simp [isEnd]
      rfl
    | false =>
      by_cases answers : record.answers component
      · simp only [isEnd, answers, takeWhile_cons, Bool.not_false, if_true, List.find?_cons,
          Bool.false_eq_true, if_false]
        split <;> rfl
      · simp only [isEnd, answers, takeWhile_cons, Bool.not_false, if_true, List.find?_cons,
          any_cons, Bool.false_or]
        exact ih

section Calls

variable {volume : Fat32Volume} {image : Memory} {clusters : List Nat} {c : Nat}

/-- A lookup takes the first record it sees that answers the component. -/
theorem findEntryInDirectory_some (mounted : MountedAt volume image)
    (chain : Image.Chain image volume.partition.sectorCount.toNat clusters)
    (start : clusters.head? = some c)
    (found : (Image.seen image clusters).find? (·.answers component) = some record)
    (requireDirectory : Bool) : findEntryInDirectory volume c component requireDirectory =
      if requireDirectory ∧ !record.isDirectory then .error notDirectory
      else .ok record.entry := by
  obtain ⟨complete, walked⟩ :=
    (findWalk_respects component requireDirectory).overChain_eq mounted chain start ()
  unfold Image.seen at found
  rw [findEntryInDirectory, walked, foldlM_findStep, found]
  rfl

theorem findEntryInDirectory_none (mounted : MountedAt volume image)
    (chain : Image.Chain image volume.partition.sectorCount.toNat clusters)
    (start : clusters.head? = some c)
    (absent : (Image.seen image clusters).find? (·.answers component) = none)
    (requireDirectory : Bool) :
    ∃ rc < 0, findEntryInDirectory volume c component requireDirectory = .error rc := by
  obtain ⟨complete, walked⟩ :=
    (findWalk_respects component requireDirectory).overChain_eq mounted chain start ()
  unfold Image.seen at absent
  rw [findEntryInDirectory, walked, foldlM_findStep, absent]
  by_cases ended : (Image.scanned image clusters).any (·.isEnd)
  · simp only [ended, if_true]
    exact ⟨notFound, by decide, rfl⟩
  · simp only [ended]
    cases complete with
    | true => exact ⟨notFound, by decide, rfl⟩
    | false => exact ⟨ioError, by decide, rfl⟩

end Calls

/-- The listing that a walk leaves, however it ends. -/
def listingOf : Except (Int × Listing) Listing → Listing
  | .ok listing => listing
  | .error (_, listing) => listing

def stopOf : Except (Int × Listing) Listing → Option Int
  | .ok _ => none
  | .error (status, _) => some status

def reportOf (handle : Fin maxNodes) (entry : NodeEntry) : Reported :=
  { childHandle := handle, name := entry.name, kind := entry.kind }

/-- The listing went on with these entries, as many as the node table took, and ended
with the status if it took them all. -/
structure Listed (before : Listing) (result : Except (Int × Listing) Listing)
    (entries : List NodeEntry) (stop : Option Int) : Prop where
  reported : (listingOf result).reported = before.reported ++
    (before.mount.slots.internEach id entries).1.map fun done => reportOf done.1 done.2
  slots : (listingOf result).mount.slots = (before.mount.slots.internEach id entries).2
  disk : SameDisk before.mount.volume (listingOf result).mount.volume
  status : stopOf result = if before.mount.slots.Fits id entries then stop else some tableFull

theorem Listed.nothing (same : listingOf result = listing) :
    Listed listing result [] (stopOf result) := by
  have fits : listing.mount.slots.Fits id [] := by simp [fits_iff, internEach]
  subst same
  exact ⟨by simp [internEach], rfl, SameDisk.refl _, by rw [if_pos fits]⟩

/-- A listing that finds the table full stops. -/
theorem Listed.full (full : listing.mount.slots.intern id entry = none) :
    Listed listing (.error (tableFull, listing)) (entry :: rest) stop :=
  ⟨by simp [internEach, full, listingOf], by simp [internEach, full, listingOf],
    SameDisk.refl _, by rw [if_neg (not_fits_cons id full rest)]; rfl⟩

theorem Listed.next (interned : before.mount.slots.intern id entry = some (i, cached.slots))
    (disk : SameDisk before.mount.volume cached.volume)
    (later : Listed ⟨cached, before.reported ++ [reportOf i entry]⟩ result rest stop) :
    Listed before result (entry :: rest) stop := by
  refine ⟨?_, ?_, disk.trans later.disk, ?_⟩
  · rw [later.reported]
    simp [internEach, interned]
  · rw [later.slots]
    simp [internEach, interned]
  · rw [later.status]
    exact if_congr (fits_cons id interned rest).symm rfl rfl

theorem EntryView.foldlM_list (view : EntryView α) (items : List α)
    (rooted : listing.mount.Rooted) :
    Listed listing (items.foldlM view.list listing) ((view.shown items).map view.entry)
      (if items.any view.isEnd then some ok else none) := by
  induction items generalizing listing with
  | nil => exact .nothing rfl
  | cons item rest ih =>
    rw [foldlM_cons, EntryView.list]
    cases isEnd : view.isEnd item with
    | true =>
      have nothing : view.shown (item :: rest) = [] := by simp [EntryView.shown, isEnd]
      rw [nothing, any_cons, isEnd]
      exact .nothing rfl
    | false =>
      rw [any_cons, isEnd, Bool.false_or]
      cases isShown : view.isShown item with
      | true =>
        have first : view.shown (item :: rest) = item :: view.shown rest := by
          simp [EntryView.shown, isEnd, isShown]
        rw [if_pos rfl, first, map_cons]
        rcases Fat32Mount.cacheNode_eq rooted (view.entry item) with
          ⟨full, result⟩ | ⟨i, cached, interned, result, disk⟩
        · rw [result]
          exact .full full
        · have nonneg : ¬ (i.val : Int) < 0 := by omega
          rw [result]
          exact .next interned disk (ih (rooted.keep disk (intern_retains id interned)))
      | false =>
        have skipped : view.shown (item :: rest) = view.shown rest := by
          simp [EntryView.shown, isEnd, isShown]
        rw [skipped]
        exact ih rooted

/-- What `ListDirectory` makes of a walk that was completed or cut off. -/
def listResult : Except (Int × Listing) Listing → Int × Listing
  | .ok listing => (ok, listing)
  | .error (status, listing) => (status, listing)

theorem Fat32Mount.validNode_of_slots {mount : Fat32Mount}
    (held : mount.slots node = some entry) : mount.volume.validNode node.val = some node ∧
      (mount.volume.nodes node).kind = entry.kind ∧
      (mount.volume.nodes node).firstCluster = entry.firstCluster := by
  simp only [slots] at held
  split at held
  · rename_i used
    cases held
    refine ⟨?_, rfl, rfl⟩
    rw [Fat32Volume.validNode, dif_pos (by omega)]
    simp [used]
  · cases held

theorem Fat32Mount.listDirectory_eq (valid : mount.volume.validNode nodeHandle = some node)
    (isDirectory : (mount.volume.nodes node).kind = 2) :
    mount.listDirectory nodeHandle = listResult (listWalk.overChain mount.volume maxClusterChain
      (mount.volume.nodes node).firstCluster ⟨mount, []⟩) := by
  simp only [Fat32Mount.listDirectory, valid, isDirectory, ne_eq, not_true_eq_false, if_false]
  cases listWalk.overChain mount.volume maxClusterChain (mount.volume.nodes node).firstCluster
      ⟨mount, []⟩ with
  | error stopped => rfl
  | ok listing => rfl

theorem Listed.finish (listed : Listed listing result entries stop) (complete : Bool) :
    Listed listing (.error (listResult (listWalk.finish complete result))) entries
      (some (stop.getD (if complete then ok else ioError))) := by
  have status := listed.status
  have same :
      listingOf (.error (listResult (listWalk.finish complete result))) = listingOf result := by
    cases result with
    | error stopped => rfl
    | ok listing => cases complete <;> rfl
  refine ⟨same ▸ listed.reported, same ▸ listed.slots, same ▸ listed.disk, ?_⟩
  by_cases fits : listing.mount.slots.Fits id entries
  · rw [if_pos fits] at status ⊢
    subst status
    cases result with
    | error stopped => rfl
    | ok listing => cases complete <;> rfl
  · rw [if_neg fits] at status ⊢
    cases result with
    | error stopped => exact status
    | ok listing => cases status

/-- The entries a listing of the chain reports, and the status it ends with. -/
def listedEntries (volume : Fat32Volume) (cluster : Int) : List NodeEntry × Int :=
  let items := chainItems volume maxClusterChain cluster
  ((itemView.shown items.1).map itemView.entry,
    if items.1.any itemView.isEnd ∨ items.2 then ok else ioError)

theorem listedEntries_sameDisk (same : SameDisk volume other)
    (cluster : Int) : listedEntries other cluster = listedEntries volume cluster := by
  simp [listedEntries, chainItems_sameDisk same]

/-- `ListDirectory` interns the entries of the directory one after the other. -/
theorem Fat32Mount.listDirectory_listed
    (rooted : mount.Rooted) (held : mount.slots node = some entry) (isDirectory : entry.kind = 2) :
    Listed ⟨mount, []⟩ (.error (mount.listDirectory node.val))
      (listedEntries mount.volume entry.firstCluster).1
      (some (listedEntries mount.volume entry.firstCluster).2) := by
  obtain ⟨valid, nodeKind, cluster⟩ := Fat32Mount.validNode_of_slots held
  have result := itemView.foldlM_list (chainItems mount.volume maxClusterChain entry.firstCluster).1
    (show (⟨mount, []⟩ : Listing).mount.Rooted from rooted)
  have finished := result.finish (chainItems mount.volume maxClusterChain entry.firstCluster).2
  rw [listDirectory_eq valid (by rw [nodeKind, isDirectory]), cluster,
    DirectoryWalk.overChain_items,
    listWalk_visitItem]
  have status :
      (if (chainItems mount.volume maxClusterChain entry.firstCluster).1.any itemView.isEnd
      then some ok else none).getD
        (if (chainItems mount.volume maxClusterChain entry.firstCluster).2 then ok
          else ioError) = (listedEntries mount.volume entry.firstCluster).2 := by
    simp only [listedEntries]
    cases (chainItems mount.volume maxClusterChain entry.firstCluster).1.any itemView.isEnd <;> simp
  rw [status] at finished
  exact finished

end Zapada.Fat32
