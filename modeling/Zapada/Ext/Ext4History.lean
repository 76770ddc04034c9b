import Zapada.Ext.Ext4Lookups
import Zapada.Foundation.Machine

namespace Zapada.Ext

open Foundation Storage Slots StorageStatus

inductive Ext4Call where
  | resolve (path : Option (List Char))
  | openFile (nodeHandle accessIntent : Int)
  | close (fileToken : Int)
  | listDirectory (nodeHandle : Int)

namespace Ext4Volume

def call (volume : Ext4Volume) : Ext4Call → (Ending × List Reported) × Ext4Volume
  | .resolve path =>
    let (ending, volume) := volume.resolve path
    ((ending, []), volume)
  | .openFile nodeHandle accessIntent =>
    let (ending, volume) := volume.openFile nodeHandle accessIntent
    ((ending, []), volume)
  | .close fileToken =>
    let (ending, volume) := volume.close fileToken
    ((ending, []), volume)
  | .listDirectory nodeHandle =>
    let (ending, listing) := volume.listDirectory nodeHandle
    ((ending, listing.reported), listing.volume)

end Ext4Volume

/-- A volume mounted from a partition, and the lookups on it. -/
def ext4Machine (view : PartitionView) :
    Machine Ext4Volume (Ext4Call × (Ending × List Ext4Volume.Reported)) where
  initial volume := initializeVolume (some view) = .ok volume
  step before label after := before.call label.1 = (label.2, after)

/-- What a caller learns of a node: which inode it is, and what `Stat` tells. -/
structure Ext4Facts where
  inodeNumber : BitVec 32
  kind : Int
  size : Int
  modifiedTime : Int
deriving DecidableEq

def Ext4Node.facts (node : Ext4Node) : Ext4Facts :=
  ⟨node.inodeNumber, node.kind, node.size, node.modifiedTime⟩

namespace Ext4Volume

def factsOf (volume : Ext4Volume) (handle : Int) : Option Ext4Facts :=
  (volume.validNode handle).map Ext4Node.facts

/-- What a caller learns by resolving a path. -/
def shows (volume : Ext4Volume) (path : List Char) : Except Ending (Option Ext4Facts) :=
  match volume.resolve (some path) with
  | (.fault, _) => .error .fault
  | (.returned handle, after) =>
    if handle < 0 then .error (.returned handle) else .ok (after.factsOf handle)

/-- What a caller learns by listing the directory that a path leads to: how the call
ends, and the name, the kind and the node of every entry reported. -/
def lists (volume : Ext4Volume) (path : List Char) :
    Except Ending (Ending × List (List Char × Int × Option Ext4Facts)) :=
  match volume.resolve (some path) with
  | (.fault, _) => .error .fault
  | (.returned handle, after) =>
    if handle < 0 then .error (.returned handle)
    else
      let (ending, listing) := after.listDirectory handle
      .ok (ending, listing.reported.map fun reported =>
        (reported.name, reported.kind, listing.volume.factsOf reported.childHandle))

end Ext4Volume

/-- The file type in a directory record, if it says anything, agrees with the inode. -/
def ExtInodeReader.WellTyped (reader : ExtInodeReader) : Prop :=
  ∀ number directory, reader.readInode number = .ok directory → directory.isDirectory = true →
    ∀ item ∈ (directoryItems reader directory).1, ∀ child,
      reader.readInode item.record.inodeNumber = .ok child →
        kindFromInode child item.record.fileType = kindFromInode child 0

/-- The node says of its inode what the disk says. -/
def Ext4Node.Faithful (reader : ExtInodeReader) (node : Ext4Node) : Prop :=
  ∃ inode, reader.readInode node.inodeNumber = .ok inode ∧
    node.facts = ⟨node.inodeNumber, kindFromInode inode 0, inode.size, inode.modificationTime⟩

theorem Ext4Node.Faithful.facts_eq {one two : Ext4Node} (first : one.Faithful reader)
    (second : two.Faithful reader) (same : one.inodeNumber = two.inodeNumber) :
    one.facts = two.facts := by
  obtain ⟨inode, read, facts⟩ := first
  obtain ⟨inode', read', facts'⟩ := second
  rw [same, read'] at read
  cases read
  rw [facts, facts', same]

theorem kindFromInode_directory : kindFromInode inode 0 = 2 ↔ inode.isDirectory = true := by
  have unknown : (0 : Nat) ≠ ExtDirectoryRecord.fileTypeDirectory := by decide
  unfold kindFromInode
  cases inode.isDirectory with
  | true => simp
  | false =>
    simp only [Bool.false_eq_true, unknown, or_self, if_false]
    split
    · decide
    · decide

theorem Ext4Node.Faithful.isDirectory {node : Ext4Node} (faithful : node.Faithful reader)
    (kind : node.kind = 2) (read : reader.readInode node.inodeNumber = .ok inode) :
    inode.isDirectory = true := by
  obtain ⟨inode', read', facts⟩ := faithful
  rw [read] at read'
  cases read'
  rw [← kindFromInode_directory, ← kind]
  exact (congrArg Ext4Facts.kind facts).symm

section Faithful

variable {reader : ExtInodeReader} {directory : ExtNodeInode}

theorem faithful_nodeFrom (typed : reader.WellTyped)
    (read : reader.readInode number = .ok directory) (isDirectory : directory.isDirectory = true)
    (member : item ∈ (directoryItems reader directory).1)
    (found : reader.readInode item.record.inodeNumber = .ok child) (name : List Char) :
    (nodeFrom item.record child name).Faithful reader := by
  have kind := typed number directory read isDirectory item member child found
  refine ⟨child, found, ?_⟩
  rw [← kind]
  rfl

theorem trail_faithful (typed : reader.WellTyped) (read : reader.readInode number = .ok directory)
    (components : List (List Char)) : ∀ node ∈ (trail reader directory components).1,
      node.Faithful reader := by
  induction components generalizing number directory with
  | nil => simp [trail]
  | cons component rest ih =>
    rw [trail]
    cases found : reader.findEntryInDirectory directory component with
    | error ending => simp
    | ok record =>
      have isDirectory : directory.isDirectory = true := by
        by_contra other
        rw [Bool.not_eq_true] at other
        simp [ExtInodeReader.findEntryInDirectory, other] at found
      obtain ⟨item, member, rfl⟩ := findEntryInDirectory_mem found
      dsimp only
      cases inode : reader.readInode item.record.inodeNumber with
      | error ending => simp
      | ok child =>
        dsimp only
        split
        · simp
        · have first := faithful_nodeFrom typed read isDirectory member inode
            (component.map fun ch => ExtText.byteToString ch.toNat)
          intro node listed
          rcases List.mem_cons.mp listed with rfl | later
          · exact first
          · exact ih inode node later

theorem listedItems_faithful (stop : Option Ending)
    (faithful : ∀ item ∈ items, ∀ child name, reader.readInode item.record.inodeNumber = .ok child →
      (nodeFrom item.record child name).Faithful reader) :
    ∀ node ∈ (listedItems reader stop items).1, node.Faithful reader := by
  induction items with
  | nil => simp [listedItems]
  | cons item rest ih =>
    have later := ih fun other member => faithful other (List.mem_cons_of_mem _ member)
    rw [listedItems]
    split
    · exact later
    split
    · simp
    · exact later
    split
    · simp
    split
    · simp
    rename_i child read _ name _
    intro node listed
    rcases List.mem_cons.mp listed with rfl | member
    · exact faithful item List.mem_cons_self child name read
    · exact later node member

theorem listedNodes_faithful (typed : reader.WellTyped)
    (read : reader.readInode number = .ok directory) (isDirectory : directory.isDirectory = true) :
    ∀ node ∈ (listedNodes reader directory).1, node.Faithful reader :=
  listedItems_faithful _ fun _ member _ name found =>
    faithful_nodeFrom typed read isDirectory member found name

end Faithful

/-- A volume some time after it was mounted: the disk is the same, the nodes say what
the disk says, and none has left the table or taken two slots of it. -/
structure Worn (fresh volume : Ext4Volume) (root : ExtNodeInode) : Prop where
  reader : volume.reader = fresh.reader
  rooted : volume.Rooted root
  retains : fresh.nodes.Retains volume.nodes
  distinct : volume.nodes.Distinct nodeKey
  faithful : ∀ i node, volume.nodes i = some node → node.Faithful volume.reader

section Runs

variable {volume fresh : Ext4Volume} {root : ExtNodeInode}

/-- What a call does to the volume: it interns nodes that say what the disk says. -/
structure Interns (before after : Ext4Volume) : Prop where
  reader : after.reader = before.reader
  nodes : ∃ nodes : List Ext4Node, (∀ node ∈ nodes, node.Faithful before.reader) ∧
    after.nodes = (before.nodes.internEach nodeKey nodes).2

theorem Interns.nothing (reader : after.reader = volume.reader)
    (nodes : after.nodes = volume.nodes) : Interns volume after :=
  ⟨reader, [], by simp, nodes⟩

theorem resolve_eq (rooted : volume.Rooted root) (path : List Char) : volume.resolve (some path) =
      (outcome (.returned tableFull) (fun i => .returned i.val) (.returned 0)
          (trail volume.reader root (Fs.components path)).1
            (trail volume.reader root (Fs.components path)).2
          (volume.nodes.internEach nodeKey (trail volume.reader root (Fs.components path)).1).1,
            volume.setNodes
          (volume.nodes.internEach nodeKey (trail volume.reader root
            (Fs.components path)).1).2) := by
  unfold Ext4Volume.resolve
  dsimp only
  cases Fs.components path with
  | nil => rfl
  | cons component rest =>
    rw [rooted.inode]
    exact Ext4Volume.resolveFrom_eq rooted 0 root (component :: rest)

section

variable (typed : volume.reader.WellTyped) (rooted : volume.Rooted root)

include typed rooted

theorem resolve_interns (path : Option (List Char)) : Interns volume (volume.resolve path).2 := by
  cases path with
  | none => exact .nothing rfl rfl
  | some path =>
    rw [resolve_eq rooted]
    exact ⟨rfl, _, trail_faithful typed rooted.inode _, rfl⟩

theorem listDirectory_interns
    (faithful : ∀ i node, volume.nodes i = some node → node.Faithful volume.reader) (handle : Int) :
    Interns volume (volume.listDirectory handle).2.volume := by
  cases valid : volume.validNode handle with
  | none =>
    simp only [Ext4Volume.listDirectory, valid]
    exact .nothing rfl rfl
  | some node =>
    by_cases isDirectory : node.kind = 2
    · have held : node.Faithful volume.reader := by
        unfold Ext4Volume.validNode at valid
        split at valid
        · exact faithful _ node valid
        · cases valid
      have ⟨directory, read, _⟩ := held
      rw [Ext4Volume.listDirectory_eq rooted valid isDirectory read]
      exact ⟨rfl, _, listedNodes_faithful typed read (held.isDirectory isDirectory read), rfl⟩
    · simp only [Ext4Volume.listDirectory, valid, ne_eq, isDirectory, not_false_eq_true, if_true]
      exact .nothing rfl rfl

theorem call_interns (faithful : ∀ i node, volume.nodes i = some node → node.Faithful volume.reader)
    (call : Ext4Call) : Interns volume (volume.call call).2 := by
  cases call with
  | resolve path => exact resolve_interns typed rooted path
  | listDirectory nodeHandle => exact listDirectory_interns typed rooted faithful nodeHandle
  | close fileToken =>
    simp only [Ext4Volume.call, Ext4Volume.close]
    split
    · exact .nothing rfl rfl
    · exact .nothing rfl rfl
  | openFile nodeHandle accessIntent =>
    simp only [Ext4Volume.call, Ext4Volume.openFile]
    repeat' split
    all_goals exact .nothing rfl rfl

end

theorem Worn.interns (worn : Worn fresh volume root)
    (interns : Interns volume after) : Worn fresh after root := by
  obtain ⟨reader, nodes, faithful, result⟩ := interns
  have retains : volume.nodes.Retains after.nodes := by
    rw [result]
    exact internEach_retains nodeKey _ _
  refine ⟨reader.trans worn.reader, ⟨?_, worn.rooted.isDirectory, retains _ _ worn.rooted.held⟩,
    worn.retains.trans retains, ?_, ?_⟩
  · rw [reader]
    exact worn.rooted.inode
  · rw [result]
    exact worn.distinct.internEach nodeKey _
  · rw [result, reader]
    exact internEach_forall nodeKey worn.faithful faithful

theorem worn_initializeVolume (mounts : initializeVolume (some view) = .ok fresh) :
    ∃ root, Worn fresh fresh root := by
  unfold initializeVolume at mounts
  cases opened : initializeInodeReader (some view) with
  | error ending =>
    rw [opened] at mounts
    cases mounts
  | ok reader =>
    rw [opened] at mounts
    cases read : reader.readInode rootInodeNumber with
    | error ending =>
      simp only [bind, Except.bind, read] at mounts
      cases mounts
    | ok root =>
      simp only [bind, Except.bind, read, pure, Except.pure] at mounts
      split at mounts
      · cases mounts
      rename_i isDirectory
      rw [Bool.not_eq_true', Bool.not_eq_false] at isDirectory
      cases mounts
      refine ⟨root, rfl, ⟨read, isDirectory, rfl⟩, Slots.Retains.refl _, ?_, ?_⟩
      · intro i j one two here there same
        dsimp only at here there
        split at here
        · split at there
          · rename_i first second
            exact Fin.ext (first.trans second.symm)
          · cases there
        · cases here
      · intro i node held
        dsimp only at held
        split at held
        · cases held
          refine ⟨root, read, ?_⟩
          rw [kindFromInode_directory.mpr isDirectory]
          rfl
        · cases held

theorem worn_run (mounts : initializeVolume (some view) = .ok fresh)
    (typed : fresh.reader.WellTyped) (read : fresh.reader.readInode rootInodeNumber = .ok root)
    (run : (ext4Machine view).Run log volume) : Worn fresh fresh root ∧ Worn fresh volume root := by
  obtain ⟨root', start⟩ := worn_initializeVolume mounts
  obtain rfl : root = root' := Except.ok.inj (read.symm.trans start.rooted.inode)
  have rule : (ext4Machine view).Inductive fun volume => Worn fresh volume root := by
    constructor
    · intro volume again
      obtain rfl : fresh = volume := Except.ok.inj (mounts.symm.trans again)
      exact start
    · intro before label after worn taken
      have interns :=
        call_interns (by rw [worn.reader]; exact typed) worn.rooted worn.faithful label.1
      rw [show before.call label.1 = (label.2, after) from taken] at interns
      exact worn.interns interns
  exact ⟨start, rule.reached run⟩

section

variable (worn : Worn fresh volume root)

include worn

/-- The handle of an interned node leads to what the disk says of it. -/
theorem Worn.factsOf_interned {nodes : List Ext4Node}
    (faithful : ∀ node ∈ nodes, node.Faithful fresh.reader)
    (interned : done ∈ (volume.nodes.internEach nodeKey nodes).1) :
    (volume.setNodes (volume.nodes.internEach nodeKey nodes).2).factsOf done.1.val =
      some done.2.facts := by
  obtain ⟨stored, held, key⟩ := internEach_held nodeKey interned
  have later : Worn fresh (volume.setNodes (volume.nodes.internEach nodeKey nodes).2) root :=
    worn.interns ⟨rfl, nodes, by rw [worn.reader]; exact faithful, rfl⟩
  have member : done.2 ∈ nodes :=
    (internEach_initial nodeKey _ _).subset (List.mem_map_of_mem interned)
  have here := later.faithful done.1 stored held
  rw [later.reader] at here
  have slot : (volume.setNodes (volume.nodes.internEach nodeKey nodes).2).validNode done.1.val =
      some stored := Ext4Volume.validNode_slot held
  rw [Ext4Volume.factsOf, slot, Option.map_some, here.facts_eq (faithful done.2 member) key]

def lastNode (root : ExtNodeInode) (nodes : List Ext4Node) : Ext4Node :=
  nodes.getLast?.getD (rootNode root)

theorem Worn.narrower (nodes : List Ext4Node) : volume.nodes.Fits nodeKey nodes →
      fresh.nodes.Fits nodeKey nodes :=
  Slots.Fits.of_retains nodeKey worn.distinct worn.retains

variable (typed : fresh.reader.WellTyped)
  (found : trail fresh.reader root (Fs.components path) = (nodes, none))

include found

theorem Worn.resolve_full (full : ¬ volume.nodes.Fits nodeKey nodes) :
    ∃ after, volume.resolve (some path) = (.returned tableFull, after) := by
  have resolved := resolve_eq worn.rooted path
  rw [worn.reader, found] at resolved
  exact ⟨_, by rw [resolved, outcome_full nodeKey full]⟩

include typed

theorem Worn.resolve_fits (fits : volume.nodes.Fits nodeKey nodes) : ∃ (i : Fin maxNodes)
    (after : Ext4Volume) (node : Ext4Node),
      volume.resolve (some path) = (.returned i.val, after) ∧
      after.nodes = (volume.nodes.internEach nodeKey nodes).2 ∧ Worn fresh after root ∧
      after.nodes i = some node ∧ node.facts = (lastNode root nodes).facts := by
  have same := worn.reader
  have resolved := resolve_eq worn.rooted path
  have later : Worn fresh (volume.resolve (some path)).2 root :=
    worn.interns (resolve_interns (by rw [same]; exact typed) worn.rooted (some path))
  have faithful := trail_faithful (by rw [same]; exact typed) worn.rooted.inode (Fs.components path)
  rw [same, found] at resolved faithful
  rw [resolved] at later ⊢
  rcases outcome_fits nodeKey fits (.returned tableFull)
      (fun i => Ending.returned i.val) (.returned 0) with ⟨rfl, start⟩ | ⟨last, i, isLast,
        done, handle⟩
  · exact ⟨rootSlot, _, rootNode root, by rw [start]; rfl, rfl, later, later.rooted.held, rfl⟩
  · obtain ⟨stored, held, key⟩ := internEach_held nodeKey done
    refine ⟨i, _, stored, by rw [handle], rfl, later, held, ?_⟩
    have here := later.faithful i stored held
    have there := faithful last (List.mem_of_getLast? isLast)
    rw [later.reader] at here
    rw [lastNode, isLast]
    exact here.facts_eq there key

theorem Worn.shows_eq : volume.shows path = volume.nodes.answer nodeKey (.returned tableFull)
      (some (rootNode root).facts) (fun node => some node.facts) nodes none := by
  by_cases fits : volume.nodes.Fits nodeKey nodes
  · obtain ⟨i, after, node, resolved, -, -, held, facts⟩ := worn.resolve_fits typed found fits
    have nonneg : ¬ (i.val : Int) < 0 := by omega
    simp only [Ext4Volume.shows, resolved, if_neg nonneg, answer, if_pos fits,
      Ext4Volume.factsOf, Ext4Volume.validNode_slot held, Option.map_some, facts, lastNode]
    cases nodes.getLast? <;> rfl
  · obtain ⟨after, resolved⟩ := worn.resolve_full found fits
    have negative : tableFull < 0 := by decide
    simp [Ext4Volume.shows, resolved, if_pos negative, answer, if_neg fits]

theorem Worn.lists_eq (isDirectory : (lastNode root nodes).kind = 2)
    (read : fresh.reader.readInode (lastNode root nodes).inodeNumber = .ok directory) :
    volume.lists path = volume.nodes.report nodeKey (.returned tableFull)
      (listedNodes fresh.reader directory).2 (fun node => (node.name, node.kind, some node.facts))
        nodes
      (listedNodes fresh.reader directory).1 := by
  by_cases fits : volume.nodes.Fits nodeKey nodes
  · obtain ⟨i, after, node, resolved, slots, later, held, facts⟩ :=
      worn.resolve_fits typed found fits
    have nonneg : ¬ (i.val : Int) < 0 := by omega
    have kind : node.kind = 2 := (congrArg Ext4Facts.kind facts).trans isDirectory
    have number : node.inodeNumber = (lastNode root nodes).inodeNumber :=
      congrArg Ext4Facts.inodeNumber facts
    have inode : after.reader.readInode node.inodeNumber = .ok directory := by
      rw [later.reader, number, read]
    have listing :=
      Ext4Volume.listDirectory_eq later.rooted (Ext4Volume.validNode_slot held) kind inode
    have typedHere : after.reader.WellTyped := by
      rw [later.reader]
      exact typed
    have members := listedNodes_faithful typedHere inode
      ((later.faithful i node held).isDirectory kind inode)
    rw [later.reader] at listing members
    simp only [Ext4Volume.lists, resolved, if_neg nonneg, report, if_pos fits, listing,
      Ext4Volume.listed, List.nil_append, Except.ok.injEq, Prod.mk.injEq, ← slots]
    constructor
    · refine if_congr ?_ rfl rfl
      rw [slots]
      exact (fits_append nodeKey fits _).symm
    · rw [List.map_map, List.map_map]
      refine List.map_congr_left fun done interned => ?_
      simp [Ext4Volume.reportOf, later.factsOf_interned members interned]
  · obtain ⟨after, resolved⟩ := worn.resolve_full found fits
    have negative : tableFull < 0 := by decide
    simp [Ext4Volume.lists, resolved, if_pos negative, report, if_neg fits]

/-- A path is shown as on the fresh volume exactly if the node table has room for it,
or a fresh one has not. -/
theorem Worn.shows_eq_iff (start : Worn fresh fresh root) : volume.shows path = fresh.shows path ↔
      (fresh.nodes.Fits nodeKey nodes → volume.nodes.Fits nodeKey nodes) := by
  rw [worn.shows_eq typed found, start.shows_eq typed found]
  exact answer_eq_iff nodeKey worn.narrower _ _ _ _

/-- A directory is listed as on the fresh volume exactly if each beginning of its
entries that a fresh table takes is taken. -/
theorem Worn.lists_eq_iff (start : Worn fresh fresh root)
    (isDirectory : (lastNode root nodes).kind = 2)
    (read : fresh.reader.readInode (lastNode root nodes).inodeNumber = .ok directory) :
    volume.lists path = fresh.lists path ↔ ∀ count ≤ (listedNodes fresh.reader directory).1.length,
        fresh.nodes.Fits nodeKey (nodes ++ (listedNodes fresh.reader directory).1.take count) →
          volume.nodes.Fits nodeKey (nodes ++ (listedNodes fresh.reader directory).1.take
            count) := by
  rw [worn.lists_eq typed found isDirectory read, start.lists_eq typed found isDirectory read]
  exact report_eq_iff nodeKey worn.narrower _ _ _ _ _

end

end Runs

end Zapada.Ext
