import Zapada.Ext.Ext4Volume
import Zapada.Foundation.InternedLookups

namespace Zapada.Ext

open Foundation Storage Slots StorageStatus List

def rootSlot : Fin maxNodes := ⟨0, by decide⟩

/-- The table's key. -/
abbrev nodeKey : Ext4Node → BitVec 32 := Ext4Node.inodeNumber

/-- The first slot holds the root directory. -/
structure Ext4Volume.Rooted (volume : Ext4Volume) (root : ExtNodeInode) : Prop where
  inode : volume.reader.readInode rootInodeNumber = .ok root
  isDirectory : root.isDirectory = true
  held : volume.nodes rootSlot = some (rootNode root)

/-- The nodes that a path leads over, and what stops it. -/
def trail (reader : ExtInodeReader) : (directory : ExtNodeInode) → List (List Char) →
      List Ext4Node × Option Ending
  | _, [] => ([], none)
  | directory, component :: rest =>
    match reader.findEntryInDirectory directory component with
    | .error ending => ([], some ending)
    | .ok record =>
      match reader.readInode record.inodeNumber with
      | .error ending => ([], some ending)
      | .ok child =>
        let node := nodeFrom record child (component.map fun ch => ExtText.byteToString ch.toNat)
        if rest ≠ [] ∧ node.kind ≠ 2 then ([], some (.returned StorageStatus.notDirectory))
        else
          let (nodes, stop) := trail reader child rest
          (node :: nodes, stop)

/-- The nodes that a listing reports of these records, and how it ends. -/
def listedItems (reader : ExtInodeReader) (stop : Option Ending) : List Item →
      List Ext4Node × Ending
  | [] => ([], stop.getD (.returned StorageStatus.ok))
  | item :: rest =>
    let record := item.record
    if record.inodeNumber = 0 then listedItems reader stop rest
    else
      match record.isDotName item.block item.pos with
      | none => ([], .fault)
      | some true => listedItems reader stop rest
      | some false =>
        match reader.readInode record.inodeNumber with
        | .error ending => ([], ending)
        | .ok child =>
          match record.readName item.block item.pos with
          | none => ([], .fault)
          | some name =>
            let (nodes, ending) := listedItems reader stop rest
            (nodeFrom record child name :: nodes, ending)

def listedNodes (reader : ExtInodeReader) (directory : ExtNodeInode) : List Ext4Node × Ending :=
  listedItems reader (directoryItems reader directory).2 (directoryItems reader directory).1

namespace Ext4Volume

variable {volume : Ext4Volume} {root : ExtNodeInode}

def setNodes (volume : Ext4Volume) (nodes : Slots maxNodes Ext4Node) : Ext4Volume :=
  { volume with nodes }

@[simp] theorem nodes_setNodes (volume : Ext4Volume) (nodes : Slots maxNodes Ext4Node) :
    (volume.setNodes nodes).nodes = nodes := rfl

@[simp] theorem setNodes_setNodes (volume : Ext4Volume) (nodes later : Slots maxNodes Ext4Node) :
    (volume.setNodes nodes).setNodes later = volume.setNodes later := rfl

theorem Rooted.keep {nodes : Slots maxNodes Ext4Node} (rooted : volume.Rooted root)
    (retains : volume.nodes.Retains nodes) : (volume.setNodes nodes).Rooted root :=
  ⟨rooted.inode, rooted.isDirectory, retains _ _ rooted.held⟩

/-- The free node that `CacheNode` takes is the first one: the root is in use. -/
theorem vacant_eq (rooted : volume.Rooted root) :
    ((List.finRange maxNodes).find? fun i => 1 ≤ i.val ∧ (volume.nodes i).isNone) =
      volume.nodes.vacant := by
  congr 1
  funext i
  rw [Bool.eq_iff_iff, decide_eq_true_iff]
  constructor
  · exact fun taken => taken.2
  · intro unused
    refine ⟨?_, unused⟩
    by_contra isRoot
    obtain rfl : i = rootSlot := Fin.ext (show i.val = 0 by omega)
    rw [rooted.held] at unused
    cases unused

theorem holding_eq (volume : Ext4Volume) (node : Ext4Node) :
    ((List.finRange maxNodes).find? fun i =>
      (volume.nodes i).any (·.inodeNumber = node.inodeNumber)) =
      volume.nodes.holding nodeKey node.inodeNumber := by
  congr 1
  funext i
  cases volume.nodes i with
  | none => rfl
  | some held => simp

theorem cacheNode_eq (rooted : volume.Rooted root) (node : Ext4Node) : volume.cacheNode node =
      match volume.nodes.intern nodeKey node with
      | none => (tableFull, volume)
      | some (i, nodes) => ((i.val : Int), volume.setNodes nodes) := by
  unfold cacheNode
  rw [vacant_eq rooted, holding_eq]
  unfold intern
  cases volume.nodes.holding nodeKey node.inodeNumber with
  | some i => rfl
  | none =>
    cases volume.nodes.vacant <;> rfl

theorem resolveFrom_eq (rooted : volume.Rooted root) (handle : Int) (inode : ExtNodeInode)
    (components : List (List Char)) : volume.resolveFrom handle inode components =
      (outcome (.returned tableFull) (fun i => .returned i.val)
          (.returned handle) (trail volume.reader inode components).1
            (trail volume.reader inode components).2
          (volume.nodes.internEach nodeKey (trail volume.reader inode components).1).1,
            volume.setNodes
          (volume.nodes.internEach nodeKey (trail volume.reader inode components).1).2) := by
  induction components generalizing volume handle inode with
  | nil => rfl
  | cons component rest ih =>
    rw [resolveFrom, trail]
    cases volume.reader.findEntryInDirectory inode component with
    | error ending => rfl
    | ok record =>
      dsimp only
      cases volume.reader.readInode record.inodeNumber with
      | error ending => rfl
      | ok child =>
        dsimp only
        generalize nodeFrom record child (component.map fun ch => ExtText.byteToString ch.toNat) =
          node
        by_cases blocked : rest ≠ [] ∧ node.kind ≠ 2
        · rw [if_pos blocked, if_pos blocked]
          rfl
        · rw [if_neg blocked, if_neg blocked, cacheNode_eq rooted]
          cases interned : volume.nodes.intern nodeKey node with
          | none =>
            have full : tableFull < 0 := by decide
            simp only [if_pos full, internEach, interned]
            rfl
          | some result =>
            obtain ⟨i, nodes⟩ := result
            have nonneg : ¬ (i.val : Int) < 0 := by omega
            simp only [if_neg nonneg, internEach, interned]
            rw [ih (rooted.keep (intern_retains nodeKey interned)), outcome_cons]
            rfl

/-- What the sink is told of an interned node. -/
def reportOf (done : Fin maxNodes × Ext4Node) : Reported := ⟨done.1.val, done.2.name, done.2.kind⟩

def listEnd : Except (Ending × Listing) Listing → Ending × Listing
  | .error result => result
  | .ok listing => (.returned StorageStatus.ok, listing)

/-- The listing that goes on with these nodes, as many as the table takes, and then ends. -/
def listed (listing : Listing) (found : List Ext4Node × Ending) : Ending × Listing :=
  (if listing.volume.nodes.Fits nodeKey found.1 then found.2 else .returned StorageStatus.tableFull,
    { volume := listing.volume.setNodes (listing.volume.nodes.internEach nodeKey found.1).2
      reported := listing.reported ++
        (listing.volume.nodes.internEach nodeKey found.1).1.map reportOf })

theorem listed_nil (listing : Listing) (ending : Ending) :
    listed listing ([], ending) = (ending, listing) := by
  have fits : listing.volume.nodes.Fits nodeKey [] := by simp [fits_iff, internEach]
  rw [listed, if_pos fits]
  simp only [internEach, map_nil, append_nil]
  rfl

theorem listed_full (full : listing.volume.nodes.intern nodeKey node = none)
    (rest : List Ext4Node) (ending : Ending) :
    listed listing (node :: rest, ending) = (.returned tableFull, listing) := by
  rw [listed, if_neg (not_fits_cons nodeKey full rest)]
  simp only [internEach, full, map_nil, append_nil]
  rfl

theorem listed_next {nodes : Slots maxNodes Ext4Node}
    (interned : listing.volume.nodes.intern nodeKey node = some (i, nodes)) (rest : List Ext4Node)
    (ending : Ending) : listed listing (node :: rest, ending) =
      listed ⟨listing.volume.setNodes nodes, listing.reported ++ [reportOf (i, node)]⟩ (rest,
        ending) := by
  simp only [listed, fits_cons nodeKey interned, internEach, interned, nodes_setNodes,
    setNodes_setNodes, map_cons, append_assoc, singleton_append]
  rfl

theorem listEnd_overItems {listing : Listing} (rooted : listing.volume.Rooted root)
    (stop : Option Ending) (items : List Item) :
    listEnd (listWalk.overItems (items, stop) listing) =
      listed listing (listedItems listing.volume.reader stop items) := by
  induction items generalizing listing with
  | nil =>
    rw [RecordWalk.overItems_nil, listedItems, listed_nil]
    cases stop <;> rfl
  | cons item rest ih =>
    rw [RecordWalk.overItems_cons, listedItems]
    simp only [listWalk]
    by_cases unused : item.record.inodeNumber = 0
    · rw [if_pos unused, if_pos unused]
      exact ih rooted
    · rw [if_neg unused, if_neg unused]
      cases item.record.isDotName item.block item.pos with
      | none => exact (listed_nil listing _).symm
      | some isDot =>
        cases isDot with
        | true => exact ih rooted
        | false =>
          dsimp only
          cases listing.volume.reader.readInode item.record.inodeNumber with
          | error ending => exact (listed_nil listing _).symm
          | ok child =>
            dsimp only
            cases item.record.readName item.block item.pos with
            | none => exact (listed_nil listing _).symm
            | some name =>
              dsimp only
              rw [cacheNode_eq rooted]
              cases interned :
                  listing.volume.nodes.intern nodeKey (nodeFrom item.record child name) with
              | none =>
                have full : tableFull < 0 := by decide
                rw [listed_full interned]
                rfl
              | some result =>
                rw [listed_next interned]
                exact ih (rooted.keep (intern_retains nodeKey interned))

theorem validNode_slot (held : volume.nodes i = some node) :
    volume.validNode i.val = some node := by
  have valid : (0 : Int) ≤ i.val ∧ (i.val : Int) < maxNodes := by omega
  rw [validNode, dif_pos valid]
  exact held

theorem listDirectory_eq (rooted : volume.Rooted root) (valid : volume.validNode handle = some node)
    (isDirectory : node.kind = 2)
    (inode : volume.reader.readInode node.inodeNumber = .ok directory) :
    volume.listDirectory handle = listed ⟨volume, []⟩ (listedNodes volume.reader directory) := by
  have result := listEnd_overItems (show (⟨volume, []⟩ : Listing).volume.Rooted root from rooted)
    (directoryItems volume.reader directory).2 (directoryItems volume.reader directory).1
  rw [← listedNodes] at result
  rw [← result]
  unfold listDirectory
  simp only [valid, isDirectory, ne_eq, not_true_eq_false, if_false, inode,
    RecordWalk.overDirectory_eq]
  rfl

end Ext4Volume

end Zapada.Ext
