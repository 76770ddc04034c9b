import Zapada.Ext.ExtDirectories
import Zapada.Foundation.InternTable

/-! The ext4 volume: its table of looked-up nodes, `Resolve`, `ListDirectory` and the
tokens of open files. -/

namespace Zapada.Ext

open Foundation Storage StorageStatus ExtDirectoryRecord

def rootInodeNumber : BitVec 32 := 2
def maxTokens : Nat := 8
def maxNodes : Nat := 64

structure Ext4Node where
  inodeNumber : BitVec 32
  kind : Int
  size : Int
  modifiedTime : Int
  name : List Char
deriving DecidableEq

structure Ext4Token where
  nodeHandle : Int
  inode : ExtNodeInode
  offset : Int

/-- A volume after `Initialize`; an unused slot is `none`. -/
structure Ext4Volume where
  reader : ExtInodeReader
  nodes : Slots maxNodes Ext4Node
  tokens : Fin maxTokens → Option Ext4Token

def kindFromInode (inode : ExtNodeInode) (directoryFileType : Nat) : Int :=
  if inode.isDirectory ∨ directoryFileType = fileTypeDirectory then 2
  else if inode.isRegularFile ∨ inode.isSymlink ∨ directoryFileType = fileTypeRegularFile ∨
      directoryFileType = fileTypeSymlink then 1
  else 0

/-- The node for a directory record and the inode it names. -/
def nodeFrom (record : ExtDirectoryRecord) (child : ExtNodeInode) (name : List Char) :
    Ext4Node where
  inodeNumber := record.inodeNumber
  kind := kindFromInode child record.fileType
  size := child.size
  modifiedTime := child.modificationTime
  name := name

def rootNode (root : ExtNodeInode) : Ext4Node where
  inodeNumber := rootInodeNumber
  kind := 2
  size := root.size
  modifiedTime := root.modificationTime
  name := ['/']

def initializeVolume (partition : Option PartitionView) : Except Ending Ext4Volume := do
  let reader ← initializeInodeReader partition
  let root ← reader.readInode rootInodeNumber
  if !root.isDirectory then .error (.returned corruptedData)
  else return {
    reader
    nodes := fun i => if i.val = 0 then some (rootNode root) else none
    tokens := fun _ => none }

namespace Ext4Volume

def validNode (volume : Ext4Volume) (nodeHandle : Int) : Option Ext4Node :=
  if valid : 0 ≤ nodeHandle ∧ nodeHandle < maxNodes then
    volume.nodes ⟨nodeHandle.toNat, by omega⟩
  else none

/-- `CacheNode`: the handle of the node with this inode number, or of a new one. -/
def cacheNode (volume : Ext4Volume) (node : Ext4Node) : Int × Ext4Volume :=
  match (List.finRange maxNodes).find? fun i =>
      (volume.nodes i).any (·.inodeNumber = node.inodeNumber) with
  | some i => (i.val, volume)
  | none =>
    match (List.finRange maxNodes).find? fun i => 1 ≤ i.val ∧ (volume.nodes i).isNone with
    | some i => (i.val, { volume with nodes := Function.update volume.nodes i (some node) })
    | none => (tableFull, volume)

/-- The loop of `Resolve` over the components that are left. -/
def resolveFrom (volume : Ext4Volume) (currentHandle : Int) (currentInode : ExtNodeInode) :
    List (List Char) → Ending × Ext4Volume
  | [] => (.returned currentHandle, volume)
  | component :: rest =>
    match volume.reader.findEntryInDirectory currentInode component with
    | .error ending => (ending, volume)
    | .ok record =>
      match volume.reader.readInode record.inodeNumber with
      | .error ending => (ending, volume)
      | .ok child =>
        let node := nodeFrom record child (component.map fun ch => ExtText.byteToString ch.toNat)
        if rest ≠ [] ∧ node.kind ≠ 2 then (.returned notDirectory, volume)
        else
          let (handle, volume) := volume.cacheNode node
          if handle < 0 then (.returned handle, volume)
          else resolveFrom volume handle child rest

def resolve (volume : Ext4Volume) (path : Option (List Char)) : Ending × Ext4Volume :=
  match path with
  | none => (.returned invalidArgument, volume)
  | some path =>
    match Fs.components path with
    | [] => (.returned 0, volume)
    | components =>
      match volume.reader.readInode rootInodeNumber with
      | .error ending => (ending, volume)
      | .ok root => volume.resolveFrom 0 root components

def accessReadOnly : Int := 0

def openFile (volume : Ext4Volume) (nodeHandle accessIntent : Int) : Ending × Ext4Volume :=
  if accessIntent ≠ accessReadOnly then (.returned notSupported, volume)
  else
    match volume.validNode nodeHandle with
    | none => (.returned notFound, volume)
    | some node =>
      if node.kind ≠ 1 then (.returned notFile, volume)
      else
        match volume.reader.readInode node.inodeNumber with
        | .error ending => (ending, volume)
        | .ok inode =>
          match (List.finRange maxTokens).find? fun i => (volume.tokens i).isNone with
          | none => (.returned tableFull, volume)
          | some i =>
            (.returned i.val, { volume with
              tokens := Function.update volume.tokens i (some ⟨nodeHandle, inode, 0⟩) })

def close (volume : Ext4Volume) (fileToken : Int) : Ending × Ext4Volume :=
  if valid : 0 ≤ fileToken ∧ fileToken < maxTokens then
    (.returned ok, { volume with
      tokens := Function.update volume.tokens ⟨fileToken.toNat, by omega⟩ none })
  else (.returned invalidArgument, volume)

/-- What the directory sink is told of an entry. -/
structure Reported where
  childHandle : Int
  name : List Char
  kind : Int

structure Listing where
  volume : Ext4Volume
  reported : List Reported

/-- The body of the loop of `ListDirectory`. -/
def listWalk : RecordWalk Listing (Ending × Listing) where
  visit listing block pos record :=
    if record.inodeNumber = 0 then .ok listing
    else
      match record.isDotName block pos with
      | none => .error (.fault, listing)
      | some true => .ok listing
      | some false =>
        match listing.volume.reader.readInode record.inodeNumber with
        | .error ending => .error (ending, listing)
        | .ok child =>
          match record.readName block pos with
          | none => .error (.fault, listing)
          | some name =>
            let node := nodeFrom record child name
            let (childHandle, volume) := listing.volume.cacheNode node
            if childHandle < 0 then .error (.returned childHandle, ⟨volume, listing.reported⟩)
            else .ok ⟨volume, listing.reported ++ [⟨childHandle, name, node.kind⟩]⟩
  halted listing ending := (ending, listing)

def listDirectory (volume : Ext4Volume) (nodeHandle : Int) : Ending × Listing :=
  match volume.validNode nodeHandle with
  | none => (.returned notFound, ⟨volume, []⟩)
  | some node =>
    if node.kind ≠ 2 then (.returned notDirectory, ⟨volume, []⟩)
    else
      match volume.reader.readInode node.inodeNumber with
      | .error ending => (ending, ⟨volume, []⟩)
      | .ok directory =>
        match listWalk.overDirectory volume.reader directory ⟨volume, []⟩ with
        | .error result => result
        | .ok listing => (.returned ok, listing)

end Ext4Volume

structure Item where
  block : Buffer
  pos : Nat
  record : ExtDirectoryRecord

def blockItems (block : Buffer) (limit : Nat) : (records pos : Nat) → List Item × Option Ending
  | 0, _ => ([], none)
  | records + 1, pos =>
    if pos + 8 ≤ limit then
      match accepted (readFrom block pos limit) with
      | .error ending => ([], some ending)
      | .ok record =>
        if record.recordLength = 0 then ([], some (.returned corruptedData))
        else
          let (items, stop) := blockItems block limit records (pos + record.recordLength)
          (⟨block, pos, record⟩ :: items, stop)
    else ([], none)

/-- Items, and those that follow if nothing stops the walk there. -/
def joinItems : List Item × Option Ending → List Item × Option Ending → List Item × Option Ending
  | (items, some ending), _ => (items, some ending)
  | (items, none), (rest, stop) => (items ++ rest, stop)

def blocksItems (reader : ExtInodeReader) (directory : ExtNodeInode) :
    (blocks : Nat) → (logicalBlock bytesRemaining : Int) → List Item × Option Ending
  | 0, _, _ => ([], none)
  | blocks + 1, logicalBlock, bytesRemaining =>
    match reader.readMappedBlock directory logicalBlock with
    | .error ending => ([], some ending)
    | .ok block =>
      let blockSize := reader.superBlock.blockSize
      let limit := if bytesRemaining < blockSize then bytesRemaining.toNat else blockSize
      joinItems (blockItems block limit (limit / 8) 0)
        (blocksItems reader directory blocks (logicalBlock + 1) (bytesRemaining - blockSize))

def directoryItems (reader : ExtInodeReader) (directory : ExtNodeInode) :
    List Item × Option Ending :=
  let blockSize := reader.superBlock.blockSize
  blocksItems reader directory ((directory.size.toNat + blockSize - 1) / blockSize) 0 directory.size

namespace RecordWalk

variable {σ ρ : Type} (walk : RecordWalk σ ρ)

def visitItem (state : σ) (item : Item) : Except ρ σ :=
  walk.visit state item.block item.pos item.record

/-- A walk that no visit ended ends as the items do. -/
def finish : Option Ending → Except ρ σ → Except ρ σ
  | _, .error result => .error result
  | none, .ok state => .ok state
  | some ending, .ok state => .error (walk.halted state ending)

def overItems (items : List Item × Option Ending) (state : σ) : Except ρ σ :=
  walk.finish items.2 (items.1.foldlM walk.visitItem state)

theorem overItems_nil (stop : Option Ending) (state : σ) :
    walk.overItems ([], stop) state = walk.finish stop (.ok state) := rfl

theorem overItems_cons (item : Item) (items : List Item) (stop : Option Ending) (state : σ) :
    walk.overItems
    (item :: items, stop) state = match walk.visit state item.block item.pos item.record with
      | .error result => .error result
      | .ok state => walk.overItems (items, stop) state := by
  simp only [overItems, List.foldlM_cons, visitItem]
  cases walk.visit state item.block item.pos item.record with
  | error result => cases stop <;> rfl
  | ok state => rfl

theorem overItems_join (items rest : List Item × Option Ending) (state : σ) :
    walk.overItems (joinItems items rest) state = match walk.overItems items state with
      | .error result => .error result
      | .ok state => walk.overItems rest state := by
  obtain ⟨items, stop⟩ := items
  cases stop with
  | some ending =>
    simp only [joinItems, overItems]
    cases items.foldlM walk.visitItem state <;> rfl
  | none =>
    simp only [joinItems, overItems, List.foldlM_append]
    cases items.foldlM walk.visitItem state with
    | error result => cases rest.2 <;> rfl
    | ok state => rfl

theorem overRecords_eq (block : Buffer) (limit records pos : Nat) (state : σ) :
    walk.overRecords block limit records pos state =
      walk.overItems (blockItems block limit records pos) state := by
  induction records generalizing pos state with
  | zero => rfl
  | succ records ih =>
    rw [overRecords, blockItems]
    by_cases more : pos + 8 ≤ limit
    · rw [if_pos more, if_pos more]
      cases accepted (readFrom block pos limit) with
      | error ending => rfl
      | ok record =>
        by_cases empty : record.recordLength = 0
        · simp only [if_pos empty]
          rfl
        · simp only [if_neg empty, ih]
          generalize blockItems block limit records (pos + record.recordLength) = later
          obtain ⟨items, stop⟩ := later
          exact (overItems_cons walk ⟨block, pos, record⟩ items stop state).symm
    · rw [if_neg more, if_neg more]
      rfl

theorem overBlocks_eq (reader : ExtInodeReader) (directory : ExtNodeInode) (blocks : Nat)
    (logicalBlock bytesRemaining : Int) (state : σ) :
    walk.overBlocks reader directory blocks logicalBlock bytesRemaining state =
      walk.overItems (blocksItems reader directory blocks logicalBlock bytesRemaining) state := by
  induction blocks generalizing logicalBlock bytesRemaining state with
  | zero => rfl
  | succ blocks ih =>
    rw [overBlocks, blocksItems]
    cases reader.readMappedBlock directory logicalBlock with
    | error ending => rfl
    | ok block =>
      simp only [overRecords_eq, ih]
      exact (overItems_join walk _ _ state).symm

theorem overDirectory_eq (reader : ExtInodeReader) (directory : ExtNodeInode) (state : σ) :
    walk.overDirectory reader directory state =
      walk.overItems (directoryItems reader directory) state :=
  walk.overBlocks_eq reader directory _ _ _ state

end RecordWalk

theorem findEntryInDirectory_mem
    (found : reader.findEntryInDirectory directory component = .ok record) :
    ∃ item ∈ (directoryItems reader directory).1, item.record = record := by
  unfold ExtInodeReader.findEntryInDirectory at found
  split at found
  · cases found
  rw [RecordWalk.overDirectory_eq] at found
  generalize directoryItems reader directory = all at found ⊢
  obtain ⟨items, stop⟩ := all
  induction items with
  | nil =>
    cases stop <;> cases found
  | cons item rest ih =>
    rw [RecordWalk.overItems_cons] at found
    cases visited : (findWalk component).visit () item.block item.pos item.record with
    | ok state =>
      rw [visited] at found
      obtain ⟨later, member, same⟩ := ih found
      exact ⟨later, List.mem_cons_of_mem _ member, same⟩
    | error result =>
      rw [visited] at found
      refine ⟨item, List.mem_cons_self, ?_⟩
      subst found
      simp only [findWalk] at visited
      split at visited
      · cases visited
      split at visited
      · cases visited
      · cases visited
        rfl
      · cases visited

end Zapada.Ext
