import Zapada.Fat32.DirectoryReports
import Zapada.Fat32.LookupHistory
import Zapada.Ext.Ext4History
import Zapada.Ext.Mapping

/-! Lookups on a volume with a history of lookups against lookups on a fresh one: the
node tables take one node for each lookup and never give one back. -/

namespace Zapada.Fs

open Foundation Storage Ext

/-- On FAT32 and ext4 volumes, an existing path resolves and an existing directory is
listed as on a freshly mounted volume exactly if the node table has room wherever a
fresh one has. -/
theorem lookups_same_iff {view : PartitionView} {path : Path} :
    (∀ {fresh mount : Fat32.Fat32Mount} {log} {entries : List Fat32.NodeEntry},
      Fat32.mountVolume (some view) = .ok fresh → (Fat32.lookupMachine view).Run log mount →
      Fat32.trail fresh.volume fresh.volume.rootCluster (components path) = (entries, none) →
      (mount.shows path = fresh.shows path ↔ (fresh.slots.Fits id entries →
        mount.slots.Fits id entries)) ∧
      ∀ directory, fresh.lastEntry entries = some directory → directory.kind = 2 →
        (mount.lists path = fresh.lists path ↔
          ∀ count ≤ (Fat32.listedEntries fresh.volume directory.firstCluster).1.length,
            fresh.slots.Fits id
                (entries ++ (Fat32.listedEntries fresh.volume directory.firstCluster).1.take
                  count) →
              mount.slots.Fits id
                (entries ++ (Fat32.listedEntries fresh.volume directory.firstCluster).1.take
                  count))) ∧
    (∀ {fresh volume : Ext.Ext4Volume} {log} {root : Ext.ExtNodeInode} {nodes : List Ext.Ext4Node},
      Ext.initializeVolume (some view) = .ok fresh → fresh.reader.WellTyped →
      (Ext.ext4Machine view).Run log volume →
        fresh.reader.readInode Ext.rootInodeNumber = .ok root →
      Ext.trail fresh.reader root (components path) = (nodes, none) →
        (volume.shows path = fresh.shows path ↔
        (fresh.nodes.Fits Ext.nodeKey nodes → volume.nodes.Fits Ext.nodeKey nodes)) ∧
      ∀ directory, (Ext.lastNode root nodes).kind = 2 →
        fresh.reader.readInode (Ext.lastNode root nodes).inodeNumber = .ok directory →
        (volume.lists path = fresh.lists path ↔
          ∀ count ≤ (Ext.listedNodes fresh.reader directory).1.length,
            fresh.nodes.Fits Ext.nodeKey (nodes ++
              (Ext.listedNodes fresh.reader directory).1.take count) →
              volume.nodes.Fits Ext.nodeKey (nodes ++
                (Ext.listedNodes fresh.reader directory).1.take count))) := by
  constructor
  · intro fresh mount log entries mounts run found
    have worn := Fat32.worn_run mounts run
    exact ⟨worn.shows_eq_iff found, fun directory => worn.lists_eq_iff found⟩
  · intro fresh volume log root nodes mounts typed run read found
    obtain ⟨start, worn⟩ := worn_run mounts typed read run
    exact ⟨worn.shows_eq_iff typed found start, fun directory =>
      worn.lists_eq_iff typed found start⟩

/-- An ext4 volume with blocks of 1 KiB, whose root directory in block 4 has one file `A`. -/
def tinyImage : Memory := Ext.bytesAt [(1024, 16), (1028, 5), (1056, 8), (1064, 0xFF), (1065, 0xFF),
  (1066, 0xFF), (1067, 0x7F), (1080, 0x53), (1081, 0xEF), (1112, 128), (1120, 0x42), (2056, 3),
  (3200, 0xED), (3201, 0x41), (3205, 4), (3226, 2), (3240, 4), (3328, 0xA4),
    (3329, 0x81), (3332, 5),
  (3354, 1), (4096, 3), (4101, 4), (4102, 1), (4103, 1), (4104, 0x41)]

def tinyPartition : PartitionView where
  device := some ⟨fun lba sectorCount => (sectorCount, fun i => tinyImage (512 * lba.toNat + i))⟩
  startLba := 0
  sectorCount := 10

def tinyReader : Ext.ExtInodeReader where
  partition := tinyPartition
  superBlock :=
    { logBlockSize := 0, featureIncompat := 0x42, featureReadOnlyCompat := 0, small := Ext.sampleReader.superBlock.small }
  layout :=
    { inodesPerGroup := 2147483647, inodeSize := 128, descriptorSize := 32, positive := by decide }

private theorem tiny_reads :
    Ext.ExtSuperBlock.readFrom ⟨1024, fun i => tinyImage (1024 + i), by decide⟩ 0 =
      some (some tinyReader.superBlock) ∧
    Ext.ExtInodeLayout.readFrom ⟨1024, fun i => tinyImage (1024 + i), by decide⟩ 0 false =
      some (some tinyReader.layout) ∧ (tinyReader.readInode rootInodeNumber).toOption.isSome := by
  decide +kernel

private theorem tiny_reader : initializeInodeReader (some tinyPartition) = .ok tinyReader := by
  have sectors : tinyPartition.readSectors 2 2 = (2, fun i => tinyImage (1024 + i)) := rfl
  obtain ⟨parsed, layout, -⟩ := tiny_reads
  have opened :
      initializeReader (some tinyPartition) = some (.ok tinyReader.toExtVolumeReader) := by
    simp only [initializeReader, sectors, parsed]
    rfl
  have narrow : tinyReader.superBlock.has64Bit = false := by decide
  simp only [initializeInodeReader, opened, accessed, bind, Except.bind]
  rw [show tinyReader.toExtVolumeReader.partition = tinyPartition from rfl, sectors, narrow, layout]
  rfl

def tinyRoot : Ext.ExtNodeInode :=
  (tinyReader.readInode Ext.rootInodeNumber).toOption.get tiny_reads.2.2

def tinyVolume : Ext.Ext4Volume where
  reader := tinyReader
  nodes i := if i.val = 0 then some (Ext.rootNode tinyRoot) else none
  tokens _ := none

private theorem tinyRoot_read : tinyReader.readInode rootInodeNumber = .ok tinyRoot :=
  eq_ok (Option.some_get tiny_reads.2.2).symm

private theorem tiny_facts : tinyRoot.isDirectory = true ∧
    trail tinyReader tinyRoot (components ['/', 'A']) = ([⟨3, 1, 5, 0, ['A']⟩], none) ∧
    (∀ item ∈ (directoryItems tinyReader tinyRoot).1, item.record = ⟨3, 1024, 1, 1⟩) ∧
    (tinyReader.readGroupDescriptor 0).toOption = some 3 ∧
    (∀ k : Fin 16, (tinyReader.readInode (BitVec.ofNat 32 (k.val + 1))).toOption.any
      (·.isDirectory) = true → k.val = 1) ∧ ((tinyReader.readInode 3).toOption.all fun child =>
      kindFromInode child 1 = kindFromInode child 0) = true ∧
    (tinyVolume.call (.listDirectory 0)).2.nodes.Fits nodeKey [⟨3, 1, 5, 0, ['A']⟩] := by
  decide +kernel

private theorem tiny_initial : initializeVolume (some tinyPartition) = .ok tinyVolume := by
  simp only [initializeVolume, tiny_reader, bind, Except.bind, tinyRoot_read, tiny_facts.1]
  rfl

private theorem tiny_readBlock (far : 5 ≤ block) (small : block < 2 ^ 40) :
    tinyReader.readBlock block = .error StorageStatus.ioError := by
  have offset : int64 (block * tinyReader.superBlock.blockSize) = block * 1024 :=
    int64_of_range (show -(2 ^ 63) ≤ block * 1024 by omega) (show block * 1024 < 2 ^ 63 by omega)
  have lba : (block * 1024).tdiv 512 = block * 2 := by
    rw [Int.tdiv_eq_ediv_of_nonneg (by omega)]
    omega
  have last : int64 (block * 2 + 2) = block * 2 + 2 := int64_of_range (by omega) (by omega)
  have outside : block * 2 < 0 ∨ 10 < int64 (block * 2 + 2) := by omega
  have refused :
      tinyPartition.readSectors (block * 2) 2 = (StorageStatus.invalidArgument, fun _ => 0) :=
    if_pos outside
  unfold Ext.ExtVolumeReader.readBlock
  dsimp only
  rw [if_neg (by omega), offset, lba]
  exact (congrArg (fun answer => if answer.1 < 0 then _ else _) refused).trans (if_pos (by decide))

private theorem tiny_far (far : 17 ≤ number.toInt) :
    ∃ ending, tinyReader.readInode number = .error ending := by
  have small := number.toInt_lt
  have descriptor : tinyReader.readGroupDescriptor 0 = .ok 3 := eq_ok tiny_facts.2.2.2.1
  unfold Ext.ExtInodeReader.readInode
  rw [if_neg (by omega)]
  generalize isIndex : (number.toInt - 1).toNat = index
  have group : index / tinyReader.layout.inodesPerGroup = 0 :=
    Nat.div_eq_of_lt (show index < 2147483647 by omega)
  have place : index % tinyReader.layout.inodesPerGroup = index :=
    Nat.mod_eq_of_lt (show index < 2147483647 by omega)
  have block :
      int64 (3 + ((index * tinyReader.layout.inodeSize /
        tinyReader.superBlock.blockSize : Nat) : Int)) =
      3 + ((index * 128 / 1024 : Nat) : Int) :=
    int64_of_range (show -(2 ^ 63) ≤ 3 + ((index * 128 / 1024 : Nat) : Int) by omega)
      (show 3 + ((index * 128 / 1024 : Nat) : Int) < 2 ^ 63 by omega)
  have failed :=
    tiny_readBlock (show 5 ≤ 3 + ((index * 128 / 1024 : Nat) : Int) by omega) (by omega)
  simp only [group, descriptor, place, block, failed]
  split
  · exact ⟨_, rfl⟩
  · exact ⟨_, rfl⟩

private theorem tiny_directories
    (read : tinyReader.readInode number = .ok directory)
    (isDirectory : directory.isDirectory = true) :
    number = rootInodeNumber := by
  have positive : 0 < number.toInt := by
    by_contra other
    unfold Ext.ExtInodeReader.readInode at read
    rw [if_pos (by omega)] at read
    cases read
  by_cases far : 17 ≤ number.toInt
  · obtain ⟨ending, failed⟩ := tiny_far far
    rw [failed] at read
    cases read
  · have number_eq : number = BitVec.ofNat 32 ((number.toInt - 1).toNat + 1) := by
      apply BitVec.eq_of_toInt_eq
      rw [BitVec.toInt_ofNat', Int.bmod_eq_of_le (by omega) (by omega)]
      omega
    have isRoot := tiny_facts.2.2.2.2.1 ⟨(number.toInt - 1).toNat, by omega⟩ (by
      rw [← number_eq, read]
      exact isDirectory)
    rw [number_eq, show (number.toInt - 1).toNat = 1 from isRoot]
    rfl

private theorem tiny_typed : tinyVolume.reader.WellTyped := by
  intro number directory read isDirectory item member child childRead
  obtain rfl := tiny_directories read isDirectory
  obtain rfl : tinyRoot = directory := Except.ok.inj (tinyRoot_read.symm.trans read)
  rw [tiny_facts.2.2.1 item member] at childRead ⊢
  have kind := tiny_facts.2.2.2.2.2.1
  rw [show tinyReader.readInode 3 = .ok child from childRead] at kind
  simpa [Except.toOption] using kind

/-- A byte of the directory record of the file `F00`, `F01`, ... -/
def fileByte (file j : Nat) : UInt8 :=
  match j with
  | 0 => 0x46
  | 1 => UInt8.ofNat (0x30 + file / 10)
  | 2 => UInt8.ofNat (0x30 + file % 10)
  | j => if j ≤ 11 then 0x20 else 0

/-- A FAT32 volume with clusters of four sectors that its root directory fills with files. -/
def filesImage : Memory := fun i =>
  if 1024 ≤ i then fileByte ((i - 1024) / 32) ((i - 1024) % 32)
  else
    match i with
    | 12 => 2
    | 13 => 4
    | 14 => 1
    | 16 => 1
    | 22 => 1
    | 44 => 2
    | 520 => 0xF8
    | 521 => 0xFF
    | 522 => 0xFF
    | 523 => 0x0F
    | _ => 0

def filesPartition : PartitionView where
  device := some ⟨fun lba sectorCount => (sectorCount, fun i => filesImage (512 * lba.toNat + i))⟩
  startLba := 0
  sectorCount := 6

theorem filesPartition_holds : filesPartition.Holds filesImage := .ofImage filesImage 6 (by decide)

private theorem files_mounts : (Fat32.mountVolume (some filesPartition)).toOption.isSome := by
  decide +kernel

@[irreducible]
def filesMount : Fat32.Fat32Mount :=
  (Fat32.mountVolume (some filesPartition)).toOption.get files_mounts

def fileEntry (file : Nat) : Fat32.NodeEntry :=
  ⟨0, 0, 1, ['F', Char.ofNat (0x30 + file / 10), Char.ofNat (0x30 + file % 10)]⟩

private theorem files_initial : Fat32.mountVolume (some filesPartition) = .ok filesMount := by
  unfold filesMount
  exact eq_ok (Option.some_get files_mounts).symm

private theorem files_facts : ∃ fresh, Fat32.mountVolume (some filesPartition) = .ok fresh ∧
    Fat32.DirectoryAt filesImage fresh Fat32.Fat32Mount.rootNode [2] ∧
    fresh.volume.rootCluster = ((2 : Nat) : Int) ∧ fresh.slots.free = 63 ∧
    (fresh.slots.unseen id ((List.range 63).map fileEntry ++ [fileEntry 63])).card = 64 ∧
    ((Fat32.Image.seen filesImage [2]).filter Fat32.Record.isEntry).map Fat32.Record.entry =
      (List.range 63).map fileEntry ++ [fileEntry 63] ∧
    ((Fat32.Image.seen filesImage [2]).find? (·.answers ['F', '6', '3'])).map Fat32.Record.entry =
      some (fileEntry 63) := by
  refine ⟨filesMount, files_initial, ⟨⟨⟨2, 0, 2, ['/']⟩, ?_, rfl, rfl⟩, ⟨?_, ?_, ?_⟩, ?_⟩, ?_⟩
  case refine_2 => rw [Fat32.Image.Linked]; decide +kernel
  all_goals decide +kernel

private theorem ext4_run
    (initial : initializeVolume (some view) = .ok fresh) (call : Ext.Ext4Call) :
    (ext4Machine view).Run [(call, (fresh.call call).1)] (fresh.call call).2 :=
  .next (.start initial) rfl

private theorem fat32_run
    (initial : Fat32.mountVolume (some view) = .ok fresh) (call : Fat32.LookupCall) :
    (Fat32.lookupMachine view).Run [(call, (fresh.call call).1)] (fresh.call call).2 :=
  .next (.start initial) rfl

/-- After a listing of the root: `/` on the FAT32 volume with 64 files, and `/A` on the
ext4 volume. -/
theorem lookups_same_samples :
    (filesMount.call (.listDirectory 0)).2.shows ['/'] = filesMount.shows ['/'] ∧
      (tinyVolume.call (.listDirectory 0)).2.shows ['/', 'A'] = tinyVolume.shows ['/', 'A'] := by
  have root : components ['/'] = [] := by decide
  have nothing :
      Fat32.trail filesMount.volume filesMount.volume.rootCluster (components ['/']) =
        ([], none) := by
    rw [root]
    rfl
  obtain ⟨-, trail, -, -, -, -, fits⟩ := tiny_facts
  constructor
  · refine (lookups_same_iff.1 files_initial (fat32_run files_initial (.listDirectory 0))
      nothing).1.mpr fun _ => ?_
    simp [Slots.fits_iff, Slots.internEach]
  · exact (lookups_same_iff.2 tiny_initial tiny_typed (ext4_run tiny_initial (.listDirectory 0))
      tinyRoot_read trail).1.mpr fun _ => fits

/-- After one listing of a root directory with 64 files, the last of them, which a
fresh volume finds, is not found any more. -/
theorem lookups_wear_out : ∃ fresh log mount, Fat32.mountVolume (some filesPartition) = .ok fresh ∧
    (Fat32.lookupMachine filesPartition).Run log mount ∧
      log.map Prod.fst = [.listDirectory (0 : Nat)] ∧
    fresh.shows ['/', 'F', '6', '3'] = .ok (some (fileEntry 63)) ∧
    mount.shows ['/', 'F', '6', '3'] = .error StorageStatus.tableFull := by
  obtain ⟨fresh, initial, directory, root, free, unseen, records, answer⟩ := files_facts
  obtain ⟨standing, -⟩ := Fat32.standing_run filesPartition_holds (.start initial)
  obtain ⟨record, answered, isLast⟩ := Option.map_eq_some_iff.mp answer
  have lookup := Fat32.findEntryInDirectory_some standing.mounted directory.chain rfl answered false
  have found : Fat32.trail fresh.volume fresh.volume.rootCluster
      (components ['/', 'F', '6', '3']) = ([fileEntry 63], none) := by
    rw [root, show components ['/', 'F', '6', '3'] = [['F', '6', '3']] by decide, Fat32.trail]
    simp only [ne_eq, not_true_eq_false, decide_false, lookup, isLast]
    rfl
  -- the listing fills the table with the other files
  have run := fat32_run initial (.listDirectory 0)
  obtain ⟨status, listed⟩ := directory.listed standing
  have slots : (fresh.call (.listDirectory 0)).2.slots = _ := listed.slots
  have fits {files : List Fat32.NodeEntry} (few : files.length ≤ 63) :
      fresh.slots.Fits id files := by
    refine (Finset.card_le_card Finset.sdiff_subset).trans ((List.toFinset_card_le _).trans ?_)
    rwa [List.map_id, free]
  have full := Slots.not_fits_internEach id (fits (List.length_map _).le)
    (show ¬ fresh.slots.Fits id ((List.range 63).map fileEntry ++ [fileEntry 63])
      by rw [Slots.Fits, unseen, free]; decide)
  rw [← records] at full
  have worn := Fat32.worn_run initial run
  refine ⟨fresh, _, _, initial, run, rfl, ?_, ?_⟩
  · rw [Fat32.Fat32Mount.shows_eq worn.rooted found, Slots.answer, if_pos (fits (by decide))]
    rfl
  · rw [Fat32.Fat32Mount.shows_eq (worn.grown.rooted worn.rooted) ((worn.trail_eq _).trans found),
      Slots.answer, slots, if_neg full]

/-- In every history of lookups on an ext4 volume the nodes say what the disk says, no inode has two
of them, and no call drops or changes one. -/
theorem ext4_handles_last (initial : initializeVolume (some view) = .ok fresh)
    (typed : fresh.reader.WellTyped) (read : fresh.reader.readInode rootInodeNumber = .ok inode)
    (run : (ext4Machine view).Run log volume) :
    (∀ i node, volume.nodes i = some node → node.Faithful fresh.reader) ∧
      volume.nodes.Distinct nodeKey ∧
      ∀ call, volume.nodes.Retains (volume.call call).2.nodes := by
  obtain ⟨-, worn⟩ := worn_run initial typed read run
  have faithful := worn.faithful
  refine ⟨worn.reader ▸ faithful, worn.distinct, fun call => ?_⟩
  obtain ⟨nodes, -, same⟩ := (call_interns (worn.reader ▸ typed) worn.rooted faithful call).nodes
  rw [same]
  exact Slots.internEach_retains nodeKey _ _

theorem ext4_handles_last_listed :
    let volume := (tinyVolume.call (.listDirectory 0)).2
    (∀ i node, volume.nodes i = some node → node.Faithful tinyVolume.reader) ∧
      volume.nodes.Distinct nodeKey ∧
      volume.nodes.Retains (volume.call (.listDirectory 0)).2.nodes := by
  obtain ⟨faithful, distinct, retained⟩ :=
    ext4_handles_last tiny_initial tiny_typed tinyRoot_read
      (ext4_run tiny_initial (.listDirectory 0))
  exact ⟨faithful, distinct, retained (.listDirectory 0)⟩

end Zapada.Fs
