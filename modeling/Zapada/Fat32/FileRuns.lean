import Zapada.Foundation.Fallible
import Zapada.Foundation.Machine
import Zapada.Fat32.FileReads

namespace Zapada.Fat32

open Foundation Storage StorageStatus Option

inductive FatCall where
  | openFile (nodeHandle accessIntent : Int)
  | close (fileToken : Int)
  | seek (fileToken absoluteOffset : Int)
  | read (fileToken : Int) (buffer : Option Buffer) (offset count : Int)

/-- A status or count, and the caller's buffer after a read. -/
abbrev FatReply := Int × Option Buffer

def Fat32Volume.call (volume : Fat32Volume) : FatCall → FatReply × Fat32Volume
  | .openFile nodeHandle accessIntent =>
    let (status, volume) := volume.openFile nodeHandle accessIntent
    ((status, none), volume)
  | .close fileToken =>
    let (status, volume) := volume.close fileToken
    ((status, none), volume)
  | .seek fileToken absoluteOffset =>
    let (status, volume) := volume.seek fileToken absoluteOffset
    ((status, none), volume)
  | .read fileToken buffer offset count =>
    let (status, buffer, volume) := volume.read fileToken buffer offset count
    ((status, buffer), volume)

/-- The looked-up file nodes are files of the image, in these clusters. -/
def Files (view : PartitionView) (image : Memory) (files : Fin maxNodes → List Nat)
    (nodes : Fin maxNodes → Node) : Prop :=
  ∀ node, (nodes node).used → (nodes node).kind = 1 → Image.FileOn image view.sectorCount.toNat
    (nodes node).firstCluster (nodes node).size (files node)

/-- Every file's data lies below sector 2^31. -/
def Addressable (image : Memory) (files : Fin maxNodes → List Nat) : Prop :=
  ∀ node, Image.Reachable image (files node)

/-- The volume just mounted from a partition, with a table of looked-up nodes. -/
def fatMachine (view : PartitionView) (nodes : Fin maxNodes → Node) :
    Machine Fat32Volume (FatCall × FatReply) where
  initial volume := ∃ fresh, initializeVolume (some view) = .ok fresh ∧
    volume = { fresh with nodes }
  step before label after := before.call label.1 = (label.2, after)

/-- What one answered call does to the node and the logical offset of a token. -/
def sessionAfter (fileToken : Int) (current : Option (Int × Nat)) : FatCall × FatReply →
      Option (Int × Nat)
  | (.openFile nodeHandle _, status, _) =>
    if status = fileToken then some (nodeHandle, 0) else current
  | (.close closed, status, _) =>
    if closed = fileToken ∧ status = StorageStatus.ok then none else current
  | (.seek sought absoluteOffset, status, _) =>
    if sought = fileToken ∧ status = StorageStatus.ok then
      current.map fun (node, _) => (node, absoluteOffset.toNat)
    else current
  | (.read source _ _ _, status, _) =>
    if source = fileToken ∧ 0 < status then
      current.map fun (node, position) => (node, position + status.toNat)
    else current

/-- The node and the logical offset of a token, from the calls so far: the offset of
the last seek plus the bytes read since. -/
def session (log : List (FatCall × FatReply)) (fileToken : Int) : Option (Int × Nat) :=
  log.foldl (sessionAfter fileToken) none

theorem session_append (log : List (FatCall × FatReply)) (label : FatCall × FatReply)
    (fileToken : Int) :
    session (log ++ [label]) fileToken = sessionAfter fileToken (session log fileToken) label := by
  rw [session, List.foldl_append]
  rfl

/-- The arguments of a read lie inside the buffer. -/
def inRange : FatCall → Prop
  | .read _ (some buffer) offset count => offset + count ≤ buffer.length
  | _ => True

/-- A read that has bytes to deliver does not start at the end of the cluster its
token caches. -/
def insideCluster (volume : Fat32Volume) : FatCall → Prop
  | .read fileToken _ _ count => ∀ t, volume.validToken fileToken = some t → 0 < count →
      ((volume.tokens t).offset : Int) < (volume.tokens t).fileSize →
      (volume.tokens t).offsetInCluster < volume.clusterSize
  | _ => True

/-- Runs of calls with proper arguments that all meet a condition. -/
def callMachine (view : PartitionView) (nodes : Fin maxNodes → Node)
    (condition : Fat32Volume → FatCall → Prop) : Machine Fat32Volume (FatCall × FatReply) :=
  (fatMachine view nodes).guarded fun before label => inRange label.1 ∧ condition before label.1

/-- An open token stands for a file node and caches its logical offset. -/
structure TokenOn (nodes : Fin maxNodes → Node) (image : Memory) (files : Fin maxNodes → List Nat)
    (token : Token) (node : Fin maxNodes) : Prop where
  used : (nodes node).used
  kind : (nodes node).kind = 1
  firstCluster : token.firstCluster = (nodes node).firstCluster
  fileSize : token.fileSize = (nodes node).size
  positioned : Positioned image (files node) token

/-- A slot of the token table agrees with the calls so far. -/
def SlotOn (nodes : Fin maxNodes → Node) (image : Memory) (files : Fin maxNodes → List Nat)
    (token : Token) (current : Option (Int × Nat)) : Prop :=
  if token.isOpen then
    ∃ node, TokenOn nodes image files token node ∧ current = some ((node : Int), token.offset)
  else current = none

structure Serving (view : PartitionView) (image : Memory) (files : Fin maxNodes → List Nat)
    (nodes : Fin maxNodes → Node) (log : List (FatCall × FatReply)) (volume : Fat32Volume) :
    Prop where
  mounted : Mounted volume image
  partition : volume.partition = view
  table : volume.nodes = nodes
  slot : ∀ t : Fin maxTokens, SlotOn nodes image files (volume.tokens t) (session log t)

theorem Fat32Volume.validToken_eq_some {volume : Fat32Volume} :
    volume.validToken fileToken = some t ↔ fileToken = t ∧ (volume.tokens t).isOpen := by
  simp only [validToken, dite_none_right_eq_some, ite_none_right_eq_some,
    some.injEq]
  constructor
  · rintro ⟨inTable, isOpen, rfl⟩
    exact ⟨by simp only; omega, isOpen⟩
  · rintro ⟨rfl, isOpen⟩
    exact ⟨by omega, by simpa using isOpen, by simp⟩

theorem cached_start (file : Image.FileOn image sectors token.firstCluster size clusters)
    (nonempty : 0 < size) (cluster : token.currentCluster = token.firstCluster)
    (inCluster : token.offsetInCluster = 0) (offset : token.offset = 0) :
    Cached image clusters token := by
  have head := file.start (by omega)
  rw [List.head?_eq_getElem?, map_eq_some_iff] at head
  obtain ⟨c, here, first⟩ := head
  refine ⟨0, c, here, ?_, ?_, ?_⟩
  · rw [cluster, ← first]
    rfl
  · rw [offset, inCluster, Nat.zero_mul]
  · rw [inCluster]
    exact Nat.zero_le _

namespace Serving

variable {view : PartitionView} {image : Memory} {files : Fin maxNodes → List Nat}
  {nodes : Fin maxNodes → Node} {log : List (FatCall × FatReply)} {volume : Fat32Volume}
  {t : Fin maxTokens}

section

variable (serving : Serving view image files nodes log volume)

include serving

theorem tokenOn (valid : volume.validToken fileToken = some t) :
    ∃ node, TokenOn nodes image files (volume.tokens t) node ∧
      session log t = some ((node : Int), (volume.tokens t).offset) := by
  have slot := serving.slot t
  rwa [SlotOn, if_pos (Fat32Volume.validToken_eq_some.mp valid).2] at slot

/-- A call that leaves the volume alone and no trace on the open files. -/
theorem unchanged
    (silent : ∀ t : Fin maxTokens, sessionAfter t (session log t) label = session log t) :
    Serving view image files nodes (log ++ [label]) volume := by
  refine { serving with slot t := ?_ }
  rw [session_append, silent t]
  exact serving.slot t

theorem setToken (others : ∀ other : Fin maxTokens, other ≠ t →
      sessionAfter other (session log other) label = session log other)
    (slot : SlotOn nodes image files token (sessionAfter t (session log t) label)) :
    Serving view image files nodes (log ++ [label]) (volume.setToken t token) := by
  refine { serving with mounted := { serving.mounted with }, slot other := ?_ }
  rw [session_append]
  by_cases same : other = t
  · subst same
    simp only [Fat32Volume.setToken, Function.update_self]
    exact slot
  · simp only [Fat32Volume.setToken, Function.update_of_ne same]
    rw [others other same]
    exact serving.slot other

theorem moveToken (on : TokenOn nodes image files (volume.tokens t) node)
    (isOpen : (volume.tokens t).isOpen) (file : SameFile (volume.tokens t) token)
    (positioned : Positioned image (files node) token)
    (others : ∀ other : Fin maxTokens, other ≠ t → sessionAfter other (session log other) label =
      session log other)
    (here : sessionAfter t (session log t) label = some ((node : Int), token.offset)) :
    Serving view image files nodes (log ++ [label]) (volume.setToken t token) := by
  refine serving.setToken others ?_
  rw [SlotOn, if_pos (file.isOpen.trans isOpen)]
  refine ⟨node, { on with positioned, firstCluster := ?_, fileSize := ?_ }, here⟩
  · rw [file.firstCluster, on.firstCluster]
  · rw [file.fileSize, on.fileSize]

theorem fileAt (wellFormed : Files view image files nodes) (addressable : Addressable image files)
    (on : TokenOn nodes image files token node) :
    FileAt volume image token.firstCluster token.fileSize (files node) := by
  refine ⟨serving.mounted, ?_, addressable node⟩
  rw [serving.partition, on.firstCluster, on.fileSize]
  exact wellFormed node on.used on.kind

theorem openFile (wellFormed : Files view image files nodes)
    (taken : volume.openFile nodeHandle accessIntent = (status, after)) :
    Serving view image files nodes (log ++ [(.openFile nodeHandle accessIntent, status, none)])
      after := by
  have refused : ∀ status : Int, status < 0 → Serving view image files nodes
      (log ++ [(.openFile nodeHandle accessIntent, status, none)]) volume := by
    intro status negative
    refine serving.unchanged fun t => ?_
    simp only [sessionAfter]
    rw [if_neg (by omega)]
  simp only [Fat32Volume.openFile] at taken
  split at taken
  · cases taken
    exact refused _ (by decide)
  split at taken
  · cases taken
    exact refused _ (by decide)
  rename_i node valid
  split at taken
  · cases taken
    exact refused _ (by decide)
  rename_i isFile
  split at taken
  · cases taken
    exact refused _ (by decide)
  · rename_i t free
    cases taken
    obtain ⟨handle, used⟩ := Fat32Volume.validNode_eq_some valid
    rw [serving.table] at used isFile
    refine serving.setToken (fun other different => ?_) ?_
    · simp only [sessionAfter]
      rw [if_neg (by omega)]
    · have positive := (wellFormed node used (by omega)).positive
      simp only [sessionAfter, if_true, SlotOn, Fat32Volume.openedToken, serving.table]
      refine ⟨node, ⟨used, by omega, rfl, rfl, ⟨positive, fun some_bytes => ?_⟩⟩, by rw [handle]⟩
      exact cached_start (wellFormed node used (by omega)) some_bytes rfl rfl rfl

theorem close (taken : volume.close fileToken = (status, after)) :
    Serving view image files nodes (log ++ [(.close fileToken, status, none)]) after := by
  simp only [Fat32Volume.close] at taken
  split at taken
  · rename_i inTable
    cases taken
    refine serving.setToken (fun other different => ?_) ?_
    · have differs : ¬ (fileToken = other ∧ ok = ok) := by
        rw [ne_eq, Fin.ext_iff] at different
        simp only at different
        omega
      rw [sessionAfter, if_neg differs]
    · have same : fileToken = (fileToken.toNat : Int) := by omega
      simp only [SlotOn, Token.closed, Bool.false_eq_true, if_false]
      rw [sessionAfter, if_pos ⟨same, rfl⟩]
  · cases taken
    refine serving.unchanged fun t => ?_
    have failed : invalidArgument ≠ ok := by decide
    rw [sessionAfter, if_neg fun both => failed both.2]

theorem seek (wellFormed : Files view image files nodes) (addressable : Addressable image files)
    (taken : volume.seek fileToken absoluteOffset = (status, after)) :
    Serving view image files nodes (log ++ [(.seek fileToken absoluteOffset, status, none)])
      after := by
  have refused : Serving view image files nodes
      (log ++ [(.seek fileToken absoluteOffset, invalidArgument, none)]) volume := by
    refine serving.unchanged fun t => ?_
    have failed : invalidArgument ≠ ok := by decide
    rw [sessionAfter, if_neg fun both => failed both.2]
  cases valid : volume.validToken fileToken with
  | none =>
    simp only [Fat32Volume.seek, valid] at taken
    cases taken
    exact refused
  | some t =>
    obtain ⟨same, isOpen⟩ := Fat32Volume.validToken_eq_some.mp valid
    obtain ⟨node, on, current⟩ := serving.tokenOn valid
    by_cases inFile : 0 ≤ absoluteOffset ∧ absoluteOffset ≤ (volume.tokens t).fileSize
    · obtain ⟨token', sought, file, positioned, offset, -⟩ :=
        FileAt.seek_spec valid (serving.fileAt wellFormed addressable on) inFile.1 inFile.2
      rw [sought] at taken
      cases taken
      refine serving.moveToken on isOpen file positioned (fun other different => ?_) ?_
      · have differs : fileToken ≠ other := by omega
        rw [sessionAfter, if_neg fun both => differs both.1]
      · rw [sessionAfter, if_pos ⟨same, rfl⟩, current, map_some, ← offset, Int.toNat_natCast]
    · have outside : absoluteOffset < 0 ∨ (volume.tokens t).fileSize < absoluteOffset := by omega
      simp only [Fat32Volume.seek, valid, if_pos outside] at taken
      cases taken
      exact refused

theorem read (wellFormed : Files view image files nodes) (addressable : Addressable image files)
    (inBuffer : inRange (.read fileToken buffer offset count))
    (inCluster : insideCluster volume (.read fileToken buffer offset count))
    (taken : volume.read fileToken buffer offset count = (status, buffer', after)) :
    Serving view image files nodes (log ++ [(.read fileToken buffer offset count, status, buffer')])
      after := by
  have refused : ∀ buffer', Serving view image files nodes
      (log ++ [(.read fileToken buffer offset count, invalidArgument, buffer')])
      volume := by
    intro buffer'
    refine serving.unchanged fun t => ?_
    have failed : ¬ 0 < invalidArgument := by decide
    rw [sessionAfter, if_neg fun both => failed both.2]
  cases valid : volume.validToken fileToken with
  | none =>
    simp only [Fat32Volume.read, valid] at taken
    obtain ⟨rfl, same⟩ := Prod.mk.inj taken
    cases same
    exact refused _
  | some t =>
    cases buffer with
    | none =>
      simp only [Fat32Volume.read, valid] at taken
      obtain ⟨rfl, same⟩ := Prod.mk.inj taken
      cases same
      exact refused _
    | some buffer =>
      obtain ⟨same, isOpen⟩ := Fat32Volume.validToken_eq_some.mp valid
      obtain ⟨node, on, current⟩ := serving.tokenOn valid
      by_cases proper : 0 ≤ offset ∧ 0 ≤ count
      · obtain ⟨got, token', bytes, -, isRead, positioned, delivers⟩ :=
          FileAt.read_spec valid (serving.fileAt wellFormed addressable on) on.positioned proper.1
            proper.2 inBuffer (inCluster t valid)
        rw [isRead] at taken
        obtain ⟨rfl, rest⟩ := Prod.mk.inj taken
        cases rest
        refine serving.moveToken on isOpen delivers.same positioned (fun other different => ?_) ?_
        · have differs : fileToken ≠ other := by omega
          rw [sessionAfter, if_neg fun both => differs both.1]
        · simp only [sessionAfter, same, true_and, current, map_some, Int.toNat_natCast,
            delivers.offset]
          split
          · rfl
          · obtain rfl : got = 0 := by omega
            rfl
      · have improper : offset < 0 ∨ count < 0 ∨
          (buffer.length : Int) < int32 (offset + count) := by
          omega
        simp only [Fat32Volume.read, valid, if_pos improper] at taken
        obtain ⟨rfl, rest⟩ := Prod.mk.inj taken
        cases rest
        exact refused _

end

theorem mounted_start (holds : view.Holds image)
    (mounts : initializeVolume (some view) = .ok fresh) :
    Serving view image files nodes [] { fresh with nodes } := by
  obtain ⟨mounted, partition, closed, -⟩ := mounted_initializeVolume holds mounts
  refine ⟨{ mounted with }, partition, rfl, fun t => ?_⟩
  simp only [SlotOn, closed, Token.closed, Bool.false_eq_true, if_false]
  rfl

end Serving

/-- In a run whose reads all start inside their token's cluster, every token keeps
its place in its file. -/
theorem serving_of_run (holds : view.Holds image) (wellFormed : Files view image files nodes)
    (addressable : Addressable image files)
    (run : (callMachine view nodes insideCluster).Run log volume) :
    Serving view image files nodes log volume := by
  induction run with
  | start first =>
    obtain ⟨fresh, mounts, rfl⟩ := first
    exact Serving.mounted_start holds mounts
  | @next log before label after earlier taken ih =>
    obtain ⟨⟨inBuffer, inCluster⟩, taken⟩ := taken
    obtain ⟨call, reply⟩ := label
    simp only [fatMachine] at taken
    obtain ⟨rfl, rfl⟩ := Prod.mk.inj taken
    cases call with
    | openFile nodeHandle accessIntent => exact ih.openFile wellFormed rfl
    | close fileToken => exact ih.close rfl
    | seek fileToken absoluteOffset => exact ih.seek wellFormed addressable rfl
    | read fileToken given offset count =>
      exact ih.read wellFormed addressable inBuffer inCluster rfl

/-- Every read that starts inside its token's cluster, after a run of such reads,
returns the file's bytes at the token's logical offset, up to the requested count or
the end of the file. -/
theorem read_returns_file_bytes (holds : view.Holds image)
    (wellFormed : Files view image files nodes) (addressable : Addressable image files)
    (run : (callMachine view nodes insideCluster).Run log volume)
    (t : Fin maxTokens) (node : Fin maxNodes) (position : Nat)
    (current : session log t = some ((node : Int), position))
    (buffer : Buffer) (offset count : Int) (low : 0 ≤ offset) (wanted : 0 ≤ count)
    (inBuffer : offset + count ≤ buffer.length)
    (inCluster : insideCluster volume (.read t (some buffer) offset count)) :
    ∃ (got : Nat) (buffer' : Buffer) (after : Fat32Volume),
      volume.read t (some buffer) offset count = ((got : Int), some buffer', after) ∧
      (got : Int) = min count ((nodes node).size - position) ∧ buffer'.length = buffer.length ∧
      ∀ i, buffer'.bytes i = if offset.toNat ≤ i ∧ i < offset.toNat + got then
        Image.fileByte image (files node) (position + (i - offset.toNat)) else buffer.bytes i := by
  have serving := serving_of_run holds wellFormed addressable run
  have isOpen : (volume.tokens t).isOpen := by
    by_contra closed
    have slot := serving.slot t
    rw [SlotOn, if_neg closed, current] at slot
    contradiction
  have valid : volume.validToken t = some t := Fat32Volume.validToken_eq_some.mpr ⟨rfl, isOpen⟩
  obtain ⟨opened, on, same⟩ := serving.tokenOn valid
  rw [current, some.injEq, Prod.mk.injEq] at same
  obtain ⟨sameNode, samePosition⟩ := same
  obtain rfl : node = opened := Fin.ext (by omega)
  obtain ⟨got, token', buffer', isGot, isRead, -, delivers⟩ :=
    FileAt.read_spec valid (serving.fileAt wellFormed addressable on) on.positioned low wanted
      inBuffer (inCluster t valid)
  refine ⟨got, buffer', _, isRead, ?_, delivers.length, ?_⟩
  · rw [isGot, on.fileSize, samePosition]
  · rw [samePosition]
    exact delivers.bytes

/-- The entries of the FAT: the root directory ends with cluster 2, and the chain of cluster 3
goes on in cluster 5. -/
def splitFat : List UInt8 :=
  [0xF8, 0xFF, 0xFF, 0x0F, 0xFF, 0xFF, 0xFF, 0x0F, 0xFF, 0xFF, 0xFF, 0x0F,
   5, 0, 0, 0, 0, 0, 0, 0, 0xFF, 0xFF, 0xFF, 0x0F]

/-- The root directory: the file `A` of 1024 bytes from cluster 3 on. -/
def splitRoot : List UInt8 :=
  0x41 :: List.replicate 10 0x20 ++ [0x20] ++ List.replicate 14 0 ++ [3, 0, 0, 4, 0, 0]

/-- Eight sectors with one FAT and clusters of one sector. Every byte of a file names its
sector. -/
def splitImage : Memory := fun i =>
  match i with
  | 12 => 2
  | 13 => 1
  | 14 => 1
  | 16 => 1
  | 32 => 8
  | 36 => 1
  | 44 => 2
  | 510 => 0x55
  | 511 => 0xAA
  | i =>
    if i < 512 then 0
    else if i < 1024 then splitFat.getD (i - 512) 0
    else if i < 1536 then splitRoot.getD (i - 1024) 0
    else UInt8.ofNat (i / 512)

def splitPartition : PartitionView where
  device := some ⟨fun lba sectorCount => (sectorCount, fun i => splitImage (512 * lba.toNat + i))⟩
  startLba := 0
  sectorCount := 8

/-- Node 0 is the root directory, node 1 the file in the clusters 3 and 5. -/
def splitNodes : Fin maxNodes → Node := fun node =>
  if node.val = 0 then { used := true, firstCluster := 2, size := 0, kind := 2 }
  else if node.val = 1 then { used := true, firstCluster := 3, size := 1024, kind := 1 }
  else { used := false, firstCluster := 0, size := 0, kind := 0 }

def splitFiles : Fin maxNodes → List Nat := fun node => if node.val = 1 then [3, 5] else []

private theorem splitPartition_holds : splitPartition.Holds splitImage :=
  .ofImage splitImage 8 (by decide)

private theorem splitNodes_files : Files splitPartition splitImage splitFiles splitNodes := by
  intro node used isFile
  by_cases file : node.val = 1
  · simp only [splitNodes, splitFiles, file, one_ne_zero, if_true, if_false]
    exact ⟨⟨by decide +kernel, by rw [Image.Linked]; decide +kernel⟩, by decide, by decide,
      by decide +kernel, by decide +kernel⟩
  · simp only [splitNodes, if_neg file] at used isFile
    split at used <;> simp_all

private theorem splitFiles_addressable : Addressable splitImage splitFiles := by
  intro node
  by_cases file : node.val = 1
  · simp only [splitFiles, if_pos file, Image.Reachable]
    decide +kernel
  · simp only [splitFiles, if_neg file]
    intro c member
    contradiction

private theorem splitPartition_mounts :
    (initializeVolume (some splitPartition)).toOption.isSome := by decide +kernel

def splitVolume : Fat32Volume :=
  { (initializeVolume (some splitPartition)).toOption.get splitPartition_mounts with
    nodes := splitNodes }

private theorem splitVolume_start : (fatMachine splitPartition splitNodes).initial splitVolume :=
  ⟨_, eq_ok (some_get splitPartition_mounts).symm, rfl⟩

def zeroBuffer (length : Fin 16) : Buffer where
  length := length
  bytes := fun _ => 0
  bounded := by omega

private theorem run_call (condition : Fat32Volume → FatCall → Prop)
    (run : (callMachine view nodes condition).Run log volume) (call : FatCall)
    (proper : inRange call) (admitted : condition volume call) :
    (callMachine view nodes condition).Run (log ++ [(call, (volume.call call).1)])
      (volume.call call).2 :=
  run.next ⟨⟨proper, admitted⟩, rfl⟩

def firstToken : Fin maxTokens := ⟨0, by decide⟩
def splitNode : Fin maxNodes := ⟨1, by decide⟩

def openFirst : FatCall := .openFile splitNode accessReadOnly
def seekLast : FatCall := .seek firstToken 511
def readOne : FatCall := .read firstToken (some (zeroBuffer 1)) 0 1

def opened : Fat32Volume := (splitVolume.call openFirst).2
def sought : Fat32Volume := (opened.call seekLast).2
def readUp : Fat32Volume := (sought.call readOne).2

def soughtLog : List (FatCall × FatReply) :=
  [(openFirst, (splitVolume.call openFirst).1), (seekLast, (opened.call seekLast).1)]

private theorem sought_run (condition : Fat32Volume → FatCall → Prop)
    (opens : condition splitVolume openFirst) (seeks : condition opened seekLast) :
    (callMachine splitPartition splitNodes condition).Run soughtLog sought := by
  have start : (callMachine splitPartition splitNodes condition).Run [] splitVolume :=
    .start splitVolume_start
  exact run_call _ (run_call _ start openFirst trivial opens) seekLast trivial seeks

/-- Two bytes read across the end of a cluster. -/
theorem read_returns_file_bytes_across_clusters :
    session soughtLog firstToken = some ((splitNode : Int), 511) ∧ ∃ buffer after,
      sought.read firstToken (some (zeroBuffer 2)) 0 2 = (2, some buffer, after) ∧
      buffer.bytes 0 = 3 ∧ buffer.bytes 1 = 5 := by
  have current : session soughtLog firstToken = some ((splitNode : Int), 511) := by decide +kernel
  have run := sought_run insideCluster trivial trivial
  have inCluster : insideCluster sought (.read firstToken (some (zeroBuffer 2)) 0 2) := by
    simp only [insideCluster]
    decide +kernel
  obtain ⟨got, buffer, after, isRead, isGot, -, bytes⟩ := read_returns_file_bytes
    splitPartition_holds splitNodes_files splitFiles_addressable run firstToken
      splitNode 511 current
    (zeroBuffer 2) 0 2 (by decide) (by decide) (by decide) inCluster
  obtain rfl : got = 2 := by
    have two : min (2 : Int) ((splitNodes splitNode).size - (511 : Nat)) = 2 := by decide +kernel
    rw [two] at isGot
    omega
  refine ⟨current, buffer, after, isRead, ?_, ?_⟩
  · rw [bytes]
    decide +kernel
  · rw [bytes]
    decide +kernel

/-- A read that ended with a cluster left its token there: the next one reads from the
sector behind the cluster, which is not the file's. -/
theorem read_leaves_the_chain :
    splitPartition.Holds splitImage ∧ Files splitPartition splitImage splitFiles splitNodes ∧
      Addressable splitImage splitFiles ∧
      ∃ log volume, (callMachine splitPartition splitNodes fun _ _ => True).Run log volume ∧
        session log firstToken = some ((splitNode : Int), 512) ∧
        (∃ buffer after, volume.read firstToken (some (zeroBuffer 1)) 0 1 =
          (1, some buffer, after) ∧
          buffer.bytes 0 = 4) ∧ Image.fileByte splitImage (splitFiles splitNode) 512 = 5 := by
  have proper : inRange readOne := by
    rw [readOne, inRange]
    decide
  refine ⟨splitPartition_holds, splitNodes_files, splitFiles_addressable,
    soughtLog ++ [(readOne, (sought.call readOne).1)], readUp,
    run_call _ (sought_run _ trivial trivial) readOne proper trivial, by decide +kernel, ?_,
    by decide +kernel⟩
  have status : (readUp.read firstToken (some (zeroBuffer 1)) 0 1).1 = 1 := by decide +kernel
  have byte :
      (readUp.read firstToken (some (zeroBuffer 1)) 0 1).2.1.map (fun buffer => buffer.bytes 0) =
      some 4 := by decide +kernel
  revert status byte
  rcases readUp.read firstToken (some (zeroBuffer 1)) 0 1 with ⟨status, buffer, after⟩
  rintro rfl byte
  obtain ⟨buffer, rfl, isFour⟩ := map_eq_some_iff.mp byte
  exact ⟨buffer, after, rfl, isFour⟩

end Zapada.Fat32
