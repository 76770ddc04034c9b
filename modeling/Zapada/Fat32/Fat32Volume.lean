import Zapada.Fat32.BufHelper
import Zapada.Storage.BlockDevice

/-! The FAT32 volume: mounting, and files that are opened, read and repositioned
through tokens. A token caches its current cluster and an offset inside it. -/

namespace Zapada.Fat32

open Foundation Storage StorageStatus BufHelper

def maxTokens : Nat := 8
def maxNodes : Nat := 64
def accessReadOnly : Int := 0

/-- A directory entry that was looked up; kind 1 is a file, kind 2 a directory. -/
structure Node where
  used : Bool
  firstCluster : Int
  size : Int
  kind : Int

structure Token where
  isOpen : Bool
  nodeHandle : Nat
  firstCluster : Int
  fileSize : Int
  currentCluster : Int
  offsetInCluster : Nat
  offset : Nat

def Token.closed : Token where
  isOpen := false
  nodeHandle := 0
  firstCluster := 0
  fileSize := 0
  currentCluster := 0
  offsetInCluster := 0
  offset := 0

structure Fat32Volume where
  bps : Nat
  spc : Nat
  fatStart : Int
  dataStart : Int
  rootCluster : Int
  partition : PartitionView
  nodes : Fin maxNodes → Node
  tokens : Fin maxTokens → Token

def isPowerOfTwo (value : BitVec 32) : Bool := 0 < value.toInt ∧ value &&& (value - 1) = 0

def isEoc (entry : Int) : Bool :=
  0x0FFFFFF8#32 ≤ BitVec.ofInt 32 entry &&& 0x0FFFFFFF#32

def readSector (partition : PartitionView) (lba : Int) : Except Int SectorBuffer :=
  if lba < 0 then .error invalidArgument
  else
    let (rc, sector) := partition.readSectors lba 1
    if rc < 0 then .error rc
    else if rc ≠ 1 then .error ioError
    else .ok (packSector sector)

def initializeVolume (partition : Option PartitionView) : Except Int Fat32Volume :=
  match partition with
  | none => .error invalidArgument
  | some partition =>
    match readSector partition 0 with
    | .error _ => .error ioError
    | .ok bpb =>
      let bps := (getWord bpb 11).toInt
      let spc := getByte bpb 13
      let reserved := (getWord bpb 14).toInt
      let fatCount := (getByte bpb 16).toInt
      let fatSize16 := (getWord bpb 22).toInt
      let fatSize32 := (getDword bpb 36).toInt
      let rootCluster := (getDword bpb 44).toInt
      if bps ≠ 512 then .error notSupported
      else if ¬ isPowerOfTwo spc ∨ reserved ≤ 0 ∨ fatCount ≤ 0 ∨ rootCluster < 2 then
        .error corruptedData
      else
        let fatSize := if fatSize16 ≠ 0 then fatSize16 else fatSize32
        if fatSize ≤ 0 then .error corruptedData
        else
          .ok {
            bps := bps.toNat
            spc := spc.toNat
            fatStart := reserved
            dataStart := int32 (reserved + int32 (fatCount * fatSize))
            rootCluster
            partition
            nodes := fun i =>
              if i.val = 0 then { used := true, firstCluster := rootCluster, size := 0, kind := 2 }
              else { used := false, firstCluster := 0, size := 0, kind := 0 }
            tokens := fun _ => .closed }

namespace Fat32Volume

def clusterSize (volume : Fat32Volume) : Nat := volume.bps * volume.spc

def setToken (volume : Fat32Volume) (t : Fin maxTokens) (token : Token) : Fat32Volume :=
  { volume with tokens := Function.update volume.tokens t token }

/-- `IsValidToken`, with the slot of a valid token. -/
def validToken (volume : Fat32Volume) (fileToken : Int) : Option (Fin maxTokens) :=
  if inTable : 0 ≤ fileToken ∧ fileToken < maxTokens then
    let t : Fin maxTokens := ⟨fileToken.toNat, by omega⟩
    if (volume.tokens t).isOpen then some t else none
  else none

/-- `IsValidNodeHandle`, with the entry of a valid handle. -/
def validNode (volume : Fat32Volume) (nodeHandle : Int) : Option (Fin maxNodes) :=
  if inTable : 0 ≤ nodeHandle ∧ nodeHandle < maxNodes then
    let node : Fin maxNodes := ⟨nodeHandle.toNat, by omega⟩
    if (volume.nodes node).used then some node else none
  else none

theorem validNode_eq_some {volume : Fat32Volume}
    (valid : volume.validNode nodeHandle = some node) : nodeHandle = node ∧
      (volume.nodes node).used := by
  simp only [validNode] at valid
  split at valid
  · split at valid
    · cases valid
      exact ⟨by simp only; omega, ‹_›⟩
    · contradiction
  · contradiction

def clusterToLba (volume : Fat32Volume) (cluster : Int) : Int :=
  int32 (volume.dataStart + int32 ((cluster - 2) * volume.spc))

/-- `ReadFatEntry`: -1 when the sector cannot be read. -/
def readFatEntry (volume : Fat32Volume) (cluster : Int) : Int :=
  let byteOff := int32 (cluster * 4)
  let fatSec := int32 (volume.fatStart + byteOff.tdiv volume.bps)
  let inSec := byteOff.tmod volume.bps
  match readSector volume.partition fatSec with
  | .error _ => -1
  | .ok secBuf => (getDword secBuf inSec.toNat &&& 0x0FFFFFFF#32).toInt

/-- The token that `Open` sets up for a node. -/
def openedToken (volume : Fat32Volume) (node : Fin maxNodes) : Token where
  isOpen := true
  nodeHandle := node
  firstCluster := (volume.nodes node).firstCluster
  fileSize := (volume.nodes node).size
  currentCluster := (volume.nodes node).firstCluster
  offsetInCluster := 0
  offset := 0

def openFile (volume : Fat32Volume) (nodeHandle accessIntent : Int) : Int × Fat32Volume :=
  if accessIntent ≠ accessReadOnly then (notSupported, volume)
  else
    match volume.validNode nodeHandle with
    | none => (notFound, volume)
    | some node =>
      if (volume.nodes node).kind ≠ 1 then (notFile, volume)
      else
        match (List.finRange maxTokens).find? fun t => !(volume.tokens t).isOpen with
        | none => (tableFull, volume)
        | some t => (t.val, volume.setToken t (volume.openedToken node))

def close (volume : Fat32Volume) (fileToken : Int) : Int × Fat32Volume :=
  if inTable : 0 ≤ fileToken ∧ fileToken < maxTokens then
    (ok, volume.setToken ⟨fileToken.toNat, by omega⟩ .closed)
  else (invalidArgument, volume)

/-- The bytes one sector contributes to a read. -/
def copySector (secBuf : SectorBuffer) (byteInSector target wanted : Nat)
    (buffer : Buffer) : Buffer :=
  (List.range wanted).foldl (fun buffer i => buffer.set (target + i)
    (UInt8.ofNat (getByte secBuf (byteInSector + i)).toNat)) buffer

/-- How one round of the loop in `Read` ends: the call returns, or goes on. -/
inductive ReadRound where
  | returned (status : Int) (token : Token) (buffer : Buffer)
  | goesOn (token : Token) (buffer : Buffer) (written : Nat)

/-- The end of a round: the next cluster is looked up when this one is used up and
more bytes are wanted. -/
def advance (volume : Fat32Volume) (count : Nat) (token : Token) (buffer : Buffer) (written : Nat) :
    ReadRound :=
  if volume.clusterSize ≤ token.offsetInCluster ∧ written < count then
    let next := volume.readFatEntry token.currentCluster
    if next < 0 then
      .returned (if 0 < written then written else ioError) token buffer
    else if isEoc next then
      .returned written { token with currentCluster := 0, offsetInCluster := 0 } buffer
    else .goesOn { token with currentCluster := next, offsetInCluster := 0 } buffer written
  else .goesOn token buffer written

def readRound (volume : Fat32Volume) (offset count : Nat) (token : Token) (buffer : Buffer)
    (written : Nat) : ReadRound :=
  if token.currentCluster < 2 then
    .returned (if 0 < written then written else corruptedData) token buffer
  else
    let sectorInCluster := token.offsetInCluster / volume.bps
    let byteInSector := token.offsetInCluster % volume.bps
    let lba := int32 (volume.clusterToLba token.currentCluster + sectorInCluster)
    match readSector volume.partition lba with
    | .error _ => .returned (if 0 < written then written else ioError) token buffer
    | .ok secBuf =>
      let available := volume.bps - byteInSector
      let wanted := min (count - written) available
      let buffer := copySector secBuf byteInSector (offset + written) wanted buffer
      let token := { token with
        offset := token.offset + wanted
        offsetInCluster := token.offsetInCluster + wanted }
      volume.advance count token buffer (written + wanted)

/-- The loop of `Read`. Every round adds at least one byte, so `count` rounds are
enough. -/
def readLoop (volume : Fat32Volume) (offset count : Nat) :
    (fuel : Nat) → Token → Buffer → (written : Nat) → Int × Token × Buffer
  | 0, token, buffer, written => (written, token, buffer)
  | fuel + 1, token, buffer, written =>
    if count ≤ written then (written, token, buffer)
    else
      match volume.readRound offset count token buffer written with
      | .returned status token buffer => (status, token, buffer)
      | .goesOn token buffer written => readLoop volume offset count fuel token buffer written

/-- `Read`: the number of bytes or a status, and the caller's buffer. -/
def read (volume : Fat32Volume) (fileToken : Int) (buffer : Option Buffer) (offset count : Int) :
    Int × Option Buffer × Fat32Volume :=
  match volume.validToken fileToken, buffer with
  | some t, some bytes =>
    if offset < 0 ∨ count < 0 ∨ bytes.length < int32 (offset + count) then
      (invalidArgument, buffer, volume)
    else if count = 0 then (0, buffer, volume)
    else
      let token := volume.tokens t
      if token.fileSize ≤ token.offset then (0, buffer, volume)
      else
        let count := min count (token.fileSize - token.offset)
        if token.currentCluster < 2 ∧ 0 < count then (corruptedData, buffer, volume)
        else
          let (status, token, bytes) :=
            volume.readLoop offset.toNat count.toNat count.toNat token bytes 0
          (status, some bytes, volume.setToken t token)
  | _, _ => (invalidArgument, buffer, volume)

/-- The loop of `Seek`: the cluster after some steps along the FAT. -/
def walkFat (volume : Fat32Volume) : (clusterSteps : Nat) → (cluster : Int) → Option Int
  | 0, cluster => some cluster
  | clusterSteps + 1, cluster =>
    let next := volume.readFatEntry cluster
    if next < 0 ∨ isEoc next ∨ next < 2 then none else walkFat volume clusterSteps next

def seek (volume : Fat32Volume) (fileToken absoluteOffset : Int) : Int × Fat32Volume :=
  match volume.validToken fileToken with
  | none => (invalidArgument, volume)
  | some t =>
    let token := volume.tokens t
    if absoluteOffset < 0 ∨ token.fileSize < absoluteOffset then
      (invalidArgument, volume)
    else if token.fileSize = 0 then
      (ok, volume.setToken t { token with offset := 0, currentCluster := 0, offsetInCluster := 0 })
    else if absoluteOffset = token.fileSize then
      (ok, volume.setToken t
        { token with
          offset := absoluteOffset.toNat
          currentCluster := token.firstCluster
          offsetInCluster := absoluteOffset.toNat % volume.clusterSize })
    else
      match volume.walkFat (absoluteOffset.toNat / volume.clusterSize) token.firstCluster with
      | none => (corruptedData, volume)
      | some cluster =>
        (ok, volume.setToken t
          { token with
            offset := absoluteOffset.toNat
            currentCluster := cluster
            offsetInCluster := absoluteOffset.toNat % volume.clusterSize })

end Fat32Volume

end Zapada.Fat32
