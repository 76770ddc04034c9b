import Zapada.Fat32.Fat32Volume
import Zapada.Fs.MountPaths

namespace Zapada.Fat32

open Foundation Storage BufHelper StorageStatus

def maxClusterChain : Nat := 128
def dirEntriesPerSector : Nat := 16
def dirEntrySize : Nat := 32
def attrVolumeId : BitVec 32 := 0x08
def attrDirectory : BitVec 32 := 0x10
def attrLfn : BitVec 32 := 0x0F

/-- A name or a path; its characters are compared by code. -/
abbrev Name := List Char

/-- The bytes that `ByteToString` maps to themselves. -/
def inByteTable (value : Nat) : Bool :=
  value = 0x20 || value = 0x21 || (0x23 ≤ value && value ≤ 0x29) || value = 0x2D || value = 0x2E ||
    (0x30 ≤ value && value ≤ 0x39) || (0x40 ≤ value && value ≤ 0x5A) || value = 0x5E ||
    value = 0x5F || value = 0x60 || value = 0x7B || value = 0x7D || value = 0x7E

def byteToString (value : Nat) : Char :=
  if 0x61 ≤ value ∧ value ≤ 0x7A then Char.ofNat (value - 0x20)
  else if inByteTable value then Char.ofNat value
  else '?'

def toUpperAscii (ch : Nat) : Nat := if 'a'.toNat ≤ ch ∧ ch ≤ 'z'.toNat then ch - 32 else ch

/-- The characters of one field of a name, up to its first space. -/
def shortField (buf : SectorBuffer) (start length : Nat) : Name :=
  (((List.range length).map fun i => (getByte buf (start + i)).toNat).takeWhile (· ≠ 0x20)).map
    byteToString

def buildShortName (buf : SectorBuffer) (entOff : Nat) : Name :=
  let baseName := shortField buf entOff 8
  let ext := shortField buf (entOff + 8) 3
  if 0 < ext.length then baseName ++ ['.'] ++ ext else baseName

/-- One loop of `MatchPathComponent83`: a part of the component, padded with spaces. -/
def matchField (part : Name) (buf : SectorBuffer) (start length : Nat) : Bool :=
  (List.range length).all fun i =>
    let want := match part[i]? with
      | some ch => toUpperAscii ch.toNat
      | none => 0x20
    (getByte buf (start + i)).toNat = want

def matchPathComponent83 (component : Name) (buf : SectorBuffer) (entOff : Nat) : Bool :=
  if 1 < component.count '.' then false
  else
    let base := component.takeWhile (· ≠ '.')
    let ext := (component.dropWhile (· ≠ '.')).drop 1
    if base.length = 0 ∨ 8 < base.length ∨ 3 < ext.length then false
    else matchField base buf entOff 8 && matchField ext buf (entOff + 8) 3

/-- What a node of the table says about an entry. -/
@[ext]
structure NodeEntry where
  firstCluster : Int
  size : Int
  kind : Int
  name : Name
deriving DecidableEq

/-- A mounted volume with the names of its nodes. -/
structure Fat32Mount where
  volume : Fat32Volume
  nodeName : Fin maxNodes → Name

def mountVolume (partition : Option PartitionView) : Except Int Fat32Mount :=
  (initializeVolume partition).map fun volume =>
    { volume, nodeName := fun i => if i.val = 0 then ['/'] else [] }

namespace Fat32Mount

def sameNode (mount : Fat32Mount) (entry : NodeEntry) (i : Fin maxNodes) : Bool :=
  let node := mount.volume.nodes i
  node.used && node.firstCluster = entry.firstCluster && node.size = entry.size &&
    node.kind = entry.kind && mount.nodeName i = entry.name

def setNode (mount : Fat32Mount) (i : Fin maxNodes) (entry : NodeEntry) : Fat32Mount where
  volume := { mount.volume with
    nodes := Function.update mount.volume.nodes i
      { used := true, firstCluster := entry.firstCluster, size := entry.size, kind := entry.kind } }
  nodeName := Function.update mount.nodeName i entry.name

/-- `CacheNode`: the handle of an equal node, or of a new one. -/
def cacheNode (mount : Fat32Mount) (entry : NodeEntry) : Int × Fat32Mount :=
  match (List.finRange maxNodes).find? (mount.sameNode entry) with
  | some i => (i.val, mount)
  | none =>
    match (List.finRange maxNodes).find? fun i => 1 ≤ i.val ∧ !(mount.volume.nodes i).used with
    | some i => (i.val, mount.setNode i entry)
    | none => (tableFull, mount)

end Fat32Mount

/-- The entry at an offset of a sector, as `CacheEntry` and `FindEntryInDirectory` read it. -/
def scanEntry (secBuf : SectorBuffer) (entOff : Nat) : NodeEntry :=
  let clHi := getWord secBuf (entOff + 20)
  let clLo := getWord secBuf (entOff + 26)
  let attr := getByte secBuf (entOff + 11)
  { firstCluster := (clHi <<< 16 ||| clLo).toInt
    size := (getDword secBuf (entOff + 28)).toInt
    kind := if attr &&& attrDirectory ≠ 0 then 2 else 1
    name := buildShortName secBuf entOff }

/-- The walk over a directory that listing and lookup share: `visit` sees one entry
after the other and may end the call, `failed` is how the call ends on a sector that
cannot be read. -/
structure DirectoryWalk (σ ρ : Type) where
  visit : σ → SectorBuffer → (entOff : Nat) → Except ρ σ
  failed : σ → ρ

namespace DirectoryWalk

variable {σ ρ : Type} (walk : DirectoryWalk σ ρ) (volume : Fat32Volume)

def overSector (secBuf : SectorBuffer) (state : σ) : Except ρ σ :=
  (List.range dirEntriesPerSector).foldlM (fun state (ent : Nat) =>
    walk.visit state secBuf (ent * dirEntrySize)) state

def overLba (partition : PartitionView) (lba : Int) (state : σ) : Except ρ σ :=
  match readSector partition lba with
  | .error _ => .error (walk.failed state)
  | .ok secBuf => walk.overSector secBuf state

def overCluster (clusterLba : Int) (state : σ) : Except ρ σ :=
  (List.range volume.spc).foldlM (fun state (sec : Nat) =>
    walk.overLba volume.partition (int32 (clusterLba + sec)) state) state

/-- The outer loop, with what is left of `MaxClusterChain`. -/
def overChain : (depth : Nat) → (cluster : Int) → σ → Except ρ σ
  | 0, _, state => .ok state
  | depth + 1, cluster, state =>
    if isEoc cluster ∨ cluster < 2 then .ok state
    else do
      let state ← walk.overCluster volume (volume.clusterToLba cluster) state
      let next := volume.readFatEntry cluster
      if next < 0 then .error (walk.failed state)
      else if isEoc next then .ok state
      else overChain depth next state

end DirectoryWalk

structure Reported where
  childHandle : Int
  name : Name
  kind : Int
deriving DecidableEq

structure Listing where
  mount : Fat32Mount
  reported : List Reported

def listWalk : DirectoryWalk Listing (Int × Listing) where
  visit listing secBuf entOff :=
    let first := getByte secBuf (entOff + 0)
    if first = 0x00 then .error (ok, listing)
    else if first = 0xE5 then .ok listing
    else
      let attr := getByte secBuf (entOff + 11)
      if attr = attrLfn then .ok listing
      else if attr &&& attrVolumeId ≠ 0 then .ok listing
      else
        let entry := scanEntry secBuf entOff
        if entry.name = ['.'] ∨ entry.name = ['.', '.'] then .ok listing
        else
          let (childHandle, mount) := listing.mount.cacheNode entry
          if childHandle < 0 then .error (childHandle, { listing with mount })
          else .ok {
            mount
            reported :=
              listing.reported ++ [{ childHandle, name := entry.name, kind := entry.kind }] }
  failed listing := (ioError, listing)

/-- The inner loop of `FindEntryInDirectory`. -/
def findWalk (component : Name) (requireDirectory : Bool) :
    DirectoryWalk Unit (Except Int NodeEntry) where
  visit _ secBuf entOff :=
    let first := getByte secBuf (entOff + 0)
    if first = 0x00 then .error (.error notFound)
    else if first = 0xE5 then .ok ()
    else
      let attr := getByte secBuf (entOff + 11)
      if attr = attrLfn then .ok ()
      else if !matchPathComponent83 component secBuf entOff then .ok ()
      else if requireDirectory ∧ attr &&& attrDirectory = 0 then
        .error (.error notDirectory)
      else .error (.ok (scanEntry secBuf entOff))
  failed _ := .error ioError

/-- `FindEntryInDirectory`: the entry found, or a status. -/
def findEntryInDirectory (volume : Fat32Volume) (dirCluster : Int) (component : Name)
    (requireDirectory : Bool) : Except Int NodeEntry :=
  match (findWalk component requireDirectory).overChain volume maxClusterChain dirCluster () with
  | .ok () => .error notFound
  | .error found => found

namespace Fat32Mount

/-- `ListDirectory`: a status, what was reported, and the volume after it. -/
def listDirectory (mount : Fat32Mount) (nodeHandle : Int) : Int × Listing :=
  match mount.volume.validNode nodeHandle with
  | none => (notFound, ⟨mount, []⟩)
  | some node =>
    if (mount.volume.nodes node).kind ≠ 2 then (notDirectory, ⟨mount, []⟩)
    else
      let dirCluster := (mount.volume.nodes node).firstCluster
      match listWalk.overChain mount.volume maxClusterChain dirCluster ⟨mount, []⟩ with
      | .ok listing => (ok, listing)
      | .error (status, listing) => (status, listing)

/-- The loop of `Resolve` over the components that are left. The volume is read as it
was when the call started: a lookup changes nothing but the nodes. -/
def resolveFrom (volume : Fat32Volume) : (mount : Fat32Mount) →
    (currentHandle currentCluster : Int) →
    List Name → Int × Fat32Mount
  | mount, currentHandle, _, [] => (currentHandle, mount)
  | mount, _, currentCluster, component :: rest =>
    match findEntryInDirectory volume currentCluster component (rest ≠ []) with
    | .error rc => (rc, mount)
    | .ok entry =>
      let (handle, mount) := mount.cacheNode entry
      if handle < 0 then (handle, mount) else resolveFrom volume mount handle
        entry.firstCluster rest

def resolve (mount : Fat32Mount) (path : Option Name) : Int × Fat32Mount :=
  match path with
  | none => (invalidArgument, mount)
  | some path => resolveFrom mount.volume mount 0 mount.volume.rootCluster (Fs.components path)

end Fat32Mount

end Zapada.Fat32
