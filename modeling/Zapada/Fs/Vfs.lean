import Zapada.Storage.BlockDevice

/-! The mount table and the file descriptor table of the VFS layer. -/

namespace Zapada.Fs

open Storage StorageStatus

abbrev Path := List Char

def root : Path := ['/']

def maxMounts : Nat := 8
def maxFds : Nat := 16

/-- The mount slots; those below `count` are in use. -/
structure MountTable (Volume : Type) where
  paths : Fin maxMounts → Option Path
  volumes : Fin maxMounts → Option Volume
  count : Nat
  bounded : count ≤ maxMounts

namespace MountTable

variable {Volume : Type}

def empty : MountTable Volume where
  paths := fun _ => none
  volumes := fun _ => none
  count := 0
  bounded := Nat.zero_le _

def getPath (table : MountTable Volume) (slot : Int) : Option Path :=
  if inUse : 0 ≤ slot ∧ slot < table.count then
    if slot = 0 then some root
    else table.paths ⟨slot.toNat, by have := table.bounded; omega⟩
  else none

def getVolume (table : MountTable Volume) (slot : Int) : Option Volume :=
  if inUse : 0 ≤ slot ∧ slot < table.count then
    table.volumes ⟨slot.toNat, by have := table.bounded; omega⟩
  else none

def setSlot (table : MountTable Volume) (slot : Fin maxMounts) (path : Path) (volume : Volume) :
    MountTable Volume :=
  { table with
    paths := fun i => if i = slot then some path else table.paths i
    volumes := fun i => if i = slot then some volume else table.volumes i }

def mount (table : MountTable Volume) (path : Option Path) (volume : Option Volume) :
    Int × MountTable Volume :=
  match volume, path with
  | some volume, some path =>
    if path.head? ≠ some '/' then (invalidArgument, table)
    else if room : table.count < maxMounts then
      if (List.range table.count).any fun i => table.getPath i = some path then
        (alreadyExists, table)
      else
        (table.count, { table.setSlot ⟨table.count, room⟩ path volume with
          count := table.count + 1
          bounded := room })
    else (tableFull, table)
  | _, _ => (invalidArgument, table)

theorem atLeastOne_bounded (table : MountTable Volume) :
    (if table.count ≤ 0 then 1 else table.count) ≤ maxMounts := by
  split
  · decide
  · exact table.bounded

def replaceRoot (table : MountTable Volume) (volume : Option Volume) : Int × MountTable Volume :=
  match volume with
  | none => (invalidArgument, table)
  | some volume =>
    (ok, { table.setSlot ⟨0, by decide⟩ root volume with
      count := if table.count ≤ 0 then 1 else table.count
      bounded := table.atLeastOne_bounded })

/-- The path goes on after a mount path at a component boundary. -/
def boundaryOkay (path mountPath : Path) : Bool :=
  mountPath = root ∨ path.length = mountPath.length ∨ (path.drop mountPath.length).head? = some '/'

/-- One round of the loop in `Resolve`, on the best slot so far and its length. -/
def resolveSlot (table : MountTable Volume) (path : Path) (best : Int × Int) (i : Nat) :
    Int × Int :=
  match table.getPath i with
  | none => best
  | some mountPath =>
    if mountPath.length ≤ path.length ∧ best.2 < mountPath.length then
      if mountPath.isPrefixOf path ∧ boundaryOkay path mountPath then (i, mountPath.length)
      else best
    else best

def resolve (table : MountTable Volume) (path : Path) : Int :=
  if path.length = 0 then -1
  else ((List.range table.count).foldl (table.resolveSlot path) (-1, -1)).1

end MountTable

def pathResolve (table : MountTable Volume) (path : Option Path) : Int :=
  match path with
  | none => -1
  | some path => if path.head? ≠ some '/' then -1 else table.resolve path

structure Descriptor where
  isOpen : Bool
  mountSlot : Int
  volumeToken : Int
  curOffset : Int
  size : Int
  accessIntent : Int

def Descriptor.unused : Descriptor where
  isOpen := false
  mountSlot := 0
  volumeToken := 0
  curOffset := 0
  size := 0
  accessIntent := 0

abbrev FdTable := Fin maxFds → Descriptor

namespace FdTable

def opened (table : FdTable) (fd : Int) : Option (Fin maxFds) :=
  if inTable : 0 ≤ fd ∧ fd < maxFds then
    let i : Fin maxFds := ⟨fd.toNat, by omega⟩
    if (table i).isOpen then some i else none
  else none

/-- `Alloc`: the first free descriptor, or -1. -/
def alloc (table : FdTable) (mountSlot volumeToken size accessIntent : Int) : Int × FdTable :=
  match (List.finRange maxFds).find? fun i => !(table i).isOpen with
  | none => (-1, table)
  | some i => (i.val, fun j => if j = i then
      { isOpen := true, mountSlot, volumeToken, curOffset := 0, size, accessIntent } else table j)

def free (table : FdTable) (i : Fin maxFds) : FdTable :=
  fun j => if j = i then { table j with isOpen := false } else table j

end FdTable

/-! The VFS coordinator: opens, reads, writes and closes files through the mounted
volumes. Volumes are objects of any kind over any state of the world. -/

open Foundation

namespace FileAccessIntent

def readOnly : Int := 0
def readWrite : Int := 1

end FileAccessIntent

structure MountedVolume (Volume World : Type) where
  resolve : Volume → Path → World → Int × World
  openFile : Volume → (nodeHandle accessIntent : Int) → World → Int × World
  stat : Volume → (nodeHandle : Int) → World → Int × Int × World
  read : Volume → (fileToken : Int) → Buffer → (offset count : Int) → World → Int × Buffer × World
  write : Volume → (fileToken : Int) → Buffer → (offset count : Int) → World → Int × World
  close : Volume → (fileToken : Int) → World → Int × World

/-- A call of the VFS to a volume that creates, uses or ends a token. -/
inductive VolumeCall (Volume : Type) where
  | opened (volume : Volume) (token : Int)
  | read (volume : Volume) (token : Int)
  | wrote (volume : Volume) (token : Int)
  | closed (volume : Volume) (token status : Int)

structure Vfs (Volume : Type) where
  initialized : Bool
  mounts : MountTable Volume
  fds : FdTable

/-- What a VFS call returns and leaves behind, with the volume calls it made. -/
structure Outcome (Volume World : Type) where
  status : Int
  buffer : Option Buffer
  vfs : Vfs Volume
  world : World
  calls : List (VolumeCall Volume)

namespace Vfs

variable {Volume World : Type} (volumes : MountedVolume Volume World)

def fresh : Vfs Volume where
  initialized := false
  mounts := .empty
  fds := fun _ => .unused

/-- `Initialize` with the bootstrap volume. -/
def initializeVfs (bootstrapRoot : Volume) (vfs : Vfs Volume) : Int × Vfs Volume :=
  if vfs.initialized then (ok, vfs)
  else
    let (rootSlot, mounts) := MountTable.mount .empty (some root) (some bootstrapRoot)
    if rootSlot < 0 then (rootSlot, { vfs with mounts, fds := fun _ => .unused })
    else (ok, { initialized := true, mounts, fds := fun _ => .unused })

/-- A call that returns without any effect. -/
def refuse (vfs : Vfs Volume) (world : World) (status : Int) (buffer : Option Buffer) :
    Outcome Volume World where
  status
  buffer
  vfs
  world
  calls := []

def mount (vfs : Vfs Volume) (world : World) (mountPath : Option Path) (volume : Option Volume) :
    Outcome Volume World :=
  if ¬ vfs.initialized then vfs.refuse world notMounted none
  else
    let (status, mounts) := vfs.mounts.mount mountPath volume
    { vfs.refuse world status none with vfs := { vfs with mounts } }

def mountRoot (vfs : Vfs Volume) (world : World) (volume : Option Volume) : Outcome Volume World :=
  if ¬ vfs.initialized then vfs.refuse world notMounted none
  else
    let (status, mounts) := vfs.mounts.replaceRoot volume
    { vfs.refuse world status none with vfs := { vfs with mounts } }

/-- The part of a path that the volume at a mount path sees. -/
def localPath (mountPath path : Path) : Option Path :=
  if mountPath = root then some path
  else if path.length = mountPath.length then some root
  else if path.length > mountPath.length ∧ path[mountPath.length]? = some '/' then
    some (path.drop mountPath.length)
  else none

/-- The end of `Open`, on the token that the volume gave out. -/
def bindToken (vfs : Vfs Volume) (world : World) (slot : Int) (volume : Volume)
    (nodeHandle accessIntent token : Int) : Outcome Volume World :=
  let (statRc, factsSize, world) := volumes.stat volume nodeHandle world
  let size := if 0 ≤ statRc then int32 factsSize else 0
  let (fd, fds) := vfs.fds.alloc slot token size accessIntent
  if fd < 0 then
    let (rc, world) := volumes.close volume token world
    { vfs.refuse world tableFull none with
      calls := [.opened volume token, .closed volume token rc] }
  else
    { vfs.refuse world fd none with
      vfs := { vfs with fds }
      calls := [.opened volume token] }

/-- `Open`: a file descriptor or a status. -/
def openFile (vfs : Vfs Volume) (world : World) (path : Option Path) (accessIntent : Int) :
    Outcome Volume World :=
  if accessIntent ≠ FileAccessIntent.readOnly ∧ accessIntent ≠ FileAccessIntent.readWrite then
    vfs.refuse world invalidArgument none
  else if ¬ vfs.initialized then vfs.refuse world notMounted none
  else
    let slot := pathResolve vfs.mounts path
    if slot < 0 then vfs.refuse world notFound none
    else
      match path, vfs.mounts.getVolume slot, vfs.mounts.getPath slot with
      | some path, some volume, some mountPath =>
        match localPath mountPath path with
        | none => vfs.refuse world notFound none
        | some localPath =>
          let (nodeHandle, world) := volumes.resolve volume localPath world
          if nodeHandle < 0 then vfs.refuse world nodeHandle none
          else
            let (token, world) := volumes.openFile volume nodeHandle accessIntent world
            if token < 0 then
              { vfs.refuse world token none with calls := [.opened volume token] }
            else vfs.bindToken volumes world slot volume nodeHandle accessIntent token
      | _, _, _ => vfs.refuse world notMounted none

def close (vfs : Vfs Volume) (world : World) (fd : Int) : Outcome Volume World :=
  match vfs.fds.opened fd with
  | none => vfs.refuse world invalidArgument none
  | some i =>
    match vfs.mounts.getVolume (vfs.fds i).mountSlot with
    | none => vfs.refuse world notMounted none
    | some volume =>
      let token := (vfs.fds i).volumeToken
      let (rc, world) := volumes.close volume token world
      if rc < 0 then { vfs.refuse world rc none with calls := [.closed volume token rc] }
      else
        { vfs.refuse world ok none with
          vfs := { vfs with fds := vfs.fds.free i }
          calls := [.closed volume token rc] }

def read (vfs : Vfs Volume) (world : World) (fd : Int) (buffer : Option Buffer)
    (offset count : Int) : Outcome Volume World :=
  match vfs.fds.opened fd, buffer with
  | some i, some bytes =>
    if offset < 0 ∨ count ≤ 0 ∨ bytes.length < int32 (offset + count) then
      vfs.refuse world invalidArgument buffer
    else
      match vfs.mounts.getVolume (vfs.fds i).mountSlot with
      | none => vfs.refuse world notMounted buffer
      | some volume =>
        let token := (vfs.fds i).volumeToken
        let (bytesRead, bytes, world) := volumes.read volume token bytes offset count world
        { vfs.refuse world bytesRead (some bytes) with calls := [.read volume token] }
  | _, _ => vfs.refuse world invalidArgument buffer

def write (vfs : Vfs Volume) (world : World) (fd : Int) (buffer : Option Buffer)
    (offset count : Int) : Outcome Volume World :=
  match vfs.fds.opened fd with
  | none => vfs.refuse world invalidArgument buffer
  | some i =>
    if (vfs.fds i).accessIntent ≠ FileAccessIntent.readWrite then
      vfs.refuse world permissionDenied buffer
    else
      match buffer with
      | none => vfs.refuse world invalidArgument buffer
      | some bytes =>
        if offset < 0 ∨ count < 0 ∨ bytes.length < int32 (offset + count) then
          vfs.refuse world invalidArgument buffer
        else if count = 0 then vfs.refuse world 0 buffer
        else
          match vfs.mounts.getVolume (vfs.fds i).mountSlot with
          | none => vfs.refuse world notMounted buffer
          | some volume =>
            let token := (vfs.fds i).volumeToken
            let (written, world) := volumes.write volume token bytes offset count world
            { vfs.refuse world written buffer with calls := [.wrote volume token] }

end Vfs

end Zapada.Fs
