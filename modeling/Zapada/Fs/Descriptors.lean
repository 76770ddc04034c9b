import Zapada.Foundation.Machine
import Zapada.Fs.Vfs

namespace Zapada.Fs

open Foundation Storage StorageStatus

variable {Volume World : Type}

inductive VfsCall (Volume : Type) where
  | openFile (path : Option Path) (accessIntent : Int)
  | close (fd : Int)
  | read (fd : Int) (buffer : Option Buffer) (offset count : Int)
  | write (fd : Int) (buffer : Option Buffer) (offset count : Int)
  | mount (mountPath : Option Path) (volume : Option Volume)
  | mountRoot (volume : Option Volume)

/-- The tables and the state of the volumes. -/
structure VfsState (Volume World : Type) where
  vfs : Vfs Volume
  world : World

/-- A call with its status and the volume calls it made. -/
structure VfsEvent (Volume : Type) where
  call : VfsCall Volume
  status : Int
  calls : List (VolumeCall Volume)

def VfsState.perform (volumes : MountedVolume Volume World) (state : VfsState Volume World) :
    VfsCall Volume → Outcome Volume World
  | .openFile path accessIntent => state.vfs.openFile volumes state.world path accessIntent
  | .close fd => state.vfs.close volumes state.world fd
  | .read fd buffer offset count => state.vfs.read volumes state.world fd buffer offset count
  | .write fd buffer offset count => state.vfs.write volumes state.world fd buffer offset count
  | .mount mountPath volume => state.vfs.mount state.world mountPath volume
  | .mountRoot volume => state.vfs.mountRoot state.world volume

/-- The VFS after its initialization, over any volumes. -/
def vfsMachine (volumes : MountedVolume Volume World) :
    Machine (VfsState Volume World) (VfsEvent Volume) where
  initial state := ∃ bootstrapRoot, state.vfs = (Vfs.initializeVfs bootstrapRoot .fresh).2
  step before event after :=
    let outcome := before.perform volumes event.call
    event.status = outcome.status ∧ event.calls = outcome.calls ∧
      after = { vfs := outcome.vfs, world := outcome.world }

/-- What one event does to the binding of a descriptor. -/
def bindingAfter (fd : Int) (current : Option (Volume × Int)) : VfsEvent Volume →
      Option (Volume × Int)
  | ⟨.openFile _ _, status, calls⟩ =>
    if status = fd then
      match calls with
      | .opened volume token :: _ => some (volume, token)
      | _ => none
    else current
  | ⟨.close closed, status, _⟩ => if closed = fd ∧ status = StorageStatus.ok then none else current
  | _ => current

/-- The volume and the token that the `Open` of a descriptor obtained; none if the
descriptor is not open. -/
def binding (log : List (VfsEvent Volume)) (fd : Int) : Option (Volume × Int) :=
  log.foldl (bindingAfter fd) none

/-- What one volume call does to the life of a token of a volume. -/
def outstandingAfter (volume : Volume) (token : Int) (held : Prop) : VolumeCall Volume → Prop
  | .opened other opened => held ∨ (other = volume ∧ opened = token ∧ 0 ≤ token)
  | .closed other closed status => held ∧ ¬ (other = volume ∧ closed = token ∧ 0 ≤ status)
  | _ => held

/-- The volume gave out the token and did not take it back. -/
def Outstanding (volume : Volume) (token : Int) (calls : List (VolumeCall Volume)) : Prop :=
  calls.foldl (outstandingAfter volume token) False

def volumeCalls (log : List (VfsEvent Volume)) : List (VolumeCall Volume) :=
  log.flatMap VfsEvent.calls

/-- In these calls the volume never gives out a token that is still outstanding. -/
def Allocates (volume : Volume) (calls : List (VolumeCall Volume)) : Prop :=
  ∀ earlier token later, calls = earlier ++ .opened volume token :: later →
    ¬ Outstanding volume token earlier

/-- The root is only replaced while no open descriptor has mount slot 0, or by the
same volume. -/
def rootUnused (state : VfsState Volume World) : VfsCall Volume → Prop
  | .mountRoot (some volume) => ∀ i, (state.vfs.fds i).isOpen → (state.vfs.fds i).mountSlot = 0 →
      state.vfs.mounts.getVolume 0 = some volume
  | _ => True

/-- An entry of the descriptor table against the log. -/
def EntryBound (mounts : MountTable Volume) (entry : Descriptor) (bound : Option (Volume × Int)) :
    Prop :=
  if entry.isOpen then
    ∃ volume, mounts.getVolume entry.mountSlot = some volume ∧
      bound = some (volume, entry.volumeToken)
  else bound = none

theorem binding_append (log : List (VfsEvent Volume)) (event : VfsEvent Volume) (fd : Int) :
    binding (log ++ [event]) fd = bindingAfter fd (binding log fd) event := by
  rw [binding, List.foldl_append]
  rfl

namespace MountTable

variable {table : MountTable Volume} {volume : Volume} {slot : Int}

theorem getVolume_eq_some : table.getVolume slot = some volume ↔
    ∃ i : Fin maxMounts, slot = i ∧ i < table.count ∧ table.volumes i = some volume := by
  simp only [getVolume]
  split
  · rename_i inUse
    refine ⟨fun found => ⟨_, by simp only; omega, by simp only; omega, found⟩, ?_⟩
    rintro ⟨i, rfl, -, found⟩
    exact found
  · rename_i outside
    simp only [reduceCtorEq, false_iff, not_exists, not_and]
    omega

theorem getVolume_mount (path : Option Path) (added : Option Volume)
    (mounted : table.getVolume slot = some volume) :
    (table.mount path added).2.getVolume slot = some volume := by
  simp only [mount]
  split
  · split
    · exact mounted
    split
    · split
      · exact mounted
      · obtain ⟨i, same, inUse, found⟩ := getVolume_eq_some.mp mounted
        refine getVolume_eq_some.mpr ⟨i, same, Nat.lt_succ_of_lt inUse, ?_⟩
        have other : i ≠ ⟨table.count, ‹_›⟩ := fun equal => by
          rw [equal] at inUse
          exact Nat.lt_irrefl _ inUse
        simp only [setSlot, if_neg other]
        exact found
    · exact mounted
  · exact mounted

theorem getVolume_replaceRoot (root : Option Volume) (mounted : table.getVolume slot = some volume)
    (kept : slot = 0 → root.isSome → root = some volume) :
    (table.replaceRoot root).2.getVolume slot = some volume := by
  cases root with
  | none => exact mounted
  | some root =>
    obtain ⟨i, same, inUse, found⟩ := getVolume_eq_some.mp mounted
    refine getVolume_eq_some.mpr ⟨i, same, ?_, ?_⟩
    · simp only [replaceRoot]
      split <;> omega
    · simp only [replaceRoot, setSlot]
      split
      · rename_i first
        rw [first] at same
        exact kept same rfl
      · exact found

end MountTable

theorem FdTable.opened_eq_some {table : FdTable}
    (found : table.opened fd = some i) : fd = i ∧ (table i).isOpen := by
  simp only [opened] at found
  split at found
  · split at found
    · cases found
      exact ⟨by simp only; omega, ‹_›⟩
    · contradiction
  · contradiction

theorem FdTable.alloc_cases (table : FdTable) (mountSlot volumeToken size accessIntent : Int) :
    table.alloc mountSlot volumeToken size accessIntent = (-1, table) ∨
      ∃ i, (table i).isOpen = false ∧ table.alloc mountSlot volumeToken size accessIntent =
        ((i.val : Int), fun j => if j = i then
          { isOpen := true, mountSlot, volumeToken, curOffset := 0, size, accessIntent } else
            table j) := by
  simp only [alloc]
  split
  · exact .inl rfl
  · rename_i i found
    exact .inr ⟨i, by simpa using List.find?_some found, rfl⟩

namespace Vfs

variable (volumes : MountedVolume Volume World) {vfs : Vfs Volume}

/-- An open that gives out no descriptor leaves the tables alone; it may have opened a
token that it closed again. -/
structure OpenFails (vfs : Vfs Volume) (outcome : Outcome Volume World) : Prop where
  vfs : outcome.vfs = vfs
  status : outcome.status < 0
  calls : outcome.calls = [] ∨ ∃ volume token,
    (outcome.calls = [.opened volume token] ∧ token < 0) ∨
    ∃ status, outcome.calls = [.opened volume token, .closed volume token status]

/-- An open that succeeds binds a free descriptor to the token. -/
structure OpenBinds (vfs : Vfs Volume) (outcome : Outcome Volume World) (i : Fin maxFds)
    (volume : Volume) (entry : Descriptor) : Prop where
  free : (vfs.fds i).isOpen = false
  status : outcome.status = i
  mounts : outcome.vfs.mounts = vfs.mounts
  fds : outcome.vfs.fds = fun j => if j = i then entry else vfs.fds j
  isOpen : entry.isOpen = true
  mounted : vfs.mounts.getVolume entry.mountSlot = some volume
  token : 0 ≤ entry.volumeToken
  calls : outcome.calls = [.opened volume entry.volumeToken]

theorem OpenFails.refused {status : Int} (world : World) (negative : status < 0) :
    OpenFails vfs (vfs.refuse world status none) := ⟨rfl, negative, .inl rfl⟩

theorem bindToken_cases (mounted : vfs.mounts.getVolume slot = some volume) (valid : 0 ≤ token)
    (world : World) (nodeHandle accessIntent : Int) :
    OpenFails vfs (vfs.bindToken volumes world slot volume nodeHandle accessIntent token) ∨
      ∃ i entry, OpenBinds vfs
        (vfs.bindToken volumes world slot volume nodeHandle accessIntent token) i volume entry := by
  have full : tableFull < 0 := by decide
  simp only [bindToken]
  rcases FdTable.alloc_cases vfs.fds slot token
    (if 0 ≤ (volumes.stat volume nodeHandle world).1 then
    int32 (volumes.stat volume nodeHandle world).2.1 else 0) accessIntent with none_free |
      ⟨i, free, given⟩
  · rw [none_free]
    exact .inl ⟨rfl, full, .inr ⟨volume, token, .inr ⟨_, rfl⟩⟩⟩
  · have valid_fd : ¬ (i.val : Int) < 0 := by omega
    rw [given]
    exact .inr ⟨i, _, free, rfl, rfl, rfl, rfl, mounted, valid, rfl⟩

theorem openFile_cases (vfs : Vfs Volume) (world : World) (path : Option Path)
    (accessIntent : Int) :
    OpenFails vfs (vfs.openFile volumes world path accessIntent) ∨
      ∃ i volume entry,
        OpenBinds vfs (vfs.openFile volumes world path accessIntent) i volume entry := by
  have invalid : invalidArgument < 0 := by decide
  have unmounted : notMounted < 0 := by decide
  have missing : notFound < 0 := by decide
  simp only [openFile]
  split
  · exact .inl (.refused world invalid)
  split
  · exact .inl (.refused world unmounted)
  split
  · exact .inl (.refused world missing)
  split
  · rename_i volume mountPath _ mounted _
    split
    · exact .inl (.refused world missing)
    split
    · exact .inl (.refused _ ‹_›)
    split
    · rename_i refused
      exact .inl ⟨rfl, refused, .inr ⟨volume, _, .inl ⟨rfl, refused⟩⟩⟩
    · rename_i given
      rcases bindToken_cases volumes mounted (Int.not_lt.mp given) _ _ accessIntent with failed |
        ⟨i, entry, binds⟩
      · exact .inl failed
      · exact .inr ⟨i, volume, entry, binds⟩
  · exact .inl (.refused world unmounted)

/-- A close is refused, or reaches the volume of the descriptor's mount slot. -/
theorem close_cases (vfs : Vfs Volume) (world : World) (fd : Int) :
    ((vfs.close volumes world fd).vfs = vfs ∧ (vfs.close volumes world fd).status ≠ ok ∧
      (vfs.close volumes world fd).calls = []) ∨ ∃ i volume rc, vfs.fds.opened fd = some i ∧
      vfs.mounts.getVolume (vfs.fds i).mountSlot = some volume ∧
      (vfs.close volumes world fd).calls = [.closed volume (vfs.fds i).volumeToken rc] ∧
      ((rc < 0 ∧ (vfs.close volumes world fd).vfs = vfs ∧
        (vfs.close volumes world fd).status = rc) ∨
        (0 ≤ rc ∧ (vfs.close volumes world fd).vfs = { vfs with fds := vfs.fds.free i } ∧
          (vfs.close volumes world fd).status = ok)) := by
  have invalid : invalidArgument ≠ ok := by decide
  have unmounted : notMounted ≠ ok := by decide
  simp only [close]
  split
  · exact .inl ⟨rfl, invalid, rfl⟩
  rename_i i found
  split
  · exact .inl ⟨rfl, unmounted, rfl⟩
  rename_i volume mounted
  refine .inr ⟨i, volume, (volumes.close volume (vfs.fds i).volumeToken world).1, found,
    mounted, ?_⟩
  split
  · exact ⟨rfl, .inl ⟨‹_›, rfl, rfl⟩⟩
  · exact ⟨rfl, .inr ⟨Int.not_lt.mp ‹_›, rfl, rfl⟩⟩

theorem read_quiet (vfs : Vfs Volume) (world : World) (fd : Int) (buffer : Option Buffer)
    (offset count : Int) : (vfs.read volumes world fd buffer offset count).vfs = vfs ∧
      ∀ volume token held,
        (vfs.read volumes world fd buffer offset count).calls.foldl (outstandingAfter volume token)
          held = held := by
  simp only [read]
  repeat' split
  all_goals exact ⟨rfl, fun _ _ _ => rfl⟩

theorem write_quiet (vfs : Vfs Volume) (world : World) (fd : Int) (buffer : Option Buffer)
    (offset count : Int) : (vfs.write volumes world fd buffer offset count).vfs = vfs ∧
      ∀ volume token held,
        (vfs.write volumes world fd buffer offset count).calls.foldl (outstandingAfter volume token)
          held = held := by
  simp only [write]
  repeat' split
  all_goals exact ⟨rfl, fun _ _ _ => rfl⟩

end Vfs

end Zapada.Fs
