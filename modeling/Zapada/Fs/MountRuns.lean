import Zapada.Fs.Descriptors
import Zapada.Fs.MountPaths

namespace Zapada.Fs

open Foundation Storage FileAccessIntent StorageStatus

variable {Volume World : Type} {volumes : MountedVolume Volume World} {vfs : Vfs Volume}
  {table : MountTable Volume} {mounted : List (Path × Volume)}

/-- The VFS after its initialization with this bootstrap volume. -/
def bootedMachine (volumes : MountedVolume Volume World) (bootstrapRoot : Volume) :
    Machine (VfsState Volume World) (VfsEvent Volume) :=
  { vfsMachine volumes with
    initial := fun state => state.vfs = (Vfs.initializeVfs bootstrapRoot .fresh).2 }

/-- Mount paths are given without a trailing slash. -/
def plainMounts (_ : VfsState Volume World) (event : VfsEvent Volume) : Prop :=
  match event.call with
  | .mount (some mountPath) _ => PlainMount mountPath
  | _ => True

/-- What one event does to the list of mounts. -/
def mountedAfter (mounted : List (Path × Volume)) (event : VfsEvent Volume) :
    List (Path × Volume) :=
  match event.call with
  | .mount (some mountPath) (some volume) =>
    if 0 ≤ event.status then mounted ++ [(mountPath, volume)] else mounted
  | .mountRoot (some volume) =>
    if event.status = ok then (root, volume) :: mounted.tail else mounted
  | _ => mounted

/-- The mounts in effect: the bootstrap root, then each successful mount. -/
def mounts (bootstrapRoot : Volume) (log : List (VfsEvent Volume)) : List (Path × Volume) :=
  log.foldl mountedAfter [(root, bootstrapRoot)]

/-- The part of `Open` behind the choice of the volume and of the path it sees. -/
def Vfs.openLocal (vfs : Vfs Volume) (volumes : MountedVolume Volume World) (world : World)
    (slot : Int) (volume : Volume) (localPath : Path) (accessIntent : Int) : Outcome Volume World :=
  let (nodeHandle, world) := volumes.resolve volume localPath world
  if nodeHandle < 0 then vfs.refuse world nodeHandle none
  else
    let (token, world) := volumes.openFile volume nodeHandle accessIntent world
    if token < 0 then
      { vfs.refuse world token none with calls := [.opened volume token] }
    else vfs.bindToken volumes world slot volume nodeHandle accessIntent token

theorem Vfs.openFile_local {slot : Nat} (world : World)
    (known : accessIntent = readOnly ∨ accessIntent = readWrite)
    (initialized : vfs.initialized = true) (absolute : path.head? = some '/')
    (resolved : vfs.mounts.resolve path = slot) (isVolume : vfs.mounts.getVolume slot = some volume)
    (isPath : vfs.mounts.getPath slot = some mountPath)
    (cut : Vfs.localPath mountPath path = some rest) :
    vfs.openFile volumes world (some path) accessIntent =
      vfs.openLocal volumes world slot volume rest accessIntent := by
  have valid : ¬ (accessIntent ≠ readOnly ∧ accessIntent ≠ readWrite) :=
    fun neither => known.elim neither.1 neither.2
  have chosen : pathResolve vfs.mounts (some path) = slot := by
    simp only [pathResolve, absolute, ne_eq, not_true_eq_false, if_false]
    exact resolved
  have inTable : ¬ (slot : Int) < 0 := by omega
  simp only [openFile, if_neg valid, initialized, not_true_eq_false, if_false, chosen,
    if_neg inTable,
    isVolume, isPath, cut]
  rfl

namespace MountTable

theorem mount_cases (table : MountTable Volume) (path : Path) (volume : Volume) :
    (∃ code, table.mount (some path) (some volume) = (.negSucc code, table)) ∨
      ∃ room : table.count < maxMounts, path.head? = some '/' ∧
        (∀ i < table.count, table.getPath i ≠ some path) ∧ table.mount (some path) (some volume) =
          ((table.count : Int), { table.setSlot ⟨table.count, room⟩ path volume with
            count := table.count + 1
            bounded := room }) := by
  simp only [mount]
  split
  · exact .inl ⟨4, rfl⟩
  rename_i absolute
  split
  · rename_i room
    split
    · exact .inl ⟨6, rfl⟩
    · rename_i unused
      refine .inr ⟨room, by simpa using absolute, ?_, rfl⟩
      intro i inUse same
      apply unused
      rw [List.any_eq_true]
      exact ⟨i, List.mem_range.mpr inUse, by simpa using same⟩
  · exact .inl ⟨9, rfl⟩

/-- The entries below the new slot stay. -/
theorem Represents.mount (represents : Represents table mounted) (room : table.count < maxMounts)
    (absolute : path.head? = some '/') (plain : PlainMount path)
    (unused : ∀ i < table.count, table.getPath i ≠ some path) (volume : Volume) :
    Represents { table.setSlot ⟨table.count, room⟩ path volume with
      count := table.count + 1
      bounded := room } (mounted ++ [(path, volume)]) := by
  have count := represents.count
  obtain ⟨first, isFirst⟩ := represents.rooted
  have used : 0 < mounted.length := (List.getElem?_eq_some_iff.mp isFirst).1
  refine ⟨?_, ?_, ?_, ?_, ?_⟩
  · simp [count]
  · intro i entry isEntry
    rcases Nat.lt_trichotomy i mounted.length with before | same | behind
    · rw [List.getElem?_append_left before] at isEntry
      obtain ⟨isPath, isVolume⟩ := represents.entry i entry isEntry
      have inOld : 0 ≤ (i : Int) ∧ (i : Int) < table.count := by omega
      have inNew : 0 ≤ (i : Int) ∧ (i : Int) < (table.count + 1 : Nat) := by omega
      have other : i ≠ table.count := by omega
      constructor
      · rw [getPath, dif_pos inOld] at isPath
        rw [getPath, dif_pos inNew]
        simpa [setSlot, other] using isPath
      · rw [getVolume, dif_pos inOld] at isVolume
        rw [getVolume, dif_pos inNew]
        simpa [setSlot, other] using isVolume
    · subst same
      simp only [List.getElem?_concat_length] at isEntry
      cases isEntry
      have inNew : 0 ≤ (mounted.length : Int) ∧
        (mounted.length : Int) < (table.count + 1 : Nat) := by omega
      have notRoot : mounted ≠ [] := List.length_pos_iff.mp used
      constructor
      · simp [getPath, setSlot, inNew, count, notRoot]
      · simp [getVolume, setSlot, inNew, count]
    · rw [List.getElem?_eq_none (by simp; omega)] at isEntry
      contradiction
  · exact ⟨first, by rw [List.getElem?_append_left used]; exact isFirst⟩
  · intro mount member
    rcases List.mem_append.mp member with old | isNew
    · exact represents.absolute mount old
    · obtain rfl := List.mem_singleton.mp isNew
      exact ⟨absolute, plain⟩
  · rw [List.map_append, List.map_singleton, List.nodup_append_comm, List.singleton_append,
      List.nodup_cons]
    refine ⟨fun taken => ?_, represents.distinct⟩
    obtain ⟨mount, member, same⟩ := List.mem_map.mp taken
    obtain ⟨i, inside, rfl⟩ := List.getElem_of_mem member
    have isPath := (represents.entry i _ (List.getElem?_eq_getElem inside)).1
    exact unused i (by omega) (isPath.trans (congrArg some same))

theorem Represents.replaceRoot (represents : Represents table mounted) (volume : Volume) :
    Represents (table.replaceRoot (some volume)).2 ((root, volume) :: mounted.tail) := by
  obtain ⟨first, isFirst⟩ := represents.rooted
  cases mounted with
  | nil => simp at isFirst
  | cons head rest =>
    obtain rfl : head = (root, first) := by simpa using isFirst
    have count : table.count = rest.length + 1 := represents.count
    refine ⟨?_, ?_, ⟨volume, rfl⟩, ?_, represents.distinct⟩
    · simp [MountTable.replaceRoot, count]
    · intro i entry isEntry
      cases i with
      | zero =>
        obtain rfl : entry = (root, volume) := by simpa using isEntry.symm
        simp [MountTable.replaceRoot, getPath, getVolume, setSlot, count]
      | succ i =>
        obtain ⟨isPath, isVolume⟩ := represents.entry (i + 1) entry isEntry
        constructor
        · simpa [MountTable.replaceRoot, getPath, setSlot, count] using isPath
        · simpa [MountTable.replaceRoot, getVolume, setSlot, count] using isVolume
    · intro mount member
      rcases List.mem_cons.mp member with rfl | old
      · exact ⟨rfl, .inl rfl⟩
      · exact represents.absolute mount (List.mem_cons_of_mem _ old)

end MountTable

theorem represents_start (bootstrapRoot : Volume) :
    (Vfs.initializeVfs bootstrapRoot .fresh).2.initialized = true ∧
      (Vfs.initializeVfs bootstrapRoot .fresh).2.mounts.Represents [(root, bootstrapRoot)] := by
  refine ⟨rfl, rfl, ?_, ⟨bootstrapRoot, rfl⟩, ?_, List.nodup_singleton _⟩
  · intro i mount isMount
    cases i with
    | zero =>
      obtain rfl : mount = (root, bootstrapRoot) := by simpa using isMount.symm
      exact ⟨rfl, rfl⟩
    | succ i => simp at isMount
  · intro mount member
    obtain rfl := List.mem_singleton.mp member
    exact ⟨rfl, .inl rfl⟩

theorem Vfs.openFile_initialized (vfs : Vfs Volume) (world : World) (path : Option Path)
    (accessIntent : Int) :
    (vfs.openFile volumes world path accessIntent).vfs.initialized = vfs.initialized := by
  have bound : ∀ world slot volume nodeHandle token,
      (vfs.bindToken volumes world slot volume nodeHandle accessIntent token).vfs.initialized =
        vfs.initialized := by
    intro world slot volume nodeHandle token
    simp only [bindToken]
    repeat' split
    all_goals rfl
  simp only [openFile]
  repeat' split
  all_goals first
    | rfl
    | exact bound ..

theorem VfsState.perform_tables (state : VfsState Volume World)
    (other : (∀ path volume, call ≠ .mount path volume) ∧ ∀ volume, call ≠ .mountRoot volume) :
    (state.perform volumes call).vfs.initialized = state.vfs.initialized ∧
      (state.perform volumes call).vfs.mounts = state.vfs.mounts := by
  cases call with
  | openFile path accessIntent =>
    refine ⟨state.vfs.openFile_initialized state.world path accessIntent, ?_⟩
    rcases state.vfs.openFile_cases volumes state.world path accessIntent with
      failed | ⟨i, volume, entry, binds⟩
    · exact congrArg Vfs.mounts failed.vfs
    · exact binds.mounts
  | close fd =>
    simp only [perform]
    rcases state.vfs.close_cases volumes state.world fd with
      ⟨same, -⟩ | ⟨i, volume, rc, -, -, -, ⟨-, same, -⟩ | ⟨-, freed, -⟩⟩
    · simp [same]
    · simp [same]
    · simp [freed]
  | read fd buffer offset count =>
    simp [perform, (state.vfs.read_quiet volumes state.world fd buffer offset count).1]
  | write fd buffer offset count =>
    simp [perform, (state.vfs.write_quiet volumes state.world fd buffer offset count).1]
  | mount path volume => exact absurd rfl (other.1 path volume)
  | mountRoot volume => exact absurd rfl (other.2 volume)

theorem represents_step
    (initialized : state.vfs.initialized = true) (represents : state.vfs.mounts.Represents mounted)
    (plain : plainMounts state event) (taken : (vfsMachine volumes).step state event after) :
    after.vfs.initialized = true ∧ after.vfs.mounts.Represents (mountedAfter mounted event) := by
  obtain ⟨call, status, calls⟩ := event
  obtain ⟨isStatus, -, rfl⟩ := taken
  by_cases other : (∀ path volume, call ≠ .mount path volume) ∧ ∀ volume, call ≠ .mountRoot volume
  · have same : mountedAfter mounted ⟨call, status, calls⟩ = mounted := by
      cases call <;> simp_all [mountedAfter]
    rw [same, (state.perform_tables other).1, (state.perform_tables other).2]
    exact ⟨initialized, represents⟩
  cases call with
  | mount mountPath volume =>
    have opened : ¬ (¬ state.vfs.initialized = true) := not_not_intro initialized
    simp only [VfsState.perform, Vfs.mount, if_neg opened] at isStatus ⊢
    cases mountPath with
    | none => exact ⟨initialized, by cases volume <;> exact represents⟩
    | some path =>
      cases volume with
      | none => exact ⟨initialized, represents⟩
      | some volume =>
        rcases state.vfs.mounts.mount_cases path volume with
          ⟨code, refused⟩ | ⟨room, absolute, unused, accepted⟩
        · have negative : ¬ (0 : Int) ≤ .negSucc code := by omega
          simp only [refused, Vfs.refuse] at isStatus ⊢
          simp only [mountedAfter, isStatus, if_neg negative]
          exact ⟨initialized, represents⟩
        · have valid : (0 : Int) ≤ state.vfs.mounts.count := Int.natCast_nonneg _
          simp only [accepted, Vfs.refuse] at isStatus ⊢
          simp only [mountedAfter, isStatus, if_pos valid]
          exact ⟨initialized, represents.mount room absolute plain unused volume⟩
  | mountRoot volume =>
    have opened : ¬ (¬ state.vfs.initialized = true) := not_not_intro initialized
    simp only [VfsState.perform, Vfs.mountRoot, if_neg opened] at isStatus ⊢
    cases volume with
    | none => exact ⟨initialized, represents⟩
    | some volume =>
      have isOk : status = ok := isStatus
      simp only [mountedAfter, if_pos isOk]
      exact ⟨initialized, represents.replaceRoot volume⟩
  | _ => simp at other

/-- After any calls, with mount paths that have no trailing slash, `Open` passes an absolute
path to the volume at the longest mount path that leads to it. What it passes begins with a
slash, and mount path and local path together denote the path. -/
theorem open_uses_longest_mount (volumes : MountedVolume Volume World) (bootstrapRoot : Volume)
    {state : VfsState Volume World} {log : List (VfsEvent Volume)}
    (run : ((bootedMachine volumes bootstrapRoot).guarded plainMounts).Run log state)
    (path : Path) (absolute : path.head? = some '/') (accessIntent : Int)
    (known : accessIntent = FileAccessIntent.readOnly ∨ accessIntent = FileAccessIntent.readWrite) :
    ∃ (slot : Nat) (mountPath : Path) (volume : Volume) (localPath : Path),
      (mountPath, volume) ∈ mounts bootstrapRoot log ∧ Covers mountPath path ∧
      (∀ other ∈ mounts bootstrapRoot log, Covers other.1 path →
        other = (mountPath, volume) ∨ other.1.length < mountPath.length) ∧
      localPath.head? = some '/' ∧ components (mountPath ++ localPath) = components path ∧
      (mountPath ++ localPath = path ∨ path = mountPath ∧ localPath = root ∨ mountPath = root ∧
        localPath = path) ∧
      state.vfs.openFile volumes state.world (some path) accessIntent =
        state.vfs.openLocal volumes state.world slot volume localPath accessIntent := by
  have holds : state.vfs.initialized = true ∧
    state.vfs.mounts.Represents (mounts bootstrapRoot log) := by
    induction run with
    | start first =>
      rw [show _ = _ from first]
      exact represents_start bootstrapRoot
    | next earlier taken ih =>
      rw [mounts, List.foldl_append]
      exact represents_step ih.1 ih.2 taken.1 taken.2
  obtain ⟨initialized, represents⟩ := holds
  obtain ⟨slot, ⟨mountPath, volume⟩, isMount, resolved, covers, longest⟩ :=
    represents.resolve absolute
  have member := List.mem_of_getElem? isMount
  obtain ⟨startsAtRoot, plain⟩ := represents.absolute _ member
  have nonempty : mountPath ≠ [] := by
    rintro rfl
    simp at startsAtRoot
  obtain ⟨rest, cut, slash, same, remainder⟩ :=
    Vfs.localPath_of_covers absolute covers plain nonempty
  obtain ⟨isPath, isVolume⟩ := represents.entry slot _ isMount
  exact ⟨slot, mountPath, volume, rest, member, covers, longest, slash, same, remainder,
    Vfs.openFile_local state.world known initialized absolute resolved isVolume isPath cut⟩

def emptyVolumes : MountedVolume Nat Unit where
  resolve _ _ world := (notFound, world)
  openFile _ _ _ world := (notFound, world)
  stat _ _ world := (notFound, 0, world)
  read _ _ buffer _ _ world := (notFound, buffer, world)
  write _ _ _ _ _ world := (notFound, world)
  close _ _ world := (notFound, world)

/-- A volume at `/a` next to the root: `/a/b` goes to it. -/
theorem open_uses_longest_mount_below_a :
    ∃ state : VfsState Nat Unit, ((bootedMachine emptyVolumes 0).guarded plainMounts).Run
        [⟨.mount (some ['/', 'a']) (some 1), 1, []⟩] state ∧
      ∃ (slot : Nat) (mountPath : Path) (volume : Nat) (localPath : Path),
        (mountPath, volume) ∈ [(root, 0), (['/', 'a'], 1)] ∧ Covers mountPath ['/', 'a', '/', 'b'] ∧
        (∀ other ∈ [(root, 0), (['/', 'a'], 1)], Covers other.1 ['/', 'a', '/', 'b'] →
          other = (mountPath, volume) ∨ other.1.length < mountPath.length) ∧
            localPath.head? = some '/' ∧
        components (mountPath ++ localPath) = components ['/', 'a', '/', 'b'] ∧
        (mountPath ++ localPath = ['/', 'a', '/', 'b'] ∨ ['/', 'a', '/', 'b'] = mountPath ∧
          localPath = root ∨
          mountPath = root ∧ localPath = ['/', 'a', '/', 'b']) ∧
        state.vfs.openFile emptyVolumes state.world (some ['/', 'a', '/', 'b']) 0 =
          state.vfs.openLocal emptyVolumes state.world slot volume localPath 0 := by
  let booted : VfsState Nat Unit := { vfs := (Vfs.initializeVfs 0 .fresh).2, world := () }
  have start : ((bootedMachine emptyVolumes 0).guarded plainMounts).Run [] booted := .start rfl
  have plain : plainMounts booted ⟨.mount (some ['/', 'a']) (some 1), 1, []⟩ := .inr (by decide)
  have run := start.next ⟨plain, rfl, rfl, rfl⟩
  exact ⟨_, run, open_uses_longest_mount emptyVolumes 0 run ['/', 'a', '/', 'b'] rfl 0 (.inl rfl)⟩

end Zapada.Fs
