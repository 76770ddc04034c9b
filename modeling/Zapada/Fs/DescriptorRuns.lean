import Zapada.Fs.Descriptors

namespace Zapada.Fs

open Foundation Storage Vfs VfsState

variable {Volume World : Type} {volumes : MountedVolume Volume World} {vfs : Vfs Volume}
  {log : List (VfsEvent Volume)}

def Bound (log : List (VfsEvent Volume)) (vfs : Vfs Volume) : Prop :=
  ∀ i : Fin maxFds, EntryBound vfs.mounts (vfs.fds i) (binding log i)

theorem Bound.of_isOpen (bound : Bound log vfs) (isOpen : (vfs.fds i).isOpen) :
    ∃ volume, vfs.mounts.getVolume (vfs.fds i).mountSlot = some volume ∧
      binding log i = some (volume, (vfs.fds i).volumeToken) := by
  have entry := bound i
  rwa [EntryBound, if_pos isOpen] at entry

theorem outstanding_append (volume : Volume) (token : Int) (calls more : List (VolumeCall Volume)) :
    Outstanding volume token (calls ++ more) =
      more.foldl (outstandingAfter volume token) (Outstanding volume token calls) := by
  rw [Outstanding, List.foldl_append]
  rfl

theorem volumeCalls_append (log : List (VfsEvent Volume)) (event : VfsEvent Volume) :
    volumeCalls (log ++ [event]) = volumeCalls log ++ event.calls := by
  simp [volumeCalls]

theorem Allocates.earlier {volume : Volume} (allocates : Allocates volume (calls ++ more)) :
    Allocates volume calls := by
  intro earlier token later same
  exact allocates earlier token (later ++ more) (by rw [same]; simp)

/-- Runs whose steps do not replace a root in use. -/
def steadyMachine (volumes : MountedVolume Volume World) :
    Machine (VfsState Volume World) (VfsEvent Volume) :=
  (vfsMachine volumes).guarded fun before event => rootUnused before event.call

/-- What a call does to the descriptors, in the tables and in the log. -/
inductive Effect (vfs : Vfs Volume) (outcome : Outcome Volume World)
    (event : VfsEvent Volume) : Prop where
  | quiet (fds : outcome.vfs.fds = vfs.fds)
      (mounts : ∀ i volume, (vfs.fds i).isOpen → vfs.mounts.getVolume (vfs.fds i).mountSlot =
        some volume →
        outcome.vfs.mounts.getVolume (vfs.fds i).mountSlot = some volume)
      (silent : ∀ (i : Fin maxFds) bound, bindingAfter i bound event = bound)
      (kept : ∀ volume token calls, Allocates volume (calls ++ outcome.calls) →
        Outstanding volume token calls →
        outcome.calls.foldl (outstandingAfter volume token) (Outstanding volume token calls))
  | binds (i : Fin maxFds) (volume : Volume) (entry : Descriptor) (opened : OpenBinds vfs outcome i volume entry)
      (bound : ∀ (j : Fin maxFds) bound, bindingAfter j bound event =
        if j = i then some (volume, entry.volumeToken) else bound)
  | frees (i : Fin maxFds) (volume : Volume) (rc : Int) (isOpen : (vfs.fds i).isOpen)
      (mounted : vfs.mounts.getVolume (vfs.fds i).mountSlot = some volume)
      (freed : outcome.vfs = { vfs with fds := vfs.fds.free i })
      (calls : outcome.calls = [.closed volume (vfs.fds i).volumeToken rc])
      (bound : ∀ (j : Fin maxFds) bound, bindingAfter j bound event = if j = i then none else bound)

namespace Effect

variable {outcome : Outcome Volume World} {event : VfsEvent Volume}

/-- A call that leaves the tables alone and binds nothing. -/
theorem unchanged (same : outcome.vfs = vfs)
    (silent : ∀ (i : Fin maxFds) bound, bindingAfter i bound event = bound)
    (kept : ∀ volume token calls, Allocates volume (calls ++ outcome.calls) →
      Outstanding volume token calls →
      outcome.calls.foldl (outstandingAfter volume token) (Outstanding volume token calls)) :
    Effect vfs outcome event :=
  .quiet (by rw [same]) (fun _ _ _ mounted => by rwa [same]) silent kept

theorem openFile (vfs : Vfs Volume) (world : World) (path : Option Path) (accessIntent : Int) :
    Effect vfs (vfs.openFile volumes world path accessIntent) ⟨.openFile path accessIntent,
      (vfs.openFile volumes world path accessIntent).status,
      (vfs.openFile volumes world path accessIntent).calls⟩ := by
  rcases vfs.openFile_cases volumes world path accessIntent with failed | ⟨i, volume, entry, opened⟩
  · refine .unchanged failed.vfs (fun i bound => ?_) fun volume token calls allocates held => ?_
    · have negative := failed.status
      simp only [bindingAfter]
      rw [if_neg (by omega)]
    · rcases failed.calls with none_made | ⟨other, opened, ⟨made, -⟩ | ⟨status, made⟩⟩
      · rw [none_made]
        exact held
      · rw [made]
        exact .inl held
      · -- the token that was closed again is not one in use
        rw [made] at allocates
        rw [made]
        refine ⟨.inl held, ?_⟩
        rintro ⟨rfl, rfl, -⟩
        exact allocates _ _ _ rfl held
  · refine .binds i volume entry opened fun j bound => ?_
    simp only [bindingAfter, opened.status, opened.calls]
    exact if_congr (by omega) rfl rfl

theorem close (vfs : Vfs Volume) (world : World) (fd : Int) :
    Effect vfs (vfs.close volumes world fd)
    ⟨.close fd, (vfs.close volumes world fd).status, (vfs.close volumes world fd).calls⟩ := by
  rcases vfs.close_cases volumes world fd with
    ⟨same, failed, none_made⟩ | ⟨i, volume, rc, found, mounted, made, result⟩
  · refine .unchanged same (fun i bound => ?_) fun volume token calls _ held => ?_
    · simp only [bindingAfter]
      rw [if_neg fun both => failed both.2]
    · rw [none_made]
      exact held
  rcases result with ⟨negative, same, status⟩ | ⟨-, freed, status⟩
  · refine .unchanged same (fun i bound => ?_) fun volume token calls _ held => ?_
    · simp only [bindingAfter, status, StorageStatus.ok]
      rw [if_neg (by omega)]
    · rw [made]
      exact ⟨held, fun same => by omega⟩
  · obtain ⟨rfl, isOpen⟩ := FdTable.opened_eq_some found
    refine .frees i volume rc isOpen mounted freed made fun j bound => ?_
    simp only [bindingAfter, status, and_true]
    exact if_congr (by omega) rfl rfl

/-- Every call that does not replace a root in use has one of the three effects. -/
theorem of_step (taken : (steadyMachine volumes).step before event after) :
    Effect before.vfs (before.perform volumes event.call) event := by
  obtain ⟨call, status, calls⟩ := event
  simp only [steadyMachine, Machine.guarded, vfsMachine] at taken
  obtain ⟨unused, rfl, rfl, -⟩ := taken
  cases call with
  | openFile path accessIntent => exact openFile before.vfs before.world path accessIntent
  | close fd => exact close before.vfs before.world fd
  | read fd buffer offset count =>
    obtain ⟨same, untouched⟩ := read_quiet volumes before.vfs before.world fd buffer offset count
    exact .unchanged same (fun _ _ => rfl) fun volume token calls _ held =>
      (untouched volume token _).mpr held
  | write fd buffer offset count =>
    obtain ⟨same, untouched⟩ := write_quiet volumes before.vfs before.world fd buffer offset count
    exact .unchanged same (fun _ _ => rfl) fun volume token calls _ held =>
      (untouched volume token _).mpr held
  | mount mountPath added =>
    simp only [perform, mount]
    split
    · exact .unchanged rfl (fun _ _ => rfl) fun _ _ _ _ held => held
    · exact .quiet rfl (fun i volume _ mounted => MountTable.getVolume_mount mountPath
        added mounted)
        (fun _ _ => rfl) fun _ _ _ _ held => held
  | mountRoot root =>
    simp only [perform, mountRoot]
    split
    · exact .unchanged rfl (fun _ _ => rfl) fun _ _ _ _ held => held
    · refine .quiet rfl (fun i volume isOpen mounted => ?_) (fun _ _ => rfl) fun _ _ _ _ held =>
        held
      refine MountTable.getVolume_replaceRoot root mounted fun first given => ?_
      obtain ⟨root, rfl⟩ := Option.isSome_iff_exists.mp given
      rw [← unused i isOpen first, ← mounted, first]

end Effect

variable {outcome : Outcome Volume World} {event : VfsEvent Volume}

theorem Bound.initially (bootstrapRoot : Volume) :
    Bound [] (initializeVfs bootstrapRoot .fresh).2 := by
  intro i
  rfl

theorem Bound.step (bound : Bound log vfs) (effect : Effect vfs outcome event) :
    Bound (log ++ [event]) outcome.vfs := by
  intro i
  have entry := bound i
  rw [binding_append]
  cases effect with
  | quiet fds mounts silent =>
    rw [silent, fds]
    simp only [EntryBound] at entry ⊢
    split
    · rename_i isOpen
      rw [if_pos isOpen] at entry
      obtain ⟨volume, mounted, same⟩ := entry
      exact ⟨volume, mounts i volume isOpen mounted, same⟩
    · rename_i closed
      rwa [if_neg closed] at entry
  | binds j volume given opened after =>
    rw [after, opened.fds, opened.mounts]
    beta_reduce
    split
    · simp only [EntryBound, opened.isOpen, if_true]
      exact ⟨volume, opened.mounted, rfl⟩
    · exact entry
  | frees j volume rc _ _ freed _ after =>
    rw [after, freed]
    simp only [FdTable.free]
    split
    · simp [EntryBound]
    · exact entry

/-- The descriptors on a volume hold different tokens, all still outstanding. -/
structure Separate (volume : Volume) (log : List (VfsEvent Volume)) : Prop where
  held : ∀ (i : Fin maxFds) (token : Int), binding log i = some (volume, token) →
    Outstanding volume token (volumeCalls log)
  distinct : ∀ (i j : Fin maxFds) (token : Int), binding log i = some (volume, token) →
    binding log j = some (volume, token) → i = j

namespace Separate

variable {volume : Volume}

theorem initially : Separate volume [] := by
  constructor <;> intros <;> contradiction

theorem step (separate : Separate volume log) (bound : Bound log vfs)
    (effect : Effect vfs outcome event) (made : event.calls = outcome.calls)
    (allocates : Allocates volume (volumeCalls log ++ outcome.calls)) :
    Separate volume (log ++ [event]) := by
  cases effect with
  | quiet _ _ silent kept =>
    refine ⟨fun i token bound => ?_, fun i j token one two => ?_⟩
    · rw [binding_append, silent] at bound
      rw [volumeCalls_append, outstanding_append, made]
      exact kept volume token _ allocates (separate.held i token bound)
    · rw [binding_append, silent] at one two
      exact separate.distinct i j token one two
  | binds i given entry opened after =>
    rw [opened.calls] at allocates made
    have fresh : ∀ j : Fin maxFds, given = volume →
      binding log j ≠ some (volume, entry.volumeToken) := by
      rintro j rfl bound
      exact allocates _ _ _ rfl (separate.held j _ bound)
    refine ⟨fun j token bound => ?_, fun j k token one two => ?_⟩
    · rw [binding_append, after] at bound
      rw [volumeCalls_append, outstanding_append, made]
      split at bound
      · cases bound
        exact .inr ⟨rfl, rfl, opened.token⟩
      · exact .inl (separate.held j token bound)
    · rw [binding_append, after] at one two
      split at one <;> split at two
      · rw [‹j = i›, ‹k = i›]
      · cases one
        exact absurd two (fresh k rfl)
      · cases two
        exact absurd one (fresh j rfl)
      · exact separate.distinct j k token one two
  | frees i closed rc isOpen mounted _ calls after =>
    obtain ⟨owner, owned, here⟩ := bound.of_isOpen isOpen
    obtain rfl : closed = owner := Option.some.inj (mounted.symm.trans owned)
    refine ⟨fun j token bound => ?_, fun j k token one two => ?_⟩
    · rw [binding_append, after] at bound
      rw [volumeCalls_append, outstanding_append, made, calls]
      split at bound
      · contradiction
      · rename_i different
        refine ⟨separate.held j token bound, ?_⟩
        rintro ⟨rfl, rfl, -⟩
        exact different (separate.distinct j i _ bound here)
    · rw [binding_append, after] at one two
      split at one <;> split at two
      case isFalse.isFalse => exact separate.distinct j k token one two
      all_goals contradiction

end Separate

theorem bound_of_run (run : (steadyMachine volumes).Run log state) : Bound log state.vfs := by
  induction run with
  | start first =>
    obtain ⟨bootstrapRoot, same⟩ := first
    rw [same]
    exact Bound.initially bootstrapRoot
  | next earlier taken ih =>
    rw [taken.2.2.2]
    exact ih.step (.of_step taken)

theorem separate_of_run (run : (steadyMachine volumes).Run log state)
    (allocates : Allocates volume (volumeCalls log)) : Separate volume log := by
  induction run with
  | start first => exact Separate.initially
  | next earlier taken ih =>
    rw [volumeCalls_append, taken.2.2.1] at allocates
    exact (ih allocates.earlier).step (bound_of_run earlier) (.of_step taken) taken.2.2.1 allocates

def VolumeCall.target : VolumeCall Volume → Volume × Int
  | .opened volume token => (volume, token)
  | .read volume token => (volume, token)
  | .wrote volume token => (volume, token)
  | .closed volume token _ => (volume, token)

/-- Closing, reading and writing a descriptor are calls on one volume and token. -/
structure ActsOn (volumes : MountedVolume Volume World) (state : VfsState Volume World)
    (i : Fin maxFds) (volume : Volume) (token : Int) : Prop where
  close : (state.perform volumes (.close i)).calls =
      [.closed volume token (volumes.close volume token state.world).1] ∧
    (state.perform volumes (.close i)).world = (volumes.close volume token state.world).2
  read : ∀ (buffer : Buffer) (offset count : Int), 0 ≤ offset → 0 < count →
    int32 (offset + count) ≤ buffer.length →
    state.perform volumes (.read i (some buffer) offset count) =
      let (status, bytes, world) := volumes.read volume token buffer offset count state.world
      ⟨status, some bytes, state.vfs, world, [.read volume token]⟩
  write : (state.vfs.fds i).accessIntent = FileAccessIntent.readWrite →
    ∀ (buffer : Buffer) (offset count : Int), 0 ≤ offset → 0 < count →
    int32 (offset + count) ≤ buffer.length →
    state.perform volumes (.write i (some buffer) offset count) =
      let (status, world) := volumes.write volume token buffer offset count state.world
      ⟨status, some buffer, state.vfs, world, [.wrote volume token]⟩
  only :
      ∀ buffer offset count, (∀ made ∈ (state.perform volumes (.read i buffer offset count)).calls,
      made.target = (volume, token)) ∧
    ∀ made ∈ (state.perform volumes (.write i buffer offset count)).calls,
      made.target = (volume, token)

theorem FdTable.opened_of_isOpen {table : FdTable} (isOpen : (table i).isOpen) :
    table.opened i = some i := by
  have inTable : 0 ≤ (i.val : Int) ∧ (i.val : Int) < maxFds := by omega
  simp [opened, inTable, isOpen]

theorem ActsOn.of_mounted {state : VfsState Volume World}
    (isOpen : (state.vfs.fds i).isOpen)
    (mounted : state.vfs.mounts.getVolume (state.vfs.fds i).mountSlot = some volume) :
    ActsOn volumes state i volume (state.vfs.fds i).volumeToken := by
  have found := FdTable.opened_of_isOpen isOpen
  refine ⟨?_, fun buffer offset count low some_bytes inBuffer => ?_,
    fun readWrite buffer offset count low some_bytes inBuffer =>
      ?_, fun buffer offset count => ⟨?_, ?_⟩⟩
  · simp only [perform, Vfs.close, found, mounted]
    split <;> exact ⟨rfl, rfl⟩
  · have valid : ¬ (offset < 0 ∨ count ≤ 0 ∨ (buffer.length : Int) < int32 (offset + count)) := by
      omega
    simp only [perform, Vfs.read, found, mounted, if_neg valid]
    rfl
  · have valid : ¬ (offset < 0 ∨ count < 0 ∨ (buffer.length : Int) < int32 (offset + count)) := by
      omega
    have nonzero : count ≠ 0 := by omega
    have permitted : ¬ (state.vfs.fds i).accessIntent ≠ FileAccessIntent.readWrite := by
      rw [readWrite, ne_eq, not_not]
    simp only [perform, Vfs.write, found, mounted, if_neg permitted, if_neg valid, if_neg nonzero]
    rfl
  · intro made member
    cases buffer with
    | none => simp [perform, Vfs.read, found, Vfs.refuse] at member
    | some buffer =>
      simp only [perform, Vfs.read, found, mounted] at member
      split at member
      · simp [Vfs.refuse] at member
      · simp only [List.mem_singleton] at member
        rw [member]
        rfl
  · simp only [perform, Vfs.write, found, mounted]
    intro made member
    repeat
      split at member
      · simp [Vfs.refuse] at member
    simp only [List.mem_singleton] at member
    rw [member]
    rfl

/-- In every run that does not replace a root in use, the calls on an open descriptor
act on the volume and the token that its open obtained, and the descriptors on a volume
that allocates tokens hold different ones. -/
theorem descriptors_stay_bound (run : (steadyMachine volumes).Run log state) :
    (∀ i : Fin maxFds, (state.vfs.fds i).isOpen → ∃ volume token,
      binding log i = some (volume, token) ∧ ActsOn volumes state i volume token) ∧
    ∀ (volume : Volume), Allocates volume (volumeCalls log) →
      ∀ (i j : Fin maxFds) (token : Int), binding log i = some (volume, token) →
        binding log j = some (volume, token) → i = j := by
  refine ⟨fun i isOpen => ?_, fun volume allocates => (separate_of_run run allocates).distinct⟩
  obtain ⟨volume, mounted, bound⟩ := (bound_of_run run).of_isOpen isOpen
  exact ⟨volume, _, bound, .of_mounted isOpen mounted⟩

/-- Volumes 0 and 1, each of whose opens gives out a token of its own. -/
def countingVolumes : MountedVolume Nat Int where
  resolve _ _ world := (1, world)
  openFile _ _ _ world := (world, world + 1)
  stat _ _ world := (0, 100, world)
  read _ _ buffer _ count world := (count, buffer, world)
  write _ _ _ _ count world := (count, world)
  close _ _ world := (0, world)

def VfsState.eventOf (state : VfsState Nat Int) (call : VfsCall Nat) : VfsEvent Nat :=
  ⟨call, (state.perform countingVolumes call).status, (state.perform countingVolumes call).calls⟩

def VfsState.after (state : VfsState Nat Int) (call : VfsCall Nat) : VfsState Nat Int :=
  ⟨(state.perform countingVolumes call).vfs, (state.perform countingVolumes call).world⟩

def booted : VfsState Nat Int := ⟨(Vfs.initializeVfs 0 .fresh).2, 0⟩

def openRootFile : VfsCall Nat := .openFile (some ['/', 'a']) FileAccessIntent.readOnly
def mountOther : VfsCall Nat := .mount (some ['/', 'x']) (some 1)
def openOtherFile : VfsCall Nat := .openFile (some ['/', 'x', '/', 'b']) FileAccessIntent.readOnly
def replaceRoot : VfsCall Nat := .mountRoot (some 1)

def firstFd : Fin maxFds := ⟨0, by decide⟩
def secondFd : Fin maxFds := ⟨1, by decide⟩

def rootOpened : VfsState Nat Int := booted.after openRootFile
def otherMounted : VfsState Nat Int := rootOpened.after mountOther
def otherOpened : VfsState Nat Int := otherMounted.after openOtherFile

def openedLog : List (VfsEvent Nat) :=
  [booted.eventOf openRootFile, rootOpened.eventOf mountOther, otherMounted.eventOf openOtherFile]

/-- Two files on two volumes: the second descriptor closes the second volume's token. -/
theorem descriptors_stay_bound_two_volumes : binding openedLog secondFd = some (1, 1) ∧
      (otherOpened.perform countingVolumes (.close secondFd)).calls = [.closed 1 1 0] := by
  have start : (steadyMachine countingVolumes).Run [] booted := .start ⟨0, rfl⟩
  have run : (steadyMachine countingVolumes).Run openedLog otherOpened :=
    ((start.next ⟨by trivial, rfl, rfl, rfl⟩).next ⟨by trivial, rfl, rfl, rfl⟩).next
      ⟨by trivial, rfl, rfl, rfl⟩
  have isOpen : (otherOpened.vfs.fds secondFd).isOpen := by decide
  have bound : binding openedLog secondFd = some (1, 1) := by decide
  obtain ⟨volume, token, same, acts⟩ := (descriptors_stay_bound run).1 secondFd isOpen
  obtain ⟨rfl, rfl⟩ := Prod.mk.inj (Option.some.inj (same.symm.trans bound))
  exact ⟨bound, acts.close.1⟩

/-- After the root is replaced under an open file, its descriptor acts on the new
volume with the old volume's token. -/
theorem descriptor_follows_the_root :
    ∃ log state, (vfsMachine countingVolumes).Run log state ∧ (state.vfs.fds firstFd).isOpen ∧
      binding log firstFd = some (0, 0) ∧
      (state.perform countingVolumes (.close firstFd)).calls = [.closed 1 0 0] := by
  have start : (vfsMachine countingVolumes).Run [] booted := .start ⟨0, rfl⟩
  have run : (vfsMachine countingVolumes).Run
      [booted.eventOf openRootFile, rootOpened.eventOf replaceRoot]
        (rootOpened.after replaceRoot) :=
    (start.next ⟨rfl, rfl, rfl⟩).next ⟨rfl, rfl, rfl⟩
  exact ⟨_, _, run, by decide, by decide, rfl⟩

end Zapada.Fs
