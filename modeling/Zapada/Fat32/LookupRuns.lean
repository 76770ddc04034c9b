import Zapada.Fat32.Lookups
import Zapada.Foundation.Machine

namespace Zapada.Fat32

open Foundation Storage Fat32Mount

inductive LookupCall where
  | resolve (path : Option Name)
  | openFile (nodeHandle accessIntent : Int)
  | close (fileToken : Int)
  | listDirectory (nodeHandle : Int)

/-- A handle, token or status, and what the directory sink was told. -/
abbrev LookupReply := Int × List Reported

def Fat32Mount.call (mount : Fat32Mount) : LookupCall → LookupReply × Fat32Mount
  | .resolve path =>
    let (status, mount) := mount.resolve path
    ((status, []), mount)
  | .openFile nodeHandle accessIntent =>
    let (status, volume) := mount.volume.openFile nodeHandle accessIntent
    ((status, []), { mount with volume })
  | .close fileToken =>
    let (status, volume) := mount.volume.close fileToken
    ((status, []), { mount with volume })
  | .listDirectory nodeHandle =>
    let (status, listing) := mount.listDirectory nodeHandle
    ((status, listing.reported), listing.mount)

/-- A volume mounted from a partition, and the lookups on it. -/
def lookupMachine (view : PartitionView) : Machine Fat32Mount (LookupCall × LookupReply) where
  initial mount := mountVolume (some view) = .ok mount
  step before label after := before.call label.1 = (label.2, after)

structure Grown (before after : Fat32Mount) : Prop where
  disk : SameDisk before.volume after.volume
  retains : before.slots.Retains after.slots

theorem Grown.refl (mount : Fat32Mount) : Grown mount mount :=
  ⟨SameDisk.refl _, Slots.Retains.refl _⟩

theorem Grown.trans (first : Grown before middle) (second : Grown middle after) :
    Grown before after :=
  ⟨first.disk.trans second.disk, first.retains.trans second.retains⟩

theorem Grown.rooted (grown : Grown before after) (rooted : before.Rooted) : after.Rooted :=
  rooted.keep grown.disk grown.retains

/-- What lookups do to a volume and to what its node table holds. -/
structure Tended (before after : Fat32Mount) : Prop extends Grown before after where
  distinct : before.slots.Distinct id → after.slots.Distinct id

theorem Tended.refl (mount : Fat32Mount) : Tended mount mount := ⟨Grown.refl _, id⟩

theorem Tended.trans (first : Tended before middle) (second : Tended middle after) :
    Tended before after :=
  ⟨first.toGrown.trans second.toGrown, second.distinct ∘ first.distinct⟩

namespace Fat32Mount

variable {mount : Fat32Mount}

theorem cacheNode_tended (rooted : mount.Rooted) (entry : NodeEntry) :
    Tended mount (mount.cacheNode entry).2 := by
  rcases cacheNode_eq rooted entry with ⟨-, result⟩ | ⟨i, cached, interned, result, disk⟩
  · rw [result]
    exact Tended.refl _
  · rw [result]
    exact ⟨⟨disk, Slots.intern_retains id interned⟩, (·.intern id interned)⟩

theorem resolve_tended (rooted : mount.Rooted) (path : Option Name) :
    Tended mount (mount.resolve path).2 := by
  cases path with
  | none => exact Tended.refl _
  | some path =>
    obtain ⟨final, resolved, slots, disk⟩ :=
      resolveFrom_eq mount.volume (Fs.components path) rooted 0
      mount.volume.rootCluster
    rw [resolve, resolved]
    refine ⟨⟨disk, ?_⟩, fun distinct => ?_⟩
    · rw [slots]
      exact Slots.internEach_retains id _ _
    · rw [slots]
      exact distinct.internEach id _

theorem listDirectory_keeps (kept : Fat32Mount → Prop)
    (caches : ∀ mount entry, kept mount → kept (mount.cacheNode entry).2) (nodeHandle : Int)
    (start : kept mount) : kept (mount.listDirectory nodeHandle).2.mount := by
  unfold listDirectory
  split
  · exact start
  split
  · exact start
  rename_i node valid isDirectory
  have yields : DirectoryWalk.Yields (fun listing => kept listing.mount)
      (fun result => kept result.2.mount) (listWalk.overChain mount.volume maxClusterChain
        (mount.volume.nodes node).firstCluster ⟨mount, []⟩) := by
    refine DirectoryWalk.overChain_yields ?_ ?_ _ _ _ start
    swap
    · exact fun listing here => here
    intro listing secBuf entOff here
    have cached := caches listing.mount (scanEntry secBuf entOff) here
    simp only [listWalk]
    split
    · exact here
    split
    · exact here
    split
    · exact here
    split
    · exact here
    split
    · exact here
    split
    · exact cached
    · exact cached
  dsimp only
  generalize listWalk.overChain mount.volume maxClusterChain
    (mount.volume.nodes node).firstCluster ⟨mount, []⟩ = walked at yields ⊢
  cases walked <;> exact yields

theorem listDirectory_tended (rooted : mount.Rooted) (nodeHandle : Int) :
    Tended mount (mount.listDirectory nodeHandle).2.mount :=
  listDirectory_keeps (Tended mount)
    (fun _ entry tended => tended.trans (cacheNode_tended (tended.rooted rooted) entry)) nodeHandle
    (Tended.refl mount)

theorem call_tended (rooted : mount.Rooted) (call : LookupCall) :
    Tended mount (mount.call call).2 := by
  cases call with
  | resolve path => exact resolve_tended rooted path
  | listDirectory nodeHandle => exact listDirectory_tended rooted nodeHandle
  | close fileToken =>
    simp only [call, Fat32Volume.close]
    split
    · exact ⟨⟨⟨_, _, rfl⟩, Slots.Retains.refl _⟩, id⟩
    · exact Tended.refl _
  | openFile nodeHandle accessIntent =>
    simp only [call, Fat32Volume.openFile]
    split
    · exact Tended.refl _
    split
    · exact Tended.refl _
    split
    · exact Tended.refl _
    split
    · exact Tended.refl _
    · exact ⟨⟨⟨_, _, rfl⟩, Slots.Retains.refl _⟩, id⟩

end Fat32Mount

/-- A volume that was mounted from the image and had lookups since. -/
structure Standing (image : Memory) (mount : Fat32Mount) : Prop where
  mounted : MountedAt mount.volume image
  rooted : mount.Rooted

theorem standing_mountVolume (holds : view.Holds image)
    (mounts : mountVolume (some view) = .ok mount) : Standing image mount ∧
      mount.volume.partition = view := by
  unfold mountVolume at mounts
  cases opened : initializeVolume (some view) with
  | error status =>
    rw [opened] at mounts
    cases mounts
  | ok volume =>
    rw [opened] at mounts
    cases mounts
    obtain ⟨mounted, partition, -, dataStart⟩ := mounted_initializeVolume holds opened
    refine ⟨⟨⟨mounted, dataStart⟩, ⟨['/'], ?_⟩⟩, partition⟩
    have root := nodes_initializeVolume opened rootNode
    simp only [slots, root]
    rfl

theorem Standing.grown (standing : Standing image before) (grown : Grown before after) :
    Standing image after :=
  ⟨grown.disk.mountedAt standing.mounted, grown.rooted standing.rooted⟩

theorem standing_run (holds : view.Holds image)
    (run : (lookupMachine view).Run log mount) : Standing image mount ∧
      mount.volume.partition = view := by
  have rule : (lookupMachine view).Inductive fun mount =>
      Standing image mount ∧ mount.volume.partition = view := by
    refine ⟨fun mount mounts => standing_mountVolume holds mounts, ?_⟩
    rintro before label after ⟨standing, partition⟩ taken
    have tended := call_tended standing.rooted label.1
    rw [show before.call label.1 = (label.2, after) from taken] at tended
    refine ⟨standing.grown tended.toGrown, ?_⟩
    obtain ⟨nodes, tokens, disk⟩ := tended.disk
    rw [disk]
    exact partition
  exact rule.reached run

end Zapada.Fat32
