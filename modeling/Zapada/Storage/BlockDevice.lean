import Zapada.Foundation.Bytes
import Zapada.Storage.StorageStatus

namespace Zapada.Storage

open Foundation

structure Buffer where
  length : Nat
  bytes : Memory
  bounded : length < 2 ^ 31

def Buffer.set (buffer : Buffer) (index : Nat) (value : UInt8) : Buffer :=
  { buffer with bytes := Function.update buffer.bytes index value }

@[simp] theorem Buffer.bytes_set (buffer : Buffer) (index : Nat) (value : UInt8) :
    (buffer.set index value).bytes = Function.update buffer.bytes index value := rfl

/-- A read of `sectorCount` sectors returns a status and the bytes it put in the buffer. -/
structure BlockDevice where
  readSectors : (lba sectorCount : Int) → Int × Memory

/-- The device answers every request inside the disk with the disk's bytes. -/
def BlockDevice.Serves (device : BlockDevice) (disk : Memory) (sectors : Int) : Prop :=
  ∀ lba sectorCount : Int, 0 ≤ lba → 0 < sectorCount → lba + sectorCount ≤ sectors →
    device.readSectors lba sectorCount = (sectorCount, fun i => disk (512 * lba.toNat + i))

structure PartitionView where
  device : Option BlockDevice
  startLba : Int
  sectorCount : Int

namespace PartitionView

def readSectors (view : PartitionView) (lba sectorCount : Int) : Int × Memory :=
  match view.device with
  | none => (StorageStatus.invalidArgument, fun _ => 0)
  | some device =>
    if sectorCount ≤ 0 then (StorageStatus.invalidArgument, fun _ => 0)
    else if lba < 0 ∨ view.sectorCount < int64 (lba + sectorCount) then
      (StorageStatus.invalidArgument, fun _ => 0)
    else device.readSectors (int64 (view.startLba + lba)) sectorCount

/-- A partition on a healthy device holds an image. -/
structure Holds (view : PartitionView) (image : Memory) : Prop where
  served : ∃ device disk sectors, view.device = some device ∧ device.Serves disk sectors ∧
    view.startLba + view.sectorCount ≤ sectors ∧
    image = fun i => disk (512 * view.startLba.toNat + i)
  start : 0 ≤ view.startLba
  small : view.startLba + view.sectorCount < 2 ^ 63

theorem Holds.ofImage (image : Memory) (sectors : Nat) (small : (sectors : Int) < 2 ^ 63) :
    Holds ⟨some ⟨fun lba sectorCount => (sectorCount, fun i => image (512 * lba.toNat + i))⟩, 0,
      sectors⟩ image :=
  ⟨⟨_, image, sectors, rfl, fun _ _ _ _ _ => rfl, by simp, by simp⟩, Int.le_refl 0,
    by simpa using small⟩

theorem Holds.readSectors {view : PartitionView} (holds : view.Holds image) {lba sectorCount : Int}
    (low : 0 ≤ lba) (positive : 0 < sectorCount) (inside : lba + sectorCount ≤ view.sectorCount) :
    view.readSectors lba sectorCount = (sectorCount, fun i => image (512 * lba.toNat + i)) := by
  obtain ⟨device, disk, sectors, isDevice, serves, fits, rfl⟩ := holds.served
  have start := holds.start
  have small := holds.small
  simp only [PartitionView.readSectors, isDevice]
  rw [if_neg (by omega), int64_of_range (by omega) (by omega), int64_of_range (by omega) (by omega),
    if_neg (by omega), serves _ _ (by omega) positive (by omega)]
  congr 1
  funext i
  congr 1
  omega

end PartitionView

end Zapada.Storage
