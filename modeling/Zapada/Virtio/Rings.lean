import Zapada.Virtio.Stores

namespace Zapada.Virtio

open Foundation Storage Hal VirtioConstants Function BitVec

namespace VirtioState

/-- The last used index that the driver has seen, as the rings count. -/
def acked (state : VirtioState) : BitVec 16 := state.lastUsedIndex.setWidth 16

def availIndex (state : VirtioState) : BitVec 16 := BitVec.ofNat 16 (state.loadWord .available 2 2)

/-- The device has nothing to take and nothing to finish. -/
def Quiet (state : VirtioState) : Prop :=
  state.device.pending = [] ∧ state.device.lastAvail = state.availIndex

/-- Everything published was used and seen. -/
structure InStep (state : VirtioState) : Prop where
  quiet : state.Quiet
  avail : state.availIndex = state.acked
  used : state.device.usedIndex = state.acked

/-- The last request was used, which the driver has not seen. -/
structure Behind (state : VirtioState) : Prop where
  quiet : state.Quiet
  avail : state.availIndex = state.acked + 1
  used : state.device.usedIndex = state.acked + 1

/-- The last request is published and was not taken. -/
structure Untaken (state : VirtioState) : Prop where
  pending : state.device.pending = []
  taken : state.device.lastAvail = state.acked
  avail : state.availIndex = state.acked + 1
  used : state.device.usedIndex = state.acked

structure Taken (state : VirtioState) (request : Request) : Prop where
  pending : state.device.pending = [request]
  taken : state.device.lastAvail = state.availIndex
  avail : state.availIndex = state.acked + 1
  used : state.device.usedIndex = state.acked

/-- All that can be left when `Transfer` has returned. -/
def Rest (state : VirtioState) : Prop :=
  state.InStep ∨ state.Behind ∨ state.Untaken ∨ ∃ request, state.Taken request

end VirtioState

/-- The device never writes to the available ring, and to the used ring only when it
returns a request. -/
def Request.Harmless (request : Request) : Prop :=
  ∀ name, request.data = some name ∨ request.status = some name → name ≠ .available ∧ name ≠ .used

/-- The rings as driver and device find them. -/
structure Rings (state : VirtioState) : Prop where
  sizes : ∀ name, name ≠ .data → (state.shared name).size = 4096
  dataSize : (state.shared .data).size = 65536
  distinct : ∀ one two, (state.shared one).physicalAddress = (state.shared two).physicalAddress →
    one = two
  queue : 0 < state.queueSize ∧ state.queueSize ≤ 64
  entries : ZeroEntries (state.shared .available)
  used : state.loadWord .used 2 2 = state.device.usedIndex.toNat
  harmless : ∀ request ∈ state.device.pending, request.Harmless

/-- The rings after a step that keeps the buffers in place. -/
theorem Rings.kept (rings : Rings state)
    (buffers : ∀ name, (after.shared name).size = (state.shared name).size ∧
      (after.shared name).physicalAddress = (state.shared name).physicalAddress)
    (queueSize : after.queueSize = state.queueSize)
    (entries : ZeroEntries (after.shared .available))
    (used : after.loadWord .used 2 2 = after.device.usedIndex.toNat)
    (harmless : ∀ request ∈ after.device.pending, request.Harmless) : Rings after where
  sizes name other := (buffers name).1.trans (rings.sizes name other)
  dataSize := (buffers .data).1.trans rings.dataSize
  distinct := by
    simp only [fun name => (buffers name).2]
    exact rings.distinct
  queue := queueSize ▸ rings.queue
  entries := entries
  used := used
  harmless := harmless

namespace VirtioState

theorem availIndex_toNat (state : VirtioState) :
    state.availIndex.toNat = state.loadWord .available 2 2 := by
  have bound : state.loadWord .available 2 2 < 256 ^ 2 := Memory.load_lt _ _ _
  rw [availIndex, toNat_ofNat]
  omega

theorem nothing_to_take (state : VirtioState) :
    state.device.lastAvail.toNat = state.loadWord .available 2 2 ↔
      state.device.lastAvail = state.availIndex := by
  rw [← availIndex_toNat, toNat_inj]

theorem ringSlot_lt {queueSize : Nat} (positive : 0 < queueSize) (bounded : queueSize ≤ 64)
    (index : BitVec 32) : ringSlot index queueSize < 64 := by
  have mask : (BitVec.ofNat 32 queueSize - 1).toNat = queueSize - 1 := by
    have one : BitVec.toNat (1 : BitVec 32) = 1 := rfl
    rw [toNat_sub, toNat_ofNat, one]
    omega
  have below : ringSlot index queueSize ≤ queueSize - 1 := by
    rw [ringSlot, toNat_and, mask]
    exact Nat.and_le_right
  omega

theorem toNat_low16 (value : BitVec 32) : (value &&& 0xFFFF).toNat = value.toNat % 2 ^ 16 := by
  exact Nat.and_two_pow_sub_one_eq_mod value.toNat 16

theorem acked_succ (state : VirtioState) :
    BitVec.ofNat 16 ((state.lastUsedIndex + 1) &&& 0xFFFF).toNat = state.acked + 1 := by
  have one : BitVec.toNat (1 : BitVec 32) = 1 := rfl
  have one16 : BitVec.toNat (1 : BitVec 16) = 1 := rfl
  apply eq_of_toNat_eq
  rw [toNat_ofNat, toNat_low16, acked, toNat_add, toNat_add, toNat_setWidth, one, one16]
  omega

theorem poll_unseen (rings : Rings state) :
    (BitVec.ofInt 32 ((state.shared .used).read 2 2) - state.lastUsedIndex) &&& 0xFFFF = 0 ↔
      state.device.usedIndex = state.acked := by
  have read : (state.shared .used).read 2 2 = state.device.usedIndex.toNat := by
    have size := rings.sizes .used (by decide)
    rw [show (2 : Int) = ((2 : Nat) : Int) from rfl,
      DmaBuffer.read_eq _ (by decide) (by decide) (by omega)]
    have used := rings.used
    rw [loadWord] at used
    rw [used, int32_of_range (by omega) (by omega)]
  rw [read, acked]
  have cast :
      BitVec.ofInt 32 (state.device.usedIndex.toNat : Int) =
        state.device.usedIndex.setWidth 32 := by
    apply eq_of_toNat_eq
    simp only [toNat_ofInt, toNat_setWidth]
    omega
  rw [cast]
  have zero : BitVec.toNat (0 : BitVec 32) = 0 := rfl
  rw [← toNat_inj, toNat_low16, ← toNat_inj, toNat_sub, toNat_setWidth, toNat_setWidth, zero]
  omega

theorem locate_harmless {state : VirtioState} (located : state.locate low high = some name) :
    name ≠ .available ∧ name ≠ .used := by
  have member := List.mem_of_find?_eq_some located
  revert member
  cases name <;> decide

theorem fetch_harmless (state : VirtioState) (head : Nat) : (state.fetch head).Harmless := by
  rintro name (located | located)
  · exact locate_harmless located
  · exact locate_harmless located

/-- What is left when the device takes a request. -/
structure Takes (state after : VirtioState) : Prop where
  new : state.device.lastAvail ≠ state.availIndex
  eq : after = { state with device := { state.device with
    lastAvail := state.device.lastAvail + 1
    pending := state.device.pending ++ [state.fetch 0] } }

theorem take_cases (rings : Rings state) (taken : state.take = some after) : Takes state after := by
  have slot : state.device.lastAvail.toNat % state.queueSize < 64 :=
    Nat.lt_of_lt_of_le (Nat.mod_lt _ rings.queue.1) rings.queue.2
  have head :
      state.loadWord .available (4 + state.device.lastAvail.toNat % state.queueSize * 2) 2 = 0 :=
    rings.entries _ slot
  simp only [take, nothing_to_take, head] at taken
  split at taken
  · contradiction
  · exact ⟨‹_›, (Option.some.inj taken).symm⟩

/-- What a step of the device on a request leaves of everything else. -/
structure Serves (state after : VirtioState) (request moved : Request) : Prop where
  stays : after.lastUsedIndex = state.lastUsedIndex ∧ after.phase = state.phase ∧
    after.capacity = state.capacity
  available : after.shared .available = state.shared .available
  used : after.shared .used = state.shared .used
  queueSize : after.queueSize = state.queueSize
  sizes : ∀ name, (after.shared name).size = (state.shared name).size
  addresses : ∀ name, (after.shared name).physicalAddress = (state.shared name).physicalAddress
  device : after.device.lastAvail = state.device.lastAvail ∧
    after.device.usedIndex = state.device.usedIndex ∧
    ∃ k, state.device.pending[k]? = some request ∧
      after.device.pending = state.device.pending.set k moved
  same : moved = { request with stage := moved.stage }

theorem deviceCopy_buffer (state : VirtioState) (target : Option BufferName) (offset count : Nat)
    (source : Memory) (sourceOffset : Nat) (name : BufferName) :
    (state.deviceCopy target offset count source sourceOffset name).size =
      (state.shared name).size ∧
      (state.deviceCopy target offset count source sourceOffset name).physicalAddress =
        (state.shared name).physicalAddress := by
  cases target with
  | none => exact ⟨rfl, rfl⟩
  | some target =>
    by_cases same : name = target
    · subst same
      simp [deviceCopy]
    · simp [deviceCopy, update_of_ne same]

theorem deviceCopy_other (state : VirtioState) (offset count : Nat)
    (source : Memory) (sourceOffset : Nat) (other : target ≠ some name) :
    state.deviceCopy target offset count source sourceOffset name = state.shared name := by
  cases target with
  | none => rfl
  | some target =>
    have different : name ≠ target := by
      intro same
      exact other (by rw [same])
    rw [deviceCopy, update_of_ne different]

theorem deviceCopy_rings (rings : Rings state) (member : request ∈ state.device.pending)
    (named : request.data = target ∨ request.status = target) :
    state.deviceCopy target offset count source sourceOffset .available = state.shared .available ∧
      state.deviceCopy target offset count source sourceOffset .used = state.shared .used := by
  have harmless := rings.harmless request member
  constructor <;> refine deviceCopy_other _ _ _ _ _ fun same => ?_
  · exact (harmless _ (same ▸ named)).1 rfl
  · exact (harmless _ (same ▸ named)).2 rfl

theorem serve_cases (rings : Rings state) (served : state.serve k = some after) :
    ∃ request done, request.stage = .serving done ∧ 512 * (done + 1) ≤ request.dataLength ∧
      Serves state after request { request with stage := .serving (done + 1) } ∧
      (request.typeCode = 0 → after.disk = state.disk ∧
        after.shared = state.deviceCopy request.data (512 * done) 512 state.disk
          (512 * (request.sector + done))) := by
  simp only [serve] at served
  split at served
  · rename_i request found
    split at served
    · rename_i done stage
      split at served
      · rename_i room
        refine ⟨request, done, stage, room, ?_⟩
        split at served
        · cases served
          obtain ⟨available, used⟩ := deviceCopy_rings rings (List.mem_of_getElem? found) (.inl rfl)
          exact ⟨⟨⟨rfl, rfl, rfl⟩, available, used, rfl, fun _ => (deviceCopy_buffer ..).1,
            fun _ => (deviceCopy_buffer ..).2, ⟨rfl, rfl, k, found, rfl⟩, rfl⟩, fun _ => ⟨rfl, rfl⟩⟩
        · rename_i notRead
          refine ⟨?_, fun read => absurd read notRead⟩
          split at served
          · split at served <;> obtain rfl := Option.some.inj served <;>
              exact ⟨⟨rfl, rfl, rfl⟩, rfl, rfl, rfl, fun _ => rfl, fun _ => rfl,
                ⟨rfl, rfl, k, found, rfl⟩, rfl⟩
          · contradiction
      · contradiction
    · contradiction
  · contradiction

theorem report_cases (rings : Rings state) (reported : state.report k code = some after) :
    ∃ request done, request.stage = .serving done ∧ (code = 0 → done * 512 = request.dataLength) ∧
      Serves state after request { request with stage := .reported } ∧ after.disk = state.disk ∧
      after.shared = state.deviceCopy request.status 0 1 (fun _ => code) 0 := by
  simp only [report] at reported
  split at reported
  · rename_i request found
    split at reported
    · rename_i done stage
      split at reported
      · contradiction
      · rename_i moved
        cases reported
        obtain ⟨available, used⟩ := deviceCopy_rings rings (List.mem_of_getElem? found) (.inr rfl)
        refine ⟨request, done, stage, ?_, ⟨⟨rfl, rfl, rfl⟩, available, used,
          rfl, fun _ => (deviceCopy_buffer ..).1,
          fun _ => (deviceCopy_buffer ..).2, ⟨rfl, rfl, k, found, rfl⟩, rfl⟩, rfl, rfl⟩
        intro success
        by_contra short
        exact moved ⟨success, short⟩
    · contradiction
  · contradiction

/-- What is left when the device returns a request. -/
structure Publishes (state after : VirtioState) (request : Request) : Prop where
  stays : after.lastUsedIndex = state.lastUsedIndex ∧ after.phase = state.phase ∧
    after.capacity = state.capacity ∧ after.disk = state.disk
  shared : ∀ name, name ≠ .used → after.shared name = state.shared name
  queueSize : after.queueSize = state.queueSize
  usedSize : (after.shared .used).size = (state.shared .used).size
  usedAddress : (after.shared .used).physicalAddress = (state.shared .used).physicalAddress
  usedIndex : after.loadWord .used 2 2 = after.device.usedIndex.toNat
  device : after.device.lastAvail = state.device.lastAvail ∧
    after.device.usedIndex = state.device.usedIndex + 1 ∧
    ∃ k, state.device.pending[k]? = some request ∧
      after.device.pending = state.device.pending.eraseIdx k

theorem publish_cases (rings : Rings state) (published : state.publish k = some after) :
    ∃ request, request.stage = .reported ∧ Publishes state after request := by
  simp only [publish] at published
  split at published
  · rename_i request found
    split at published
    · contradiction
    · rename_i stage
      cases published
      refine ⟨request, stage, ⟨⟨rfl, rfl, rfl, rfl⟩, ?_, rfl, ?_, ?_, ?_,
        ⟨rfl, rfl, k, found, rfl⟩⟩⟩
      · intro name other
        exact update_of_ne other _ _
      · simp
      · simp
      · have size := rings.sizes .used (by decide)
        apply DmaBuffer.load_write_same _ (by decide) (by decide)
        · simp only [DmaBuffer.write_size]
          omega
        · exact (state.device.usedIndex + 1).isLt
  · contradiction

section DeviceSteps

variable {state after : VirtioState} {request moved : Request} {k : Nat}

theorem pending_ne_nil (found : state.device.pending[k]? = some request) :
    state.device.pending ≠ [] := by
  intro empty
  simp [empty] at found

/-- A device that has a request works on the last one. -/
theorem Rest.taken (rest : state.Rest) (busy : state.device.pending ≠ []) :
    ∃ request, state.Taken request := by
  rcases rest with inStep | behind | untaken | taken
  · exact absurd inStep.quiet.1 busy
  · exact absurd behind.quiet.1 busy
  · exact absurd untaken.pending busy
  · exact taken

theorem Taken.only (taken : state.Taken current) (found : state.device.pending[k]? = some request) :
    k = 0 ∧ current = request := by
  rw [taken.pending] at found
  cases k with
  | zero => exact ⟨rfl, Option.some.inj found⟩
  | succ k => simp at found

section

variable (serves : Serves state after request moved)

include serves

theorem Serves.availIndex_eq : after.availIndex = state.availIndex := by
  rw [availIndex, loadWord, serves.available]
  rfl

theorem Serves.acked_eq : after.acked = state.acked := congrArg (setWidth 16) serves.stays.1

theorem Serves.rings (rings : Rings state) : Rings after := by
  obtain ⟨-, usedIndex, k, found, pending⟩ := serves.device
  refine rings.kept (fun name => ⟨serves.sizes name, serves.addresses name⟩) serves.queueSize
    (serves.available ▸ rings.entries) ?_ ?_
  · rw [loadWord, serves.used, usedIndex]
    exact rings.used
  · intro other member
    rw [pending] at member
    rcases List.mem_or_eq_of_mem_set member with earlier | rfl
    · exact rings.harmless other earlier
    · have harmless := rings.harmless request (List.mem_of_getElem? found)
      rw [serves.same]
      exact harmless

theorem Serves.busy : state.device.pending ≠ [] := by
  obtain ⟨-, -, k, found, -⟩ := serves.device
  exact pending_ne_nil found

theorem Serves.taken (taken : state.Taken current) : current = request ∧ after.Taken moved := by
  obtain ⟨lastAvail, usedIndex, k, found, pending⟩ := serves.device
  obtain ⟨rfl, rfl⟩ := taken.only found
  rw [taken.pending] at pending
  refine ⟨rfl, pending, ?_, ?_, ?_⟩
  · rw [lastAvail, serves.availIndex_eq, taken.taken]
  · rw [serves.availIndex_eq, serves.acked_eq, taken.avail]
  · rw [usedIndex, serves.acked_eq, taken.used]

theorem Serves.rest (rest : state.Rest) : after.Rest := by
  obtain ⟨current, taken⟩ := rest.taken serves.busy
  exact .inr (.inr (.inr ⟨moved, (serves.taken taken).2⟩))

end

section

variable (publishes : Publishes state after request)

include publishes

theorem Publishes.rings (rings : Rings state) : Rings after := by
  obtain ⟨-, -, k, -, pending⟩ := publishes.device
  have kept : ∀ name, (after.shared name).size = (state.shared name).size ∧
      (after.shared name).physicalAddress = (state.shared name).physicalAddress := by
    intro name
    by_cases used : name = .used
    · subst used
      exact ⟨publishes.usedSize, publishes.usedAddress⟩
    · rw [publishes.shared name used]
      exact ⟨rfl, rfl⟩
  refine rings.kept kept publishes.queueSize ?_ publishes.usedIndex ?_
  · rw [publishes.shared .available (by decide)]
    exact rings.entries
  · intro other member
    rw [pending] at member
    exact rings.harmless other (List.mem_of_mem_eraseIdx member)

theorem Publishes.busy : state.device.pending ≠ [] := by
  obtain ⟨-, -, k, found, -⟩ := publishes.device
  exact pending_ne_nil found

theorem Publishes.taken (taken : state.Taken current) : current = request ∧ after.Behind := by
  obtain ⟨lastAvail, usedIndex, k, found, pending⟩ := publishes.device
  have availSame : after.availIndex = state.availIndex := by
    rw [availIndex, loadWord, publishes.shared .available (by decide)]
    rfl
  have ackedSame : after.acked = state.acked := congrArg (setWidth 16) publishes.stays.1
  obtain ⟨rfl, rfl⟩ := taken.only found
  rw [taken.pending] at pending
  refine ⟨rfl, ⟨pending, ?_⟩, ?_, ?_⟩
  · rw [lastAvail, availSame, taken.taken]
  · rw [availSame, ackedSame, taken.avail]
  · rw [usedIndex, ackedSame, taken.used]

theorem Publishes.rest (rest : state.Rest) : after.Rest := by
  obtain ⟨current, taken⟩ := rest.taken publishes.busy
  exact .inr (.inl (publishes.taken taken).2)

end

theorem Takes.rings (takes : Takes state after) (rings : Rings state) : Rings after := by
  obtain ⟨-, rfl⟩ := takes
  refine { rings with harmless := ?_ }
  intro request member
  rcases List.mem_append.mp member with earlier | last
  · exact rings.harmless request earlier
  · rw [List.mem_singleton.mp last]
    exact fetch_harmless _ _

theorem Takes.untaken (takes : Takes state after) (untaken : state.Untaken) :
    after.Taken (state.fetch 0) := by
  obtain ⟨-, rfl⟩ := takes
  refine ⟨?_, ?_, untaken.avail, untaken.used⟩
  · simp [untaken.pending]
  · exact (congrArg (· + 1) untaken.taken).trans untaken.avail.symm

theorem Takes.rest (takes : Takes state after) (rest : state.Rest) : after.Rest := by
  rcases rest with inStep | behind | untaken | ⟨current, taken⟩
  · exact absurd inStep.quiet.2 takes.new
  · exact absurd behind.quiet.2 takes.new
  · exact .inr (.inr (.inr ⟨_, takes.untaken untaken⟩))
  · exact absurd taken.taken takes.new

end DeviceSteps

end VirtioState

end Zapada.Virtio
