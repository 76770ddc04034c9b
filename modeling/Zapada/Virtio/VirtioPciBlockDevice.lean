import Zapada.Hal.DmaBuffer

/-! The virtio block driver, one access to shared memory at a time, and a device that
takes available entries in order and completes them at any later time. -/

namespace Zapada.Virtio

open Foundation Storage Hal

namespace VirtioConstants

def queueSize : Nat := 64
def sectorSize : Nat := 512
def requestHeaderBytes : Nat := 16
def requestStatusBytes : Nat := 1
def maxSectorsPerRequest : Nat := 128
def descriptorFlagNext : Nat := 0x0001
def descriptorFlagWrite : Nat := 0x0002
def pollLimit : Nat := 10000000

end VirtioConstants

open VirtioConstants

inductive BufferName where
  | descriptor | available | used | header | status | data
deriving DecidableEq, Repr

abbrev Shared := BufferName → DmaBuffer

/-- The sizes that `InitializeTransport` asks for. -/
def bufferBytes : BufferName → Int
  | .data => maxSectorsPerRequest * sectorSize
  | _ => 4096

inductive RequestType where
  | blockRequestIn | blockRequestOut
deriving DecidableEq

def RequestType.code : RequestType → Nat
  | .blockRequestIn => 0
  | .blockRequestOut => 1

/-- The arguments of `Transfer`; the sector number is a `long`. -/
structure TransferCall where
  requestType : RequestType
  lba : Int
  sectorCount : Int
  buffer : Option Buffer
  bufferOffset : Int
  inLong : lba < 2 ^ 63

structure Job where
  requestType : RequestType
  lba : Nat
  sectorCount : Nat
  buffer : Buffer
  bufferOffset : Nat
  inLong : lba < 2 ^ 63
  nonempty : 0 < sectorCount
  few : sectorCount ≤ maxSectorsPerRequest

def Job.byteCount (job : Job) : Nat := job.sectorCount * sectorSize

theorem TransferCall.accepted_bounds (call : TransferCall)
    (counts : ¬(call.sectorCount ≤ 0 ∨ call.bufferOffset < 0 ∨
      call.sectorCount > maxSectorsPerRequest)) :
    call.lba.toNat < 2 ^ 63 ∧ 0 < call.sectorCount.toNat ∧
      call.sectorCount.toNat ≤ maxSectorsPerRequest := by
  have inLong := call.inLong
  omega

/-- The checks at the start of `Transfer`. -/
def acceptTransfer (capacity : Int) (call : TransferCall) : Option Job :=
  match call.buffer with
  | none => none
  | some buffer =>
    if counts : call.sectorCount ≤ 0 ∨ call.bufferOffset < 0 ∨
      call.sectorCount > maxSectorsPerRequest then none
    else if int32 (call.bufferOffset + call.sectorCount * sectorSize) > buffer.length then none
    else if call.lba < 0 ∨ (capacity > 0 ∧ int64 (call.lba + call.sectorCount) > capacity) then none
    else some {
      requestType := call.requestType
      lba := call.lba.toNat
      sectorCount := call.sectorCount.toNat
      buffer
      bufferOffset := call.bufferOffset.toNat
      inLong := (call.accepted_bounds counts).1
      nonempty := (call.accepted_bounds counts).2.1
      few := (call.accepted_bounds counts).2.2 }

/-- One access of the driver to a shared buffer; `abort` returns from `Transfer` with
an error. -/
inductive Store where
  | write (name : BufferName) (width offset value : Nat)
  | copyFrom (source : Buffer) (sourceOffset count : Nat)
  | abort

def Store.apply (shared : Shared) : Store → Shared
  | .write name width offset value =>
    Function.update shared name ((shared name).write width offset value)
  | .copyFrom source sourceOffset count =>
    Function.update shared .data
      (((shared .data).copyFrom 0 source sourceOffset count).getD (shared .data))
  | .abort => shared

def low32 (value : Nat) : Nat := value % 2 ^ 32
def high32 (value : Nat) : Nat := value / 2 ^ 32 % 2 ^ 32

def clearRequestBuffers : List Store :=
  (List.range 12).map (fun i => .write .descriptor 4 (4 * i) 0) ++
    (List.range 4).map (fun i => .write .header 4 (4 * i) 0) ++ [.write .status 1 0 0xFF]

def writeHeader (job : Job) : List Store :=
  [.write .header 4 0 job.requestType.code, .write .header 4 4 0,
    .write .header 4 8 (low32 job.lba), .write .header 4 12 (high32 job.lba)]

def writeDescriptor (index address length flags next : Nat) : List Store :=
  [.write .descriptor 4 (index * 16 + 0) (low32 address),
    .write .descriptor 4 (index * 16 + 4) (high32 address),
    .write .descriptor 4 (index * 16 + 8) length, .write .descriptor 2 (index * 16 + 12) flags,
    .write .descriptor 2 (index * 16 + 14) next]

def ringSlot (index : BitVec 32) (queueSize : Nat) : Nat :=
  (index &&& (BitVec.ofNat 32 queueSize - 1)).toNat

/-- `SubmitDescriptor`; the notification only tells the device to look, which it may
do at any time here. -/
def submitDescriptor (lastUsedIndex : BitVec 32) (queueSize descriptorIndex : Nat) : List Store :=
  [.write .available 2 (4 + ringSlot lastUsedIndex queueSize * 2) descriptorIndex,
    .write .available 2 2 ((lastUsedIndex + 1) &&& 0xFFFF).toNat]

/-- The copy of a write request's data; none if `CopyFrom` fails. -/
def copyData (data : DmaBuffer) (job : Job) : Option (List Store) :=
  match job.requestType with
  | .blockRequestIn => some []
  | .blockRequestOut =>
    if (data.copyFrom 0 job.buffer job.bufferOffset job.byteCount).isSome then
      some [.copyFrom job.buffer job.bufferOffset job.byteCount]
    else none

/-- From the descriptors to the available index. -/
def submitRequest (shared : Shared) (lastUsedIndex : BitVec 32) (queueSize : Nat) (job : Job) :
    List Store :=
  let flags := match job.requestType with
    | .blockRequestIn => descriptorFlagWrite ||| descriptorFlagNext
    | .blockRequestOut => descriptorFlagNext
  writeDescriptor 0 (shared .header).physicalAddress.toNat requestHeaderBytes
    descriptorFlagNext 1 ++
    writeDescriptor 1 (shared .data).physicalAddress.toNat job.byteCount flags 2 ++
    writeDescriptor 2 (shared .status).physicalAddress.toNat requestStatusBytes
      descriptorFlagWrite 0 ++
    submitDescriptor lastUsedIndex queueSize 0

/-- All stores of `Transfer` up to the poll loop. -/
def transferStores (shared : Shared) (lastUsedIndex : BitVec 32) (queueSize : Nat) (job : Job) :
    List Store :=
  match copyData (shared .data) job with
  | some copies => clearRequestBuffers ++ writeHeader job ++ copies ++
      submitRequest shared lastUsedIndex queueSize job
  | none => clearRequestBuffers ++ writeHeader job ++ [.abort]

inductive Phase where
  | idle
  | writing (job : Job) (stores : List Store)
  | polling (job : Job) (i : Nat)
  | seen (job : Job)
  | checking (job : Job)
  | copying (job : Job)
  | returned (job : Job) (status : Int) (buffer : Buffer)
  | refused (status : Int)

inductive Stage where
  | serving (sectors : Nat)
  | reported
deriving DecidableEq

/-- A request as the device found it in the descriptors and the header; a buffer is
known by its physical address. -/
structure Request where
  head : Nat
  typeCode : Nat
  sector : Nat
  data : Option BufferName
  dataLength : Nat
  status : Option BufferName
  stage : Stage

structure Device where
  lastAvail : BitVec 16
  usedIndex : BitVec 16
  pending : List Request

structure VirtioState where
  shared : Shared
  queueSize : Nat
  capacity : Int
  lastUsedIndex : BitVec 32
  phase : Phase
  device : Device
  disk : Memory

namespace VirtioState

def loadWord (state : VirtioState) (name : BufferName) (offset width : Nat) : Nat :=
  (state.shared name).bytes.load offset width

/-- Start `Transfer`; refused arguments return at once. -/
def transfer (state : VirtioState) (call : TransferCall) : VirtioState :=
  match acceptTransfer state.capacity call with
  | none => { state with phase := .refused StorageStatus.invalidArgument }
  | some job => { state with
      phase := .writing job (transferStores state.shared state.lastUsedIndex state.queueSize job) }

def fail (state : VirtioState) (job : Job) : VirtioState :=
  { state with phase := .returned job StorageStatus.ioError job.buffer }

def succeed (state : VirtioState) (job : Job) (buffer : Buffer) : VirtioState :=
  { state with phase := .returned job job.sectorCount buffer }

def poll (state : VirtioState) (job : Job) (i : Nat) : VirtioState :=
  if i < pollLimit then
    let usedIndex := (state.shared .used).read 2 2
    if (BitVec.ofInt 32 usedIndex - state.lastUsedIndex) &&& 0xFFFF ≠ 0 then
      { state with phase := .seen job }
    else { state with phase := .polling job (i + 1) }
  else state.fail job

/-- The end of `PollUsed`: the id in the used ring. -/
def acknowledge (state : VirtioState) (job : Job) : VirtioState :=
  let id := (state.shared .used).read 4 (4 + ringSlot state.lastUsedIndex state.queueSize * 8)
  let state := { state with lastUsedIndex := state.lastUsedIndex + 1 }
  if id ≠ 0 then state.fail job else { state with phase := .checking job }

def checkStatus (state : VirtioState) (job : Job) : VirtioState :=
  let status := (state.shared .status).read 1 0
  if status ≠ 0 then state.fail job
  else
    match job.requestType with
    | .blockRequestIn => { state with phase := .copying job }
    | .blockRequestOut => state.succeed job job.buffer

def copyOut (state : VirtioState) (job : Job) : VirtioState :=
  match (state.shared .data).copyTo 0 job.buffer job.bufferOffset job.byteCount with
  | none => state.fail job
  | some buffer => state.succeed job buffer

def driverStep (state : VirtioState) : Option VirtioState :=
  match state.phase with
  | .idle => none
  | .returned _ _ _ => none
  | .refused _ => none
  | .writing job [] => some { state with phase := .polling job 0 }
  | .writing job (.abort :: _) => some (state.fail job)
  | .writing job (store :: rest) =>
    some { state with shared := store.apply state.shared, phase := .writing job rest }
  | .polling job i => some (state.poll job i)
  | .seen job => some (state.acknowledge job)
  | .checking job => some (state.checkStatus job)
  | .copying job => some (state.copyOut job)

def locate (state : VirtioState) (low high : Nat) : Option BufferName :=
  [BufferName.header, .data, .status].find? fun name =>
    (state.shared name).physicalAddress = BitVec.ofNat 32 high ++ BitVec.ofNat 32 low

def descriptorWord (state : VirtioState) (index offset width : Nat) : Nat :=
  state.loadWord .descriptor (index * 16 + offset) width

/-- The request behind a chain of three descriptors. -/
def fetch (state : VirtioState) (head : Nat) : Request :=
  let second := state.descriptorWord head 14 2
  let third := state.descriptorWord second 14 2
  let header := state.locate (state.descriptorWord head 0 4) (state.descriptorWord head 4 4)
  let headerWord := fun offset => match header with
    | some name => state.loadWord name offset 4
    | none => 0
  { head
    typeCode := headerWord 0
    sector := headerWord 8 + 2 ^ 32 * headerWord 12
    data := state.locate (state.descriptorWord second 0 4) (state.descriptorWord second 4 4)
    dataLength := state.descriptorWord second 8 4
    status := state.locate (state.descriptorWord third 0 4) (state.descriptorWord third 4 4)
    stage := .serving 0 }

/-- The device takes the next available entry. -/
def take (state : VirtioState) : Option VirtioState :=
  if state.device.lastAvail.toNat = state.loadWord .available 2 2 then none
  else
    let head := state.loadWord .available
      (4 + state.device.lastAvail.toNat % state.queueSize * 2) 2
    some { state with device := { state.device with
      lastAvail := state.device.lastAvail + 1
      pending := state.device.pending ++ [state.fetch head] } }

def setPending (state : VirtioState) (k : Nat) (request : Request) : VirtioState :=
  { state with device := { state.device with pending := state.device.pending.set k request } }

/-- Bytes that the device writes to a buffer. -/
def deviceCopy (state : VirtioState) (name : Option BufferName) (offset count : Nat)
    (source : Memory) (sourceOffset : Nat) : Shared :=
  match name with
  | none => state.shared
  | some name => Function.update state.shared name { state.shared name with
      bytes := (state.shared name).bytes.copy offset count source sourceOffset }

/-- The device moves one sector between the disk and the data buffer. -/
def serve (state : VirtioState) (k : Nat) : Option VirtioState :=
  match state.device.pending[k]? with
  | some request =>
    match request.stage with
    | .serving done =>
      if 512 * (done + 1) ≤ request.dataLength then
        let moved := state.setPending k { request with stage := .serving (done + 1) }
        if request.typeCode = 0 then
          some { moved with
            shared := state.deviceCopy request.data (512 * done) 512 state.disk
              (512 * (request.sector + done)) }
        else if request.typeCode = 1 then
          match request.data with
          | none => some moved
          | some name => some { moved with
              disk := state.disk.copy (512 * (request.sector + done)) 512 (state.shared name).bytes
                (512 * done) }
        else none
      else none
    | .reported => none
  | none => none

/-- The device writes the status of a request: success once all sectors are moved, an
error at any time. -/
def report (state : VirtioState) (k : Nat) (code : UInt8) : Option VirtioState :=
  match state.device.pending[k]? with
  | some request =>
    match request.stage with
    | .serving done =>
      if code = 0 ∧ done * 512 ≠ request.dataLength then none
      else some { state.setPending k { request with stage := .reported } with
        shared := state.deviceCopy request.status 0 1 (fun _ => code) 0 }
    | .reported => none
  | none => none

/-- The device returns a request through the used ring. -/
def publish (state : VirtioState) (k : Nat) : Option VirtioState :=
  match state.device.pending[k]? with
  | some request =>
    match request.stage with
    | .serving _ => none
    | .reported =>
      let slot := state.device.usedIndex.toNat % state.queueSize
      let used := (((state.shared .used).write 4 (4 + slot * 8 : Nat) request.head).write 4
        (4 + slot * 8 + 4 : Nat) request.dataLength).write 2 (2 : Nat)
          (state.device.usedIndex + 1).toNat
      some { state with
        shared := Function.update state.shared .used used
        device := { state.device with
          usedIndex := state.device.usedIndex + 1
          pending := state.device.pending.eraseIdx k } }
  | none => none

end VirtioState

end Zapada.Virtio
