import Mathlib.Algebra.Group.Int.Defs
import Mathlib.Algebra.GroupWithZero.Nat
import Mathlib.Data.Fintype.Basic
import Zapada.Foundation.Machine

/-! The table of named service channels behind `Zapada.System.Ipc.Channel`. A handle is
the index of a slot; each slot has one request buffer and one reply buffer with a flag. -/

namespace Zapada.Ipc

open Function

def namedChannelMax : Nat := 16
def namedChannelNameMax : Nat := 64
def namedChannelBufMax : Nat := 4096

inductive NamedChannelState where
  | free
  | opened
  | closed
deriving DecidableEq

/-- A slot; `request` and `reply` are the bytes of the buffers up to their lengths. -/
structure NamedChannel where
  state : NamedChannelState
  name : List UInt8
  ownerPid : Nat
  request : List UInt8
  requestSenderPid : Nat
  hasRequest : Bool
  reply : List UInt8
  hasReply : Bool
deriving DecidableEq

abbrev ChannelSlot := Fin namedChannelMax
abbrev ChannelTable := ChannelSlot → NamedChannel

def initialTable : ChannelTable := fun _ =>
  { state := .free, name := [], ownerPid := 0, request := [], requestSenderPid := 0,
    hasRequest := false, reply := [], hasReply := false }

def strEq : List UInt8 → List UInt8 → Bool
  | [], [] => true
  | a :: as, b :: bs => if a ≠ b then false else strEq as bs
  | [], _ :: _ => false
  | _ :: _, [] => false

/-- `string_to_ascii`: at most 63 characters, the low seven bits of each; the result ends
at the first of them that is zero. -/
def stringToAscii (str : List UInt16) : List UInt8 :=
  ((str.take (namedChannelNameMax - 1)).map fun c => (c &&& 0x7F).toUInt8).takeWhile (· ≠ 0)

def findByName (table : ChannelTable) (name : List UInt8) : Option ChannelSlot :=
  (List.finRange namedChannelMax).find? fun slot =>
    (table slot).state = .opened ∧ strEq (table slot).name name

def findFreeSlot (table : ChannelTable) : Option ChannelSlot :=
  (List.finRange namedChannelMax).find? fun slot => (table slot).state = .free

def NamedChannel.create (ch : NamedChannel) (name : List UInt8) (pid : Nat) : NamedChannel :=
  { ch with state := .opened, name, ownerPid := pid, request := [], requestSenderPid := 0,
            hasRequest := false, reply := [], hasReply := false }

def NamedChannel.close (ch : NamedChannel) : NamedChannel :=
  { ch with state := .free, name := [], ownerPid := 0, request := [], hasRequest := false,
            reply := [], hasReply := false }

/-- `SysChannelCreate`; `pid` is the process the runtime reports. -/
def sysChannelCreate (pid : Nat) (table : ChannelTable) : Option (List UInt16) → Int × ChannelTable
  | none => (-2, table)
  | some str =>
    let name := stringToAscii str
    if name = [] then (-3, table)
    else if (findByName table name).isSome then (-4, table)
    else
      match findFreeSlot table with
      | none => (-5, table)
      | some slot => (slot.val, update table slot ((table slot).create name pid))

def sysChannelOpen (table : ChannelTable) : Option (List UInt16) → Int
  | none => -2
  | some str =>
    let name := stringToAscii str
    if name = [] then -3
    else
      match findByName table name with
      | none => -10
      | some slot => slot.val

/-- The checks of a handle that all other calls start with. -/
def checkHandle (table : ChannelTable) (channel : Int) : Except Int ChannelSlot :=
  if inRange : 0 ≤ channel ∧ channel < namedChannelMax then
    let slot : ChannelSlot := ⟨channel.toNat, by omega⟩
    if (table slot).state ≠ .opened then .error (-11) else .ok slot
  else .error (-10)

def sysChannelClose (table : ChannelTable) (channel : Int) : Int × ChannelTable :=
  match checkHandle table channel with
  | .error code => (code, table)
  | .ok slot => (0, update table slot (table slot).close)

/-- The checks of `SysChannelSend` and `SysChannelReply` for an array of `arrLen` bytes. -/
def checkData (table : ChannelTable) (channel offset count : Int) (arrLen : Nat) :
    Except Int ChannelSlot :=
  match checkHandle table channel with
  | .error code => .error code
  | .ok slot =>
    if count < 0 ∨ offset < 0 then .error (-12)
    else if arrLen < (offset + count).toNat % 2 ^ 32 then .error (-13)
    else if namedChannelBufMax < count.toNat then .error (-14)
    else .ok slot

def checkReceive (table : ChannelTable) (channel offset capacity : Int) : Except Int ChannelSlot :=
  match checkHandle table channel with
  | .error code => .error code
  | .ok slot => if capacity < 0 ∨ offset < 0 then .error (-12) else .ok slot

theorem strEq_iff (a b : List UInt8) : strEq a b = true ↔ a = b := by
  induction a generalizing b with
  | nil => cases b <;> simp [strEq]
  | cons first a ih =>
    cases b with
    | nil => simp [strEq]
    | cons other b =>
      by_cases same : first = other <;> simp [strEq, same, ih]

theorem findByName_some (found : findByName table name = some slot) :
    (table slot).state = .opened ∧ (table slot).name = name := by
  have holds := List.find?_some found
  simpa [strEq_iff] using holds

theorem findByName_none (missing : findByName table name = none)
    (slot : ChannelSlot) (opened : (table slot).state = .opened) : (table slot).name ≠ name := by
  have fails := List.find?_eq_none.mp missing slot (List.mem_finRange slot)
  simpa [strEq_iff, opened] using fails

theorem findFreeSlot_some (found : findFreeSlot table = some slot) :
    (table slot).state = .free := by
  simpa using List.find?_some found

/-- Create is refused without any change, or takes the first free slot. -/
theorem sysChannelCreate_cases (pid : Nat) (table : ChannelTable) (str : List UInt16) :
    (∃ code, sysChannelCreate pid table (some str) = (.negSucc code, table)) ∨
      ∃ slot, findFreeSlot table = some slot ∧ sysChannelCreate pid table (some str) =
        (.ofNat slot.val, update table slot ((table slot).create (stringToAscii str) pid)) := by
  simp only [sysChannelCreate]
  split
  · exact .inl ⟨2, rfl⟩
  · split
    · exact .inl ⟨3, rfl⟩
    · cases findFreeSlot table with
      | none => exact .inl ⟨4, rfl⟩
      | some slot => exact .inr ⟨slot, rfl, rfl⟩

theorem sysChannelOpen_cases (table : ChannelTable) (str : List UInt16) :
    (∃ code, sysChannelOpen table (some str) = .negSucc code) ∨
      ∃ slot, findByName table (stringToAscii str) = some slot ∧
        sysChannelOpen table (some str) = .ofNat slot.val := by
  simp only [sysChannelOpen]
  split
  · exact .inl ⟨2, rfl⟩
  · cases findByName table (stringToAscii str) with
    | none => exact .inl ⟨9, rfl⟩
    | some slot => exact .inr ⟨slot, rfl, rfl⟩

theorem checkHandle_ok (checked : checkHandle table channel = .ok slot) :
    channel = slot.val ∧ (table slot).state = .opened := by
  simp only [checkHandle] at checked
  split at checked
  · split at checked
    · contradiction
    · rename_i inRange opened
      cases checked
      refine ⟨?_, by simpa using opened⟩
      simp only
      omega
  · contradiction

theorem checkData_ok {table : ChannelTable}
    (checked : checkData table channel offset count arrLen = .ok slot) :
    (table slot).state = .opened ∧ 0 ≤ offset ∧ 0 ≤ count ∧
      (offset + count).toNat % 2 ^ 32 ≤ arrLen ∧
      count.toNat ≤ namedChannelBufMax := by
  unfold checkData at checked
  cases handle : checkHandle table channel with
  | error code => simp [handle] at checked
  | ok found =>
    simp only [handle] at checked
    repeat' split at checked
    all_goals cases checked
    exact ⟨(checkHandle_ok handle).2, by omega⟩

theorem checkHandle_opened (slot : ChannelSlot)
    (opened : (table slot).state = .opened) : checkHandle table slot.val = .ok slot := by
  have inRange : (0 : Int) ≤ slot.val ∧ (slot.val : Int) < namedChannelMax := by omega
  simp [checkHandle, inRange, opened]

theorem checkHandle_error (slot : ChannelSlot)
    (notOpen : (table slot).state ≠ .opened) : checkHandle table slot.val = .error (-11) := by
  have inRange : (0 : Int) ≤ slot.val ∧ (slot.val : Int) < namedChannelMax := by omega
  simp only [checkHandle, inRange, and_self, dif_pos, Int.toNat_natCast]
  rw [if_pos notOpen]

theorem sysChannelClose_cases (table : ChannelTable) (channel : Int) :
    (∃ code, sysChannelClose table channel = (.negSucc code, table)) ∨
      ∃ slot : ChannelSlot, channel = slot.val ∧ (table slot).state = .opened ∧
        sysChannelClose table channel = (0, update table slot (table slot).close) := by
  simp only [sysChannelClose]
  cases checked : checkHandle table channel with
  | error code =>
    simp only [checkHandle] at checked
    repeat' split at checked
    all_goals cases checked
    · exact .inl ⟨10, rfl⟩
    · exact .inl ⟨9, rfl⟩
  | ok slot =>
    obtain ⟨isSlot, opened⟩ := checkHandle_ok checked
    exact .inr ⟨slot, isSlot, opened, rfl⟩

/-! Processes that call the channel functions and are interleaved at every access to a
flag or a buffer. Each waiting loop can time out at any point. -/

open Foundation

/-- A call of `SysChannelSend` behind its checks: its number among all Sends, the request,
and how many bytes of a reply there is room for. -/
structure SendCall where
  id : Nat
  slot : ChannelSlot
  data : List UInt8
  room : Nat
deriving DecidableEq

/-- A call of `SysChannelReceive` behind its checks. -/
structure ReceiveCall where
  slot : ChannelSlot
  capacity : Nat
  offset : Nat
  arrLen : Nat
deriving DecidableEq

/-- The number of bytes that are copied; the subtraction is unsigned. -/
def ReceiveCall.copyLen (call : ReceiveCall) (requestLength : Nat) : Nat :=
  let copyLen := min requestLength call.capacity
  if call.arrLen < (call.offset + copyLen) % 2 ^ 32 then
    (call.arrLen + 2 ^ 32 - call.offset) % 2 ^ 32
  else copyLen

/-- Where a call stands: the two waiting loops of a Send, the loop of a Receive, and the
steps behind them. -/
inductive Activity where
  | sendWait (send : SendCall)
  | sendWrite (send : SendCall)
  | sendSignal (send : SendCall)
  | sendAwait (send : SendCall)
  | sendTake (send : SendCall)
  | sendClear (send : SendCall) (taken : List UInt8)
  | receiveWait (receive : ReceiveCall)
  | receiveCopy (receive : ReceiveCall)
  | replyWrite (slot : ChannelSlot) (data : List UInt8)
  | replyClear (slot : ChannelSlot) (data : List UInt8)
  | replySignal (slot : ChannelSlot) (data : List UInt8)
deriving DecidableEq

namespace Activity

def slot : Activity → ChannelSlot
  | sendWait send | sendWrite send | sendSignal send | sendAwait send | sendTake send
  | sendClear send _ => send.slot
  | receiveWait receive | receiveCopy receive => receive.slot
  | replyWrite slot _ | replyClear slot _ | replySignal slot _ => slot

def send? : Activity → Option Nat
  | sendWait send | sendWrite send | sendSignal send | sendAwait send | sendTake send
  | sendClear send _ => some send.id
  | _ => none

def outstanding : Activity → Bool
  | sendWrite _ | sendSignal _ | sendAwait _ | sendTake _ | sendClear _ _ => true
  | _ => false

def receiving : Activity → Bool
  | receiveCopy _ => true
  | _ => false

def replying : Activity → Bool
  | replyWrite _ _ | replyClear _ _ | replySignal _ _ => true
  | _ => false

def engaged (activity : Activity) : Bool :=
  activity.outstanding || activity.receiving || activity.replying

end Activity

/-- What the processes see: whose request was received or answered, and what a Send gave
its caller. -/
inductive Observation (Process : Type) where
  | received (service : Process) (send : Option Nat) (bytes : List UInt8)
  | answered (service : Process) (send : Option Nat) (bytes : List UInt8)
  | returned (send : Nat) (delivered : Option (List UInt8))
deriving DecidableEq

/-- The table and the calls in progress. The other fields only observe: the next Send's
number, whose request is in a buffer, whose request a process received last, where a Send
gave up waiting for its reply since the channel was created, and the log, newest first. -/
structure ChannelWorld (Process : Type) where
  table : ChannelTable
  calls : Process → Option Activity
  nextSend : Nat
  requestOf : ChannelSlot → Option Nat
  received : Process → ChannelSlot → Option Nat
  abandoned : ChannelSlot → Bool
  log : List (Observation Process)

inductive IpcCall where
  | create (name : Option (List UInt16))
  | openName (name : Option (List UInt16))
  | close (channel : Int)
  | send (channel offset count : Int) (array : List UInt8)
  | receive (channel offset capacity : Int) (arrLen : Nat)
  | reply (channel offset count : Int) (array : List UInt8)

inductive ProcessStep where
  | call (call : IpcCall)
  | advance
  | timeout

namespace ChannelWorld

variable {Process : Type} [DecidableEq Process]

def start : ChannelWorld Process where
  table := initialTable
  calls _ := none
  nextSend := 0
  requestOf _ := none
  received _ _ := none
  abandoned _ := false
  log := []

def setCall (world : ChannelWorld Process) (p : Process) (activity : Option Activity) :
    ChannelWorld Process :=
  { world with calls := update world.calls p activity }

def setChannel (world : ChannelWorld Process) (slot : ChannelSlot) (channel : NamedChannel) :
    ChannelWorld Process :=
  { world with table := update world.table slot channel }

def observe (world : ChannelWorld Process) (observation : Observation Process) :
    ChannelWorld Process :=
  { world with log := observation :: world.log }

/-- The bytes that a call copies from an array. -/
def slice (array : List UInt8) (offset count : Int) : List UInt8 :=
  (array.drop offset.toNat).take count.toNat

def begin (pid : Nat) (world : ChannelWorld Process) (p : Process) : IpcCall → ChannelWorld Process
  | .create name =>
    match sysChannelCreate pid world.table name with
    | (.ofNat slot, table) =>
      { world with table, abandoned := fun other => if other.val = slot then false else world.abandoned other }
    | (_, table) => { world with table }
  | .openName _ => world
  | .close channel => { world with table := (sysChannelClose world.table channel).2 }
  | .send channel offset count array =>
    match checkData world.table channel offset count array.length with
    | .error _ => world
    | .ok slot =>
      { world.setCall p (some (.sendWait { id := world.nextSend, slot, data := slice array offset count,
                                           room := min count.toNat array.length })) with
        nextSend := world.nextSend + 1 }
  | .receive channel offset capacity arrLen =>
    match checkReceive world.table channel offset capacity with
    | .error _ => world
    | .ok slot =>
      world.setCall p
        (some (.receiveWait { slot, capacity := capacity.toNat, offset := offset.toNat, arrLen }))
  | .reply channel offset count array =>
    match checkData world.table channel offset count array.length with
    | .error _ => world
    | .ok slot => world.setCall p (some (.replyWrite slot (slice array offset count)))

/-- The next step of a call; in a loop, the step that leaves it. -/
def advance (pid : Nat) (world : ChannelWorld Process) (p : Process) : Activity →
      Option (ChannelWorld Process)
  | .sendWait send =>
    if (world.table send.slot).hasRequest then
      none else some (world.setCall p (some (.sendWrite send)))
  | .sendWrite send =>
    let channel := { world.table send.slot with request := send.data, requestSenderPid := pid }
    some { (world.setChannel send.slot channel).setCall p (some (.sendSignal send)) with
           requestOf := update world.requestOf send.slot (some send.id) }
  | .sendSignal send =>
    let channel := { world.table send.slot with hasRequest := true }
    some ((world.setChannel send.slot channel).setCall p (some (.sendAwait send)))
  | .sendAwait send =>
    if (world.table send.slot).hasReply then some
      (world.setCall p (some (.sendTake send))) else none
  | .sendTake send =>
    let taken := (world.table send.slot).reply.take send.room
    some (world.setCall p (some (.sendClear send taken)))
  | .sendClear send taken =>
    let channel := { world.table send.slot with hasReply := false }
    some (((world.setChannel send.slot channel).setCall p none).observe
      (.returned send.id (some taken)))
  | .receiveWait receive =>
    if (world.table receive.slot).hasRequest then
      some (world.setCall p (some (.receiveCopy receive)))
    else none
  | .receiveCopy receive =>
    let request := (world.table receive.slot).request
    let last := update (world.received p) receive.slot (world.requestOf receive.slot)
    some (({ world with received := update world.received p last }.setCall p none).observe
      (.received p (world.requestOf receive.slot) (request.take (receive.copyLen request.length))))
  | .replyWrite slot data =>
    let channel := { world.table slot with reply := data }
    some ((world.setChannel slot channel).setCall p (some (.replyClear slot data)))
  | .replyClear slot data =>
    let channel := { world.table slot with hasRequest := false }
    some ((world.setChannel slot channel).setCall p (some (.replySignal slot data)))
  | .replySignal slot data =>
    let channel := { world.table slot with hasReply := true }
    some (((world.setChannel slot channel).setCall p none).observe
      (.answered p (world.received p slot) data))

def timeout (world : ChannelWorld Process) (p : Process) : Activity → Option (ChannelWorld Process)
  | .sendWait send => some ((world.setCall p none).observe (.returned send.id none))
  | .sendAwait send =>
    some ({ world.setCall p none with
            abandoned := update world.abandoned send.slot true }.observe
      (.returned send.id none))
  | .receiveWait _ => some (world.setCall p none)
  | _ => none

def step (pid : Nat) (world : ChannelWorld Process) (label : Process × ProcessStep) :
    Option (ChannelWorld Process) :=
  match label.2, world.calls label.1 with
  | .call call, none => some (world.begin pid label.1 call)
  | .advance, some activity => world.advance pid label.1 activity
  | .timeout, some activity => world.timeout label.1 activity
  | _, _ => none

end ChannelWorld

/-- The processes of a runtime that reports `pid`. -/
def processMachine (Process : Type) [DecidableEq Process] (pid : Nat) :
    Machine (ChannelWorld Process) (Process × ProcessStep) :=
  .ofStep .start (ChannelWorld.step pid)

/-- What an observation promises, given the earlier ones. -/
def Observation.Promise {Process : Type} (earlier : List (Observation Process)) :
    Observation Process → Prop
  | .received _ send _ => ∃ id, send = some id ∧ ∀ delivered, .returned id delivered ∉ earlier
  | .answered _ send _ => ∃ id, send = some id ∧ ∀ delivered, .returned id delivered ∉ earlier
  | .returned id (some bytes) => ∃ service, .answered service (some id) bytes ∈ earlier
  | .returned _ none => True

/-- Every successful Send got the reply to its own request, and no request is received or
answered after its Send returned. -/
def Paired {Process : Type} : List (Observation Process) → Prop
  | [] => True
  | observation :: earlier => observation.Promise earlier ∧ Paired earlier

end Zapada.Ipc
