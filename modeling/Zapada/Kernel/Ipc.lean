import Zapada.Foundation.RingBuffer
import Zapada.Kernel.Sched

/-! Typed message channels: a static pool of bounded ring buffers. A successful
send or receive wakes the thread that waits at the other end. -/

namespace Zapada.Kernel

open Foundation

def ipcChannelCapacity : Nat := 8
def ipcMaxChannels : Nat := 16
def ipcMsgPayloadMax : Nat := 64
def ipcMsgTypeAny : UInt32 := 0
def ipcHandleInvalid : Nat := 0

inductive IpcResult where
  | ok
  | errInval
  | errFull
  | errEmpty
  | errAgain
  | errType
  | errClosed
  | errNoslot
deriving DecidableEq

inductive ChannelState where
  | chanFree
  | chanOpen
  | chanClosed
deriving DecidableEq

structure Message where
  type : UInt32
  payloadLen : UInt32
  payload : Vector UInt64 (ipcMsgPayloadMax / 8)
deriving DecidableEq

structure Channel (n : Nat) where
  state : ChannelState
  handle : Nat
  head : Nat
  tail : Nat
  count : Nat
  ring : Nat → Message
  blockedSender : Option (Fin n)
  blockedReceiver : Option (Fin n)

abbrev Slot := Fin ipcMaxChannels

structure Ipc (n : Nat) where
  channels : Slot → Channel n
  nextGeneration : Nat

/-- The kernel data that the channels and the scheduler share. -/
structure KernelState (n : Nat) where
  sched : Sched n
  ipc : Ipc n

variable {n : Nat}

def Ipc.setChannel (ipc : Ipc n) (slot : Slot) (channel : Channel n) : Ipc n :=
  { ipc with channels := Function.update ipc.channels slot channel }

def KernelState.setChannel (kernel : KernelState n) (slot : Slot) (channel : Channel n) :
    KernelState n :=
  { kernel with ipc := kernel.ipc.setChannel slot channel }

/-- `chan_from_handle`: the low byte of a handle is the slot number plus one. -/
def chanFromHandle (ipc : Ipc n) (h : Nat) : Option Slot :=
  if h = ipcHandleInvalid then none
  else
    let idx := h &&& 0xFF
    if inPool : idx = 0 ∨ ipcMaxChannels < idx then none
    else
      let slot : Slot := ⟨idx - 1, by omega⟩
      if (ipc.channels slot).handle ≠ h then none else some slot

def msgCopy (src : Message) : Message where
  type := src.type
  payloadLen := src.payloadLen
  payload := Vector.ofFn fun i => src.payload[i]

/-- A channel without messages and waiters; the ring keeps its old cells. -/
def Channel.reset (channel : Channel n) (state : ChannelState) (handle : Nat) : Channel n :=
  { channel with state, handle, head := 0, tail := 0, count := 0,
                 blockedSender := none, blockedReceiver := none }

def ipcInit (ipc : Ipc n) : Ipc n where
  channels slot := (ipc.channels slot).reset .chanFree ipcHandleInvalid
  nextGeneration := 1

/-- The handle that `ipc_channel_create` gives to a slot. -/
def handleOf (generation : Nat) (slot : Slot) : Nat :=
  let h := ((generation &&& 0x00FFFFFF) <<< 8) ||| (slot + 1)
  if h = ipcHandleInvalid then slot + 1 else h

def ipcChannelCreate (kernel : KernelState n) : Nat × KernelState n :=
  match (List.finRange ipcMaxChannels).find? fun slot =>
      (kernel.ipc.channels slot).state = .chanFree with
  | none => (ipcHandleInvalid, kernel)
  | some slot =>
    let generation := kernel.ipc.nextGeneration
    let following := (generation + 1) % 2 ^ 32
    let h := handleOf generation slot
    let ipc := kernel.ipc.setChannel slot ((kernel.ipc.channels slot).reset .chanOpen h)
    (h, { kernel with ipc :=
            { ipc with nextGeneration := if following = 0 then 1 else following } })

def ipcChannelDestroy (kernel : KernelState n) (h : Nat) : IpcResult × KernelState n :=
  if h = ipcHandleInvalid then (.errInval, kernel)
  else
    match chanFromHandle kernel.ipc h with
    | none => (.errInval, kernel)
    | some slot =>
      let channel := kernel.ipc.channels slot
      if channel.state = .chanFree then (.errInval, kernel)
      else (.ok, kernel.setChannel slot (channel.reset .chanFree ipcHandleInvalid))

/-- Copy a message into the tail cell; the waiting receiver is about to be woken. -/
def Channel.push (channel : Channel n) (msg : Message) : Channel n :=
  { channel with
    ring := Function.update channel.ring channel.tail (msgCopy msg)
    tail := (channel.tail + 1) % ipcChannelCapacity
    count := channel.count + 1
    blockedReceiver := none }

/-- Drop the head cell; the waiting sender is about to be woken. -/
def Channel.pop (channel : Channel n) : Channel n :=
  { channel with
    head := (channel.head + 1) % ipcChannelCapacity
    count := channel.count - 1
    blockedSender := none }

/-- Wake the thread in a waiter slot that was just cleared. -/
def KernelState.wake (kernel : KernelState n) (waiter : Option (Fin n)) : KernelState n :=
  match waiter with
  | none => kernel
  | some t => { kernel with sched := (schedUnblock kernel.sched (some t)).2 }

def ipcTrysend (kernel : KernelState n) (h : Nat) (msg : Option Message) :
    IpcResult × KernelState n :=
  match msg with
  | none => (.errInval, kernel)
  | some msg =>
    if h = ipcHandleInvalid then (.errInval, kernel)
    else
      match chanFromHandle kernel.ipc h with
      | none => (.errInval, kernel)
      | some slot =>
        let channel := kernel.ipc.channels slot
        if channel.state = .chanFree then (.errInval, kernel)
        else if channel.state = .chanClosed then (.errClosed, kernel)
        else if ipcChannelCapacity ≤ channel.count then (.errFull, kernel)
        else (.ok, (kernel.setChannel slot (channel.push msg)).wake channel.blockedReceiver)

/-- `ipc_tryrecv`; the flag says whether the caller gave a buffer, and the
message is what is copied into it. -/
def ipcTryrecv (kernel : KernelState n) (h : Nat) (typeFilter : UInt32) (msgOut : Bool) :
    IpcResult × Option Message × KernelState n :=
  if h = ipcHandleInvalid ∨ msgOut = false then (.errInval, none, kernel)
  else
    match chanFromHandle kernel.ipc h with
    | none => (.errInval, none, kernel)
    | some slot =>
      let channel := kernel.ipc.channels slot
      if channel.state = .chanFree then (.errInval, none, kernel)
      else if channel.state = .chanClosed then (.errClosed, none, kernel)
      else if channel.count = 0 then (.errEmpty, none, kernel)
      else
        let headMsg := channel.ring channel.head
        if typeFilter ≠ ipcMsgTypeAny ∧ headMsg.type ≠ typeFilter then (.errType, none, kernel)
        else
          (.ok, some (msgCopy headMsg), (kernel.setChannel slot channel.pop).wake
            channel.blockedSender)

def ipcChannelIsOpen (kernel : KernelState n) (h : Nat) : Bool :=
  if h = ipcHandleInvalid then false
  else
    match chanFromHandle kernel.ipc h with
    | none => false
    | some slot => (kernel.ipc.channels slot).state = .chanOpen

inductive IpcCall where
  | channelCreate
  | channelDestroy (h : Nat)
  | trysend (h : Nat) (msg : Option Message)
  | tryrecv (h : Nat) (typeFilter : UInt32) (msgOut : Bool)
deriving DecidableEq

inductive IpcReply where
  | handle (h : Nat)
  | result (r : IpcResult)
  | received (r : IpcResult) (msg : Option Message)
deriving DecidableEq

def IpcReply.failed : IpcReply → Prop
  | .handle h => h = ipcHandleInvalid
  | .result r => r ≠ .ok
  | .received r _ => r ≠ .ok

def KernelState.ipcCall (kernel : KernelState n) : IpcCall → IpcReply × KernelState n
  | .channelCreate =>
    let (h, kernel) := ipcChannelCreate kernel
    (.handle h, kernel)
  | .channelDestroy h =>
    let (r, kernel) := ipcChannelDestroy kernel h
    (.result r, kernel)
  | .trysend h msg =>
    let (r, kernel) := ipcTrysend kernel h msg
    (.result r, kernel)
  | .tryrecv h typeFilter msgOut =>
    let (r, msg, kernel) := ipcTryrecv kernel h typeFilter msgOut
    (.received r msg, kernel)

end Zapada.Kernel
