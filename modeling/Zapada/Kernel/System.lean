import Zapada.Foundation.Machine
import Zapada.Kernel.Ipc

/-! Threads, channels and processes together: the blocking calls, the scheduling
system calls and process exit. A call that blocks ends its step at the context
switch; the thread continues its loop when it is current again. -/

namespace Zapada.Kernel

open Foundation Option

inductive SyscallResult where
  | ok
  | errInval
  | errAgain
deriving DecidableEq

/-- Which end of a channel a thread waits at. -/
inductive Direction where
  | sending
  | receiving
deriving DecidableEq

variable {n m : Nat}

namespace Channel

def waiter (channel : Channel n) : Direction → Option (Fin n)
  | .sending => channel.blockedSender
  | .receiving => channel.blockedReceiver

def setWaiter (channel : Channel n) (waiter : Option (Fin n)) : Direction → Channel n
  | .sending => { channel with blockedSender := waiter }
  | .receiving => { channel with blockedReceiver := waiter }

end Channel

def KernelState.setWaiter (kernel : KernelState n) (slot : Slot) (direction : Direction)
    (waiter : Option (Fin n)) : KernelState n :=
  kernel.setChannel slot ((kernel.ipc.channels slot).setWaiter waiter direction)

/-- How an attempt to give up the processor ends. -/
inductive Blocking (n : Nat) where
  | refused (s : Sched n)
  | undone (s : Sched n)
  | switched (s : Sched n)

/-- The undo path when no other thread is ready. -/
def Sched.undoBlock (s : Sched n) (current : Fin n) : Sched n :=
  let s := (schedEnqueue (s.setState current .ready) (some current)).2
  schedSetCurrent (s.setState current .running) (some current)

/-- Block the current thread and switch to the next ready one. -/
def Sched.blockCurrent (s : Sched n) (current : Fin n) : Blocking n :=
  match schedBlock s (some current) with
  | (false, s) => .refused s
  | (true, s) =>
    match schedDequeue s with
    | (none, s) => .undone (s.undoBlock current)
    | (some next, s) => .switched (schedContextSwitch s (some current) (some next))

/-- A blocking call in progress, with its channel and its arguments. -/
inductive PendingCall where
  | send (h : Nat) (slot : Slot) (msg : Message)
  | recv (h : Nat) (slot : Slot) (typeFilter : UInt32)
deriving DecidableEq

namespace PendingCall

def handle : PendingCall → Nat
  | send h _ _ => h
  | recv h _ _ => h

def slot : PendingCall → Slot
  | send _ slot _ => slot
  | recv _ slot _ => slot

def direction : PendingCall → Direction
  | send .. => .sending
  | recv .. => .receiving

end PendingCall

/-- The result of one round of the loop in `ipc_send` or `ipc_recv`: a result
for the caller, or nothing yet because another thread runs. -/
abbrev Round (n : Nat) := Option (IpcResult × Option Message) × KernelState n

/-- The rest of a round after the channel was found full or empty. -/
def KernelState.waitOn (kernel : KernelState n) (slot : Slot) (direction : Direction) : Round n :=
  match kernel.sched.current with
  | none => (some (.errAgain, none), kernel)
  | some current =>
    let kernel := kernel.setWaiter slot direction (some current)
    match kernel.sched.blockCurrent current with
    | .refused s =>
      (some (.errAgain, none), { kernel.setWaiter slot direction none with sched := s })
    | .undone s =>
      (some (.errAgain, none), { kernel.setWaiter slot direction none with sched := s })
    | .switched s => (none, { kernel with sched := s })

def KernelState.round (kernel : KernelState n) : PendingCall → Round n
  | .send h slot msg =>
    match ipcTrysend kernel h (some msg) with
    | (.errFull, kernel) => kernel.waitOn slot .sending
    | (r, kernel) => (some (r, none), kernel)
  | .recv h slot typeFilter =>
    match ipcTryrecv kernel h typeFilter true with
    | (.errEmpty, _, kernel) => kernel.waitOn slot .receiving
    | (r, msg, kernel) => (some (r, msg), kernel)

def KernelState.checkCall (kernel : KernelState n) (h : Nat) (given : Bool) :
    Except IpcResult Slot :=
  if h = ipcHandleInvalid ∨ given = false then .error .errInval
  else
    match chanFromHandle kernel.ipc h with
    | none => .error .errInval
    | some slot =>
      match (kernel.ipc.channels slot).state with
      | .chanFree => .error .errInval
      | .chanClosed => .error .errClosed
      | .chanOpen => .ok slot

theorem checkCall_ok {kernel : KernelState n} (admitted : kernel.checkCall h given = .ok slot) :
    h ≠ ipcHandleInvalid ∧ given = true ∧ chanFromHandle kernel.ipc h = some slot ∧
      (kernel.ipc.channels slot).state = .chanOpen := by
  unfold KernelState.checkCall at admitted
  split at admitted
  · contradiction
  · rename_i valid
    split at admitted
    · contradiction
    · rename_i s named
      split at admitted
      · contradiction
      · contradiction
      · rename_i opened
        cases admitted
        rw [not_or] at valid
        exact ⟨valid.1, by simpa using valid.2, named, opened⟩

theorem checkCall_error {kernel : KernelState n} (refused : kernel.checkCall h given = .error r) :
    r ≠ .ok := by
  unfold KernelState.checkCall at refused
  repeat' split at refused
  all_goals
    cases refused
    try decide

def processMaxThreads : Nat := 4
def tidInvalid : Nat := 0

structure Process (n : Nat) where
  state : ProcessState
  exitCode : Int
  threads : Fin processMaxThreads → Fin n

/-- Kernel data, the processes, and for each thread the blocking call it is in. -/
structure System (n m : Nat) where
  kernel : KernelState n
  processes : Fin m → Process n
  calls : Fin n → Option PendingCall

/-- Everything that changes thread states, priorities or run queues. -/
inductive Operation (n m : Nat) where
  | enqueue (t : Option (Fin n))
  | dequeue
  | yield (current : Option (Fin n))
  | tick (current : Option (Fin n))
  | next (current : Option (Fin n))
  | block (t : Option (Fin n))
  | unblock (t : Option (Fin n))
  | contextSwitch (prev next : Option (Fin n))
  | ipc (call : IpcCall)
  | send (h : Nat) (msg : Option Message)
  | recv (h : Nat) (typeFilter : UInt32) (msgOut : Bool)
  | resume
  | sysYield
  | sysBlock
  | sysSetPriority (arg0 : Nat)
  | sysSleep (arg0 : Nat)
  | processExit (p : Option (Fin m)) (exitCode : Int)
deriving DecidableEq

inductive Reply (n : Nat) where
  | done
  | flag (success : Bool)
  | thread (t : Option (Fin n))
  | ipc (reply : IpcReply)
  | syscall (result : SyscallResult)
  | switched
deriving DecidableEq

/-- `handle_yield` and `handle_sched_sleep`, which differ in their output only. -/
def handleYield (s : Sched n) : SyscallResult × Sched n :=
  match s.current with
  | none => (.ok, s)
  | some current =>
    match schedYield s (some current) with
    | (false, s) => (.ok, s)
    | (true, s) =>
      match schedDequeue s with
      | (none, s) => (.ok, schedSetCurrent (s.setState current .running) (some current))
      | (some next, s) => (.ok, schedContextSwitch s (some current) (some next))

def handleSchedSleep (s : Sched n) (_arg0 : Nat) : SyscallResult × Sched n := handleYield s

def handleSchedBlock (s : Sched n) : SyscallResult × Sched n :=
  match s.current with
  | none => (.ok, s)
  | some current =>
    match s.blockCurrent current with
    | .refused s => (.errInval, s)
    | .undone s => (.errAgain, s)
    | .switched s => (.ok, s)

def Thread.withPriority (thread : Thread n) (priority : Nat) : Thread n :=
  { thread with priority }

def handleSchedSetPriority (s : Sched n) (arg0 : Nat) : SyscallResult × Sched n :=
  let newPrio := arg0 &&& 0xFFFFFFFF
  if schedPrioMax ≤ newPrio then (.errInval, s)
  else
    match s.current with
    | none => (.errAgain, s)
    | some current => (.ok, s.setThread current (·.withPriority newPrio))

/-- One slot of the loop in `process_exit`. -/
def exitThread (s : Sched n) (t : Fin n) : Sched n :=
  if (s.threads t).tid ≠ tidInvalid ∧ s.stateOf t ≠ .zombie then s.setState t .zombie else s

def processExit (system : System n m) (p : Option (Fin m)) (exitCode : Int) : Bool × System n m :=
  match p with
  | none => (false, system)
  | some p =>
    let process := system.processes p
    let s := (List.finRange processMaxThreads).foldl
      (fun s slot => exitThread s (process.threads slot)) system.kernel.sched
    (true, { system with
      kernel := { system.kernel with sched := s }
      processes := Function.update system.processes p { process with state := .zombie, exitCode } })

namespace System

def setSched (system : System n m) (s : Sched n) : System n m :=
  { system with kernel := { system.kernel with sched := s } }

/-- Is the current thread in the middle of a blocking call? -/
def inCall (system : System n m) : Option PendingCall :=
  system.kernel.sched.current.bind system.calls

/-- One round of a blocking call of the current thread. -/
def runRound (system : System n m) (call : PendingCall) : Reply n × System n m :=
  match system.kernel.round call with
  | (some (r, msg), kernel) =>
    (.ipc (.received r msg), { system with kernel, calls := match system.kernel.sched.current with
          | none => system.calls
          | some t => Function.update system.calls t none })
  | (none, kernel) =>
    (.switched, { system with kernel, calls := match system.kernel.sched.current with
          | none => system.calls
          | some t => Function.update system.calls t (some call) })

def enterCall (system : System n m) (h : Nat) (given : Bool) (call : Slot → PendingCall) :
    Reply n × System n m :=
  match system.kernel.checkCall h given with
  | .error r => (.ipc (.result r), system)
  | .ok slot => system.runRound (call slot)

/-- The operations of kernel code that is handed any threads as arguments. -/
def schedStep (system : System n m) (s : Sched n) : Operation n m → Option (Reply n × System n m)
  | .enqueue t => some (.flag (schedEnqueue s t).1, system.setSched (schedEnqueue s t).2)
  | .dequeue => some (.thread (schedDequeue s).1, system.setSched (schedDequeue s).2)
  | .yield t => some (.flag (schedYield s t).1, system.setSched (schedYield s t).2)
  | .tick t => some (.done, system.setSched (schedTick s t))
  | .next t => some (.thread (schedNext s t).1, system.setSched (schedNext s t).2)
  | .block t => some (.flag (schedBlock s t).1, system.setSched (schedBlock s t).2)
  | .unblock t => some (.flag (schedUnblock s t).1, system.setSched (schedUnblock s t).2)
  | .contextSwitch prev next => some (.done, system.setSched (schedContextSwitch s prev next))
  | .sysYield => some (.syscall (handleYield s).1, system.setSched (handleYield s).2)
  | .sysBlock => some (.syscall (handleSchedBlock s).1, system.setSched (handleSchedBlock s).2)
  | .sysSetPriority arg0 =>
    some (.syscall (handleSchedSetPriority s arg0).1,
      system.setSched (handleSchedSetPriority s arg0).2)
  | .sysSleep arg0 =>
    some (.syscall (handleSchedSleep s arg0).1, system.setSched (handleSchedSleep s arg0).2)
  | .processExit p exitCode =>
    some (.flag (processExit system p exitCode).1, (processExit system p exitCode).2)
  | _ => none

/-- Channel and system calls are made by the running code, so not in the middle of
a blocking call; a call in progress can only go on. -/
def step (system : System n m) (operation : Operation n m) : Option (Reply n × System n m) :=
  match operation, system.inCall with
  | .ipc call, none =>
    some (.ipc (system.kernel.ipcCall call).1,
      { system with kernel := (system.kernel.ipcCall call).2 })
  | .send h (some msg), none => some (system.enterCall h true fun slot => .send h slot msg)
  | .send _ none, none => some (.ipc (.result .errInval), system)
  | .recv h typeFilter msgOut, none =>
    some (system.enterCall h msgOut fun slot => .recv h slot typeFilter)
  | .resume, some call => some (system.runRound call)
  | .ipc _, some _ | .send .., some _ | .recv .., some _ | .resume, none => none
  | .sysYield, some _ | .sysBlock, some _ | .sysSetPriority _, some _ | .sysSleep _, some _ => none
  | operation, _ => system.schedStep system.kernel.sched operation

theorem step_ipc {system after : System n m}
    (taken : system.step (.ipc call) = some (reply, after)) :
    system.inCall = none ∧ reply = .ipc (system.kernel.ipcCall call).1 ∧
      after = { system with kernel := (system.kernel.ipcCall call).2 } := by
  cases idle : system.inCall with
  | some call => simp [step, idle] at taken
  | none =>
    simp only [step, idle, some.injEq, Prod.mk.injEq] at taken
    exact ⟨rfl, taken.1.symm, taken.2.symm⟩

theorem step_send {system after : System n m}
    (taken : system.step (.send h msg) = some (reply, after)) :
    system.inCall = none ∧
      ((msg = none ∧ reply = .ipc (.result .errInval) ∧ after = system) ∨ ∃ m, msg = some m ∧
      system.enterCall h true (fun slot => .send h slot m) = (reply, after)) := by
  cases idle : system.inCall with
  | some call => cases msg <;> simp [step, idle] at taken
  | none =>
    cases msg with
    | none =>
      simp only [step, idle, some.injEq, Prod.mk.injEq] at taken
      exact ⟨rfl, .inl ⟨rfl, taken.1.symm, taken.2.symm⟩⟩
    | some m =>
      simp only [step, idle, some.injEq] at taken
      exact ⟨rfl, .inr ⟨m, rfl, taken⟩⟩

theorem step_recv {system after : System n m}
    (taken : system.step (.recv h typeFilter msgOut) = some (reply, after)) : system.inCall = none ∧
      system.enterCall h msgOut (fun slot => .recv h slot typeFilter) = (reply, after) := by
  cases idle : system.inCall with
  | some call => simp [step, idle] at taken
  | none =>
    simp only [step, idle, some.injEq] at taken
    exact ⟨rfl, taken⟩

theorem step_resume {system after : System n m}
    (taken : system.step .resume = some (reply, after)) :
    ∃ call, system.inCall = some call ∧ system.runRound call = (reply, after) := by
  cases busy : system.inCall with
  | none => simp [step, busy] at taken
  | some call =>
    simp only [step, busy, some.injEq] at taken
    exact ⟨call, rfl, taken⟩

/-- System calls are scheduler operations of a thread that is in no other call. -/
theorem step_syscall {system after : System n m}
    (syscall : operation = .sysYield ∨ operation = .sysBlock ∨
      (∃ arg0, operation = .sysSetPriority arg0) ∨ ∃ arg0, operation = .sysSleep arg0)
    (taken : system.step operation = some (reply, after)) : system.inCall = none ∧
      system.schedStep system.kernel.sched operation = some (reply, after) := by
  cases idle : system.inCall with
  | some call =>
    rcases syscall with rfl | rfl | ⟨arg0, rfl⟩ | ⟨arg0, rfl⟩ <;> simp [step, idle] at taken
  | none =>
    rcases syscall with rfl | rfl | ⟨arg0, rfl⟩ | ⟨arg0, rfl⟩ <;>
      simp only [step, idle] at taken <;> exact ⟨rfl, taken⟩

end System

/-- The kernel from any of the given first states. -/
def kernelMachine (start : System n m → Prop) : Machine (System n m) (Operation n m × Reply n) where
  initial := start
  step before label after := before.step label.1 = some (label.2, after)

/-- The state after an operation that is enabled. -/
def System.perform (system : System n m) (operation : Operation n m) : System n m :=
  ((system.step operation).map Prod.snd).getD system

/-- A run goes on with any operation that is enabled and that the machine admits. -/
theorem System.run_perform {machine : Machine (System n m) (Operation n m × Reply n)}
    (run : ∃ log, machine.Run log system) (operation : Operation n m)
    (enabled : (system.step operation).isSome)
    (admits : ∀ reply after, system.step operation = some (reply, after) →
      machine.step system (operation, reply) after) :
      ∃ log, machine.Run log (system.perform operation) := by
  obtain ⟨log, run⟩ := run
  obtain ⟨⟨reply, after⟩, taken⟩ := isSome_iff_exists.mp enabled
  rw [System.perform, taken]
  exact ⟨_, run.next (admits reply after taken)⟩

end Zapada.Kernel
