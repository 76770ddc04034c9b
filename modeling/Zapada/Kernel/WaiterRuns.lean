import Zapada.Kernel.RunQueueRuns
import Zapada.Kernel.Waiters

namespace Zapada.Kernel

open Foundation KernelState

variable {n m : Nat} {system : System n m}

theorem Watched.runRound (watched : Watched system.kernel system.calls) (call : PendingCall)
    (low : call.handle &&& 0xFF = call.slot + 1)
    (alone : system.kernel.noneWaits system.calls call.handle call.direction) :
    Watched (system.runRound call).2.kernel (system.runRound call).2.calls := by
  have returns : ∀ result after, system.kernel.round call = (some result, after) →
    Watched after system.calls →
      Watched (system.runRound call).2.kernel (system.runRound call).2.calls := by
    intro result after returned kept
    simp only [System.runRound, returned]
    cases system.kernel.sched.current with
    | none => exact kept
    | some t => exact kept.returned t
  rcases watched.round low with ⟨result, after, returned, kept⟩ | ⟨waits, named, level⟩
  · exact returns result after returned kept
  · rcases watched.waitOn named level alone with
      ⟨result, after, returned, kept⟩ | ⟨c, after, current, blocked, kept⟩
    · exact returns result after (waits.trans returned) kept
    · simp only [System.runRound, waits, blocked, current]
      exact kept

theorem Watched.enterCall (watched : Watched system.kernel system.calls)
    (call : Slot → PendingCall) (handle : ∀ slot, (call slot).handle = h)
    (slot : ∀ slot, (call slot).slot = slot) (given : Bool)
    (alone : ∀ slot, system.kernel.noneWaits system.calls h (call slot).direction) :
    Watched (system.enterCall h given call).2.kernel (system.enterCall h given call).2.calls := by
  simp only [System.enterCall]
  cases admitted : system.kernel.checkCall h given with
  | error r => exact watched
  | ok s =>
    obtain ⟨-, -, named, -⟩ := checkCall_ok admitted
    refine watched.runRound (call s) ?_ ?_
    · rw [handle, slot]
      exact (chanFromHandle_eq_some.mp named).1
    · rw [handle]
      exact alone s

/-- The operations of threads that use channels. -/
def channelOperation : Operation n m → Prop
  | .ipc _ | .send .. | .recv .. | .resume | .sysYield | .sysSleep _ | .tick _ => True
  | _ => False

/-- A thread enters or retries a blocking call only while no other thread is
blocked in the same direction on that channel, and destroys a channel only while
no thread is blocked on it. -/
def waitsAlone (system : System n m) : Operation n m → Prop
  | .send h _ => system.kernel.noneWaits system.calls h .sending
  | .recv h _ _ => system.kernel.noneWaits system.calls h .receiving
  | .resume =>
    ∀ call ∈ system.inCall, system.kernel.noneWaits system.calls call.handle call.direction
  | .ipc (.channelDestroy h) => ∀ direction, system.kernel.noneWaits system.calls h direction
  | _ => True

/-- Channels just initialised, no thread inside a call, well-formed run queues. -/
structure quiet (system : System n m) : Prop where
  ipc : ∃ blank, system.kernel.ipc = ipcInit blank
  calls : ∀ t, system.calls t = none
  structured : Structured system.kernel.sched
  awake : system.kernel.sched.awake

theorem quiet.watched (start : quiet system) : Watched system.kernel system.calls := by
  obtain ⟨blank, fresh⟩ := start.ipc
  refine ⟨?_, start.structured, start.awake, by simp [start.calls], ?_⟩
  · rw [fresh]
    exact fun slot => channelOk_free slot _
  · intro t call _ busy
    simp [start.calls t] at busy

theorem step_watched (watched : Watched system.kernel system.calls)
    (allowed : channelOperation operation) (alone : waitsAlone system operation)
    (taken : system.step operation = some (reply, after)) : Watched after.kernel after.calls := by
  cases operation with
  | ipc call =>
    obtain ⟨-, -, rfl⟩ := System.step_ipc taken
    cases call with
    | channelCreate => exact watched.channelCreate
    | channelDestroy h => exact watched.channelDestroy alone
    | trysend h msg => exact watched.trysend h msg
    | tryrecv h typeFilter msgOut => exact watched.tryrecv h typeFilter msgOut
  | send h msg =>
    obtain ⟨-, ⟨-, -, rfl⟩ | ⟨given, -, entered⟩⟩ := System.step_send taken
    · exact watched
    · have kept := watched.enterCall (fun slot => .send h slot given) (fun _ => rfl)
        (fun _ => rfl) true fun _ => alone
      rwa [entered] at kept
  | recv h typeFilter msgOut =>
    obtain ⟨-, entered⟩ := System.step_recv taken
    have kept := watched.enterCall (fun slot => .recv h slot typeFilter) (fun _ => rfl)
      (fun _ => rfl) msgOut fun _ => alone
    rwa [entered] at kept
  | resume =>
    obtain ⟨call, busy, ran⟩ := System.step_resume taken
    obtain ⟨t, -, inCall⟩ := Option.bind_eq_some_iff.mp busy
    have kept := watched.runRound call (watched.slots t call inCall) (alone call busy)
    rwa [ran] at kept
  | sysYield =>
    obtain ⟨-, stepped⟩ := System.step_syscall (.inl rfl) taken
    cases stepped
    exact watched.calm (handleYield_calm watched.structured watched.awake)
  | sysSleep arg0 =>
    obtain ⟨-, stepped⟩ := System.step_syscall (.inr (.inr (.inr ⟨arg0, rfl⟩))) taken
    cases stepped
    exact watched.calm (handleYield_calm watched.structured watched.awake)
  | tick t =>
    cases taken
    exact watched.calm (schedTick_calm watched.structured watched.awake t)
  | _ => exact absurd allowed not_false

/-- A thread is ready and on a run queue. -/
def Runnable (s : Sched n) (t : Fin n) : Prop := s.stateOf t = .ready ∧ s.isQueued t

/-- A send or receive that succeeded at the other end of the channel. -/
def KernelState.Served (kernel : KernelState n) (h : Nat) (direction : Direction)
    (after : KernelState n) : Prop :=
  ∃ slot channel, chanFromHandle kernel.ipc h = some slot ∧
    after = (kernel.setChannel slot channel).wake ((kernel.ipc.channels slot).waiter direction)

section Served

variable {kernel : KernelState n}

theorem trysend_served (pool : Pool kernel.ipc) (h : Nat) (msg : Option Message)
    (ok : (ipcTrysend kernel h msg).1 = .ok) :
    kernel.Served h .receiving (ipcTrysend kernel h msg).2 := by
  rcases ipcTrysend_spec pool h msg with ⟨r, refused, result, -⟩ | ⟨slot, m, -, here, -, accepted⟩
  · rw [result] at ok
    exact absurd ok refused
  · rw [accepted]
    exact ⟨slot, _, here, rfl⟩

theorem tryrecv_served (pool : Pool kernel.ipc) (h : Nat) (typeFilter : UInt32) (msgOut : Bool)
    (ok : (ipcTryrecv kernel h typeFilter msgOut).1 = .ok) :
    kernel.Served h .sending (ipcTryrecv kernel h typeFilter msgOut).2.2 := by
  rcases ipcTryrecv_spec pool h typeFilter msgOut with
    ⟨r, refused, result, -⟩ | ⟨slot, here, -, accepted⟩
  · rw [result] at ok
    exact absurd ok refused
  · rw [accepted]
    exact ⟨slot, _, here, rfl⟩

theorem waitOn_not_ok (kernel : KernelState n) (slot : Slot) (direction : Direction) :
    (kernel.waitOn slot direction).1 ≠ some (.ok, msg) := by
  simp only [waitOn]
  repeat' split
  all_goals simp

/-- A round that returns with success has served the other end. -/
theorem round_served (pool : Pool kernel.ipc) (ok : (kernel.round call).1 = some (.ok, msg)) :
    kernel.roundResult call = .ok ∧
      kernel.Served call.handle call.direction.opposite (kernel.round call).2 := by
  cases call with
  | send h slot sent =>
    have served := trysend_served pool h (some sent)
    simp only [KernelState.round, roundResult] at ok ⊢
    split at ok
    · exact absurd ok (waitOn_not_ok _ slot .sending)
    · rename_i r after notFull result
      rw [result] at served ⊢
      cases ok
      exact ⟨rfl, served rfl⟩
  | recv h slot typeFilter =>
    have served := tryrecv_served pool h typeFilter true
    simp only [KernelState.round, roundResult] at ok ⊢
    split at ok
    · exact absurd ok (waitOn_not_ok _ slot .receiving)
    · rename_i r received after notEmpty result
      rw [result] at served ⊢
      cases ok
      exact ⟨rfl, served rfl⟩

/-- Serving the end of a channel at which a blocked thread is recorded makes it runnable. -/
theorem KernelState.Served.runnable {after : KernelState n}
    (served : kernel.Served call.handle call.direction after) (structured : Structured kernel.sched)
    (blocked : kernel.sched.stateOf t = .blocked) (recorded : Recorded kernel.ipc t call)
    (room : kernel.sched.roomFor t) : Runnable after.sched t := by
  obtain ⟨slot, channel, named, rfl⟩ := served
  cases named.symm.trans recorded.named
  obtain ⟨-, -, states⟩ := schedUnblock_effect structured t
  rw [recorded.waiter]
  refine ⟨?_, schedUnblock_queued structured blocked room.1 room.2⟩
  simp [wake, KernelState.setChannel, states, blocked]

end Served

/-- An operation reports that it sent or received a message. -/
def Reply.succeeds : Reply n → Prop
  | .ipc reply => ¬ reply.failed
  | _ => False

/-- The operation sends or receives at the other end of the channel that the call waits at. -/
def System.serves (system : System n m) (operation : Operation n m) (call : PendingCall) : Prop :=
  ∃ result, system.attempt operation = some (call.handle, call.direction, result)

theorem runRound_served (pool : Pool system.kernel.ipc)
    (ran : system.runRound call = (reply, after))
    (success : reply.succeeds) : system.kernel.roundResult call = .ok ∧
      system.kernel.Served call.handle call.direction.opposite after.kernel := by
  simp only [System.runRound] at ran
  split at ran
  · rename_i r msg kernel returned
    cases ran
    obtain rfl : r = .ok := by simpa [Reply.succeeds, IpcReply.failed] using success
    have served := round_served pool (congrArg Prod.fst returned)
    rwa [returned] at served
  · cases ran
    exact absurd success not_false

theorem enterCall_served (pool : Pool system.kernel.ipc) (call : Slot → PendingCall)
    (entered : system.enterCall h given call = (reply, after)) (success : reply.succeeds) :
    given = true ∧ ∃ slot, system.kernel.roundResult (call slot) = .ok ∧
      system.kernel.Served (call slot).handle (call slot).direction.opposite after.kernel := by
  simp only [System.enterCall] at entered
  split at entered
  · rename_i r refused
    cases entered
    have ok : r = .ok := by simpa [Reply.succeeds, IpcReply.failed] using success
    exact absurd ok (checkCall_error refused)
  · rename_i slot admitted
    exact ⟨(checkCall_ok admitted).2.1, slot, runRound_served pool entered success⟩

/-- A channel operation that succeeds did so at its first attempt. -/
theorem step_served (pool : Pool system.kernel.ipc)
    (serves : system.attempt operation = some (h, direction, result))
    (taken : system.step operation = some (reply, after)) (success : reply.succeeds) :
    result = .ok ∧ system.kernel.Served h direction after.kernel := by
  cases operation with
  | ipc call =>
    obtain ⟨-, rfl, rfl⟩ := System.step_ipc taken
    cases call with
    | trysend h msg =>
      cases serves
      have ok : (ipcTrysend system.kernel h msg).1 = .ok := by
        simpa [Reply.succeeds, IpcReply.failed, ipcCall] using success
      exact ⟨ok, trysend_served pool _ _ ok⟩
    | tryrecv h typeFilter msgOut =>
      cases serves
      have ok : (ipcTryrecv system.kernel h typeFilter msgOut).1 = .ok := by
        simpa [Reply.succeeds, IpcReply.failed, ipcCall] using success
      exact ⟨ok, tryrecv_served pool _ _ _ ok⟩
    | _ => cases serves
  | send h msg =>
    obtain ⟨-, ⟨-, rfl, -⟩ | ⟨m, rfl, entered⟩⟩ := System.step_send taken
    · simp [Reply.succeeds, IpcReply.failed] at success
    · cases serves
      exact (enterCall_served pool _ entered success).2.choose_spec
  | recv h typeFilter msgOut =>
    obtain ⟨-, entered⟩ := System.step_recv taken
    obtain ⟨rfl, slot, served⟩ := enterCall_served pool _ entered success
    cases serves
    exact served
  | resume =>
    obtain ⟨call, busy, ran⟩ := System.step_resume taken
    simp only [System.attempt, busy, Option.map_some] at serves
    cases serves
    exact runRound_served pool ran success
  | _ => cases serves

/-- No thread blocked in a call is without its record, or at a channel that is
closed or no longer full or empty. -/
def NoLostWaiter (system : System n m) : Prop :=
  ∀ t call, system.kernel.sched.stateOf t = .blocked → system.calls t = some call →
    (system.kernel.ipc.channels call.slot).state = .chanOpen ∧ Recorded system.kernel.ipc t call

/-- Threads use channels only, wait alone, and wake a thread only when there is room for it. -/
def considerate (system : System n m) (label : Operation n m × Reply n) : Prop :=
  channelOperation label.1 ∧ waitsAlone system label.1 ∧
    ∀ t, system.wakes label.1 t → system.kernel.sched.roomFor t

/-- In a run in which every thread waits alone no waiter is lost, and a send or receive that
succeeds at the other end makes the waiter runnable. -/
theorem no_lost_waiter (run : ((kernelMachine quiet).guarded considerate).Run log system) :
    NoLostWaiter system ∧ ∀ t call operation reply after,
      system.kernel.sched.stateOf t = .blocked → system.calls t = some call →
      system.serves operation call → considerate system (operation, reply) →
      system.step operation = some (reply, after) → reply.succeeds →
      Runnable after.kernel.sched t := by
  have watched : Watched system.kernel system.calls := by
    induction run with
    | start first => exact first.watched
    | next earlier taken ih => exact step_watched ih taken.1.1 taken.1.2.1 taken.2
  refine ⟨fun t call blocked busy => ?_, ?_⟩
  · have recorded := watched.covers t call blocked busy
    exact ⟨watched.pool.opened recorded.named, recorded⟩
  · rintro t call operation reply after blocked busy ⟨result, serves⟩ ⟨-, -, room⟩ taken success
    have recorded := watched.covers t call blocked busy
    obtain ⟨rfl, served⟩ := step_served watched.pool serves taken success
    have woken : system.wakes operation t :=
      ⟨_, _, serves, ⟨_, recorded.named, recorded.waiter⟩, blocked⟩
    exact served.runnable watched.structured blocked recorded (room t woken)

theorem three_threads : NeZero 3 := ⟨by decide⟩

attribute [local instance] three_threads

/-- One running thread and two ready ones. -/
def readyThreads : System 3 1 :=
  ((threeThreads 3).perform (.unblock (some 1))).perform (.unblock (some 2))

theorem readyThreads_quiet : quiet readyThreads := by
  obtain ⟨lists, settled⟩ := threeThreads_wellQueued 3
  have first := (schedUnblock_effect ⟨lists, settled.queues⟩ 1).1
  exact ⟨⟨_, rfl⟩, fun _ => rfl, (schedUnblock_effect first 2).1, by decide +kernel⟩

def firstSlot : Slot := ⟨0, by decide⟩

def firstHandle : Nat := handleOf 1 firstSlot

/-- The running thread creates a channel and waits for a message. -/
def oneReceiver : System 3 1 :=
  (readyThreads.perform (.ipc .channelCreate)).perform (.recv firstHandle ipcMsgTypeAny true)

/-- The waiting receiver is recorded, and a message makes it runnable. -/
theorem no_lost_waiter_one_receiver : oneReceiver.kernel.sched.stateOf 0 = .blocked ∧
      oneReceiver.calls 0 = some (.recv firstHandle firstSlot ipcMsgTypeAny) ∧
      NoLostWaiter oneReceiver ∧
      ∀ msg, Runnable (oneReceiver.perform (.send firstHandle (some msg))).kernel.sched 0 := by
  have start : ∃ log, ((kernelMachine quiet).guarded considerate).Run log readyThreads :=
    ⟨[], .start readyThreads_quiet⟩
  have created := System.run_perform start (.ipc .channelCreate) rfl
    fun _ _ => .intro ⟨trivial, trivial, by rintro t ⟨h, direction, ⟨⟩, -⟩⟩
  have nobody : (readyThreads.perform (.ipc .channelCreate)).kernel.noneWaits
      (readyThreads.perform (.ipc .channelCreate)).calls firstHandle .receiving := by
    decide +kernel
  have room : ∀ t, (readyThreads.perform (.ipc .channelCreate)).kernel.sched.roomFor t :=
    fun t => ⟨by decide +kernel, by decide +kernel +revert⟩
  obtain ⟨log, run⟩ := System.run_perform created (.recv firstHandle ipcMsgTypeAny true) rfl
    fun _ _ => .intro ⟨trivial, nobody, fun t _ => room t⟩
  obtain ⟨recorded, answered⟩ := no_lost_waiter run
  refine ⟨by decide +kernel, by decide +kernel, recorded, fun msg => ?_⟩
  have alone : waitsAlone oneReceiver (.send firstHandle (some msg)) := by
    show oneReceiver.kernel.noneWaits oneReceiver.calls firstHandle .sending
    decide +kernel
  have room : ∀ t, oneReceiver.kernel.sched.roomFor t :=
    fun t => ⟨by decide +kernel, by decide +kernel +revert⟩
  exact answered 0 (.recv firstHandle firstSlot ipcMsgTypeAny) (.send firstHandle (some msg))
    (.ipc (.received .ok none)) _ (by decide +kernel) rfl ⟨_, rfl⟩
    ⟨trivial, alone, fun t _ => room t⟩ rfl (by simp [Reply.succeeds, IpcReply.failed])

/-- Two threads that wait for messages of one channel, and a channel destroyed
under the thread that waits at it. -/
theorem waiters_get_lost :
    (∃ log, ((kernelMachine quiet).guarded fun _ label => channelOperation label.1).Run log
        (oneReceiver.perform (.recv firstHandle ipcMsgTypeAny true)) ∧
      ¬ NoLostWaiter (oneReceiver.perform (.recv firstHandle ipcMsgTypeAny true))) ∧
    ∃ log, ((kernelMachine quiet).guarded fun _ label => channelOperation label.1).Run log
        (oneReceiver.perform (.ipc (.channelDestroy firstHandle))) ∧
      ¬ NoLostWaiter (oneReceiver.perform (.ipc (.channelDestroy firstHandle))) := by
  have start : ∃ log, ((kernelMachine quiet).guarded fun _ label =>
      channelOperation label.1).Run log readyThreads :=
    ⟨[], .start readyThreads_quiet⟩
  have created := System.run_perform start (.ipc .channelCreate) rfl fun _ _ => .intro trivial
  have waiting := System.run_perform created (.recv firstHandle ipcMsgTypeAny true) rfl
    fun _ _ => .intro trivial
  refine ⟨?_, ?_⟩
  · obtain ⟨log, run⟩ := System.run_perform waiting
      (.recv firstHandle ipcMsgTypeAny true) rfl fun _ _ => .intro trivial
    refine ⟨log, run, fun kept => ?_⟩
    have recorded :=
      (kept 0 (.recv firstHandle firstSlot ipcMsgTypeAny) (by decide +kernel) rfl).2.waiter
    exact absurd recorded (by decide +kernel)
  · obtain ⟨log, run⟩ := System.run_perform waiting
      (.ipc (.channelDestroy firstHandle)) rfl fun _ _ => .intro trivial
    refine ⟨log, run, fun kept => ?_⟩
    have opened := (kept 0 (.recv firstHandle firstSlot ipcMsgTypeAny) (by decide +kernel) rfl).1
    exact absurd opened (by decide +kernel)

end Zapada.Kernel
