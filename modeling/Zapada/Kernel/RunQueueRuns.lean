import Zapada.Kernel.RunQueue

namespace Zapada.Kernel

open Foundation Kernel.System KernelState

variable {n m : Nat}

/-- `sched_dequeue` or `sched_next` returned the thread. -/
def handsOut (t : Fin n) : Operation n m × Reply n → Prop
  | (.dequeue, .thread returned) | (.next _, .thread returned) => returned = some t
  | _ => False

/-- The threads that are out after a step: handed out now or before, ready, and on no queue. -/
def stillOut (out : Fin n → Prop) (label : Operation n m × Reply n) (s : Sched n) (t : Fin n) :
    Prop :=
  (out t ∨ handsOut t label) ∧ s.stateOf t = .ready ∧ ¬ s.isQueued t

/-- The kernel, together with the threads that were handed out and have been ready and on no
run queue ever since. -/
def custodyMachine (start : System n m → Prop) :
    Machine (System n m × (Fin n → Prop)) (Operation n m × Reply n) where
  initial state := start state.1 ∧ state.2 = fun _ => False
  step before label after := (kernelMachine start).step before.1 label after.1 ∧
    after.2 = stillOut before.2 label after.1.kernel.sched

theorem custody_of_run {guard : System n m → Operation n m × Reply n → Prop}
    (run : ((kernelMachine start).guarded guard).Run log system) :
    ∃ out, ((custodyMachine start).guarded fun state => guard state.1).Run log (system, out) := by
  induction run with
  | start first => exact ⟨_, .start ⟨first, rfl⟩⟩
  | @next _ _ label after earlier taken ih =>
    obtain ⟨out, run⟩ := ih
    exact ⟨stillOut out label after.kernel.sched, run.next ⟨taken.1, taken.2, rfl⟩⟩

/-- If the current thread gives up the processor, another one is ready. -/
def Sched.canSwitch (s : Sched n) : Prop :=
  ∀ current, s.current = some current → s.otherQueued current

/-- The next round of the call finds the channel full or empty. -/
def KernelState.mayBlock (kernel : KernelState n) : PendingCall → Prop
  | .send h _ msg => (ipcTrysend kernel h (some msg)).1 = .errFull
  | .recv h _ typeFilter => (ipcTryrecv kernel h typeFilter true).1 = .errEmpty

/-- The end of a channel that is served from the other one. -/
def Direction.opposite : Direction → Direction
  | .sending => .receiving
  | .receiving => .sending

/-- A blocked thread is recorded at this end of the channel. -/
def KernelState.waits (kernel : KernelState n) (h : Nat) (direction : Direction) (t : Fin n) :
    Prop :=
  (∃ slot, chanFromHandle kernel.ipc h = some slot ∧
    (kernel.ipc.channels slot).waiter direction = some t) ∧ kernel.sched.stateOf t = .blocked

/-- What the next round of the call gets from `ipc_trysend` or `ipc_tryrecv`. -/
def KernelState.roundResult (kernel : KernelState n) : PendingCall → IpcResult
  | .send h _ msg => (ipcTrysend kernel h (some msg)).1
  | .recv h _ typeFilter => (ipcTryrecv kernel h typeFilter true).1

namespace System

/-- The handle of a channel operation, the end of the channel it serves, and the result of its
first attempt. -/
def attempt (system : System n m) : Operation n m → Option (Nat × Direction × IpcResult)
  | .ipc (.trysend h msg) | .send h msg =>
    some (h, .receiving, (ipcTrysend system.kernel h msg).1)
  | .ipc (.tryrecv h typeFilter msgOut) | .recv h typeFilter msgOut =>
    some (h, .sending, (ipcTryrecv system.kernel h typeFilter msgOut).1)
  | .resume => system.inCall.map fun call =>
    (call.handle, call.direction.opposite, system.kernel.roundResult call)
  | _ => none

/-- A send or receive that succeeds finds the thread blocked at the other end. -/
def wakes (system : System n m) (operation : Operation n m) (t : Fin n) : Prop :=
  ∃ h direction, system.attempt operation = some (h, direction, .ok) ∧
    system.kernel.waits h direction t

/-- The operation makes the thread ready. -/
def readies (system : System n m) (t : Fin n) : Operation n m → Prop
  | .yield current => current = some t ∧ system.kernel.sched.stateOf t = .running
  | .next current => current = some t ∧ system.kernel.sched.preemptRequested = true ∧
    system.kernel.sched.stateOf t = .running
  | .unblock given => given = some t ∧ system.kernel.sched.stateOf t = .blocked
  | .sysYield | .sysSleep _ =>
    system.kernel.sched.current = some t ∧ system.kernel.sched.stateOf t = .running
  | operation => system.wakes operation t

end System

/-- The steps for which the run queues are kept consistent: room for a thread
that becomes ready, another ready thread when the current one blocks, a switch to
a thread that is off the queues, and no priority change or exit of a queued
thread. -/
def orderly (system : System n m) (label : Operation n m × Reply n) : Prop :=
  let s := system.kernel.sched
  (∀ t, system.readies t label.1 → s.roomFor t) ∧
  match label.1 with
  | .send h msg => (ipcTrysend system.kernel h msg).1 = .errFull → s.canSwitch
  | .recv h typeFilter msgOut =>
    (ipcTryrecv system.kernel h typeFilter msgOut).1 = .errEmpty → s.canSwitch
  | .resume => ∀ call, system.inCall = some call → system.kernel.mayBlock call → s.canSwitch
  | .sysBlock => s.canSwitch
  | .contextSwitch _ next => ∀ t, next = some t → ¬ s.isQueued t
  | .sysSetPriority _ => ∀ current, s.current = some current → ¬ s.isQueued current
  | .processExit p _ =>
    ∀ q, p = some q → ∀ slot, ¬ s.isQueued ((system.processes q).threads slot)
  | _ => True

section Channels

variable {kernel : KernelState n} {held : Fin n → Prop} (settles : Settles kernel.sched held)

include settles

theorem wake_settles
    (room : ∀ t, waiter = some t → kernel.sched.stateOf t = .blocked → kernel.sched.roomFor t) :
    Settles (kernel.wake waiter).sched held := by
  cases waiter with
  | none => exact settles
  | some t => exact schedUnblock_settles settles room

/-- A send that is refused leaves the scheduler alone; one that is accepted may
wake a thread. -/
theorem ipcTrysend_settles (room : (ipcTrysend kernel h msg).1 = .ok →
      ∀ t, kernel.waits h .receiving t → kernel.sched.roomFor t) :
    Settles (ipcTrysend kernel h msg).2.sched held ∧
      ((ipcTrysend kernel h msg).1 = .errFull → (ipcTrysend kernel h msg).2 = kernel) := by
  cases msg with
  | none => exact ⟨settles, by simp [ipcTrysend]⟩
  | some msg =>
    cases named : chanFromHandle kernel.ipc h with
    | none =>
      simp only [ipcTrysend, named]
      split <;> exact ⟨settles, fun _ => rfl⟩
    | some slot =>
      simp only [ipcTrysend, named] at room ⊢
      repeat' split
      iterate 4 exact ⟨settles, fun _ => rfl⟩
      refine ⟨wake_settles (by exact settles) fun t waiter blocked => ?_, by simp⟩
      exact room (by simp [*]) t ⟨⟨slot, named, waiter⟩, blocked⟩

theorem ipcTryrecv_settles (room : (ipcTryrecv kernel h typeFilter msgOut).1 = .ok →
      ∀ t, kernel.waits h .sending t → kernel.sched.roomFor t) :
    Settles (ipcTryrecv kernel h typeFilter msgOut).2.2.sched held ∧
      ((ipcTryrecv kernel h typeFilter msgOut).1 = .errEmpty →
        (ipcTryrecv kernel h typeFilter msgOut).2.2 = kernel) := by
  cases named : chanFromHandle kernel.ipc h with
  | none =>
    simp only [ipcTryrecv, named]
    split <;> exact ⟨settles, fun _ => rfl⟩
  | some slot =>
    simp only [ipcTryrecv, named] at room ⊢
    repeat' split
    iterate 5 exact ⟨settles, fun _ => rfl⟩
    refine ⟨wake_settles (by exact settles) fun t waiter blocked => ?_, by simp⟩
    exact room (by simp [*]) t ⟨⟨slot, named, waiter⟩, blocked⟩

theorem waitOn_settles (other : kernel.sched.canSwitch) (slot : Slot) (direction : Direction) :
    Settles (kernel.waitOn slot direction).2.sched held := by
  simp only [waitOn]
  cases running : kernel.sched.current with
  | none => exact settles
  | some current =>
    have same : (kernel.setWaiter slot direction (some current)).sched = kernel.sched := rfl
    simp only [same]
    rcases blockCurrent_settles settles (other current running) with
      ⟨s', result, after⟩ | ⟨s', result, after⟩
    · simpa [result] using after
    · simpa [result] using after

theorem round_settles (room : kernel.roundResult call = .ok →
      ∀ t, kernel.waits call.handle call.direction.opposite t → kernel.sched.roomFor t)
    (other : kernel.mayBlock call → kernel.sched.canSwitch) :
    Settles (kernel.round call).2.sched held := by
  cases call with
  | send h slot msg =>
    obtain ⟨after, refused⟩ := ipcTrysend_settles settles room
    simp only [KernelState.round]
    split
    · rename_i kernel' full
      simp only [mayBlock, full] at refused other
      obtain rfl : kernel' = kernel := refused trivial
      exact waitOn_settles settles (other trivial) slot .sending
    · rename_i r kernel' notFull result
      rw [result] at after
      exact after
  | recv h slot typeFilter =>
    obtain ⟨after, refused⟩ := ipcTryrecv_settles settles room
    simp only [KernelState.round]
    split
    · rename_i msg kernel' empty
      simp only [mayBlock, empty] at refused other
      obtain rfl : kernel' = kernel := refused trivial
      exact waitOn_settles settles (other trivial) slot .receiving
    · rename_i r msg kernel' notEmpty result
      rw [result] at after
      exact after

end Channels

section Steps

variable {system : System n m} {held : Fin n → Prop}

section

variable (settles : Settles system.kernel.sched held)

include settles

theorem runRound_settles (room : system.kernel.roundResult call = .ok → ∀ t,
      system.kernel.waits call.handle call.direction.opposite t → system.kernel.sched.roomFor t)
    (other : system.kernel.mayBlock call → system.kernel.sched.canSwitch) :
    Settles (system.runRound call).2.kernel.sched held := by
  have after := round_settles settles room other
  simp only [runRound]
  split
  · rename_i r msg kernel' result
    rw [result] at after
    exact after
  · rename_i kernel' result
    rw [result] at after
    exact after

theorem enterCall_settles (h : Nat) (given : Bool) (call : Slot → PendingCall)
    (room : ∀ slot, given = true → system.kernel.roundResult (call slot) = .ok → ∀ t,
      system.kernel.waits (call slot).handle (call slot).direction.opposite t →
        system.kernel.sched.roomFor t)
    (other : ∀ slot, given = true → system.kernel.mayBlock (call slot) →
      system.kernel.sched.canSwitch) :
    Settles (system.enterCall h given call).2.kernel.sched held := by
  simp only [enterCall]
  split
  · exact settles
  · rename_i slot admitted
    have given := (checkCall_ok admitted).2.1
    exact runRound_settles settles (room slot given) (other slot given)

theorem processExit_settles (exitCode : Int) (free : ∀ q, p = some q → ∀ slot,
      ¬ system.kernel.sched.isQueued ((system.processes q).threads slot)) :
    Settles (processExit system p exitCode).2.kernel.sched held := by
  cases p with
  | none => exact settles
  | some p =>
    obtain ⟨lists, settled⟩ := settles
    have slots : ∀ slot band, (system.processes p).threads slot ∉ lists band :=
      fun slot => settled.free (free p rfl slot)
    -- the loop over the slots changes threads that are on none of the lists
    have exited : ∀ (some_slots : List (Fin processMaxThreads)) (s : Sched n),
        Settled s lists held → Settled (some_slots.foldl
          (fun s slot => exitThread s ((system.processes p).threads slot)) s) lists held := by
      intro some_slots
      induction some_slots with
      | nil => exact fun s before => before
      | cons slot rest ih => exact fun s before => ih _ (exitThread_settles before (slots slot))
    exact ⟨lists, exited _ _ settled⟩

/-- After an orderly step the ready threads are queued, or were held before it or are handed
out by it. -/
theorem step_settles (proper : orderly system (operation, reply))
    (taken : system.step operation = some (reply, after)) :
    Settles after.kernel.sched fun t => held t ∨ handsOut t (operation, reply) := by
  obtain ⟨room, proper⟩ := proper
  have kept : ∀ {s : Sched n}, Settles s held →
      Settles s fun t => held t ∨ handsOut t (operation, reply) :=
    fun before => before.mono fun t here => .inl here
  have woken : ∀ {h direction t}, system.attempt operation = some (h, direction, .ok) →
      system.kernel.waits h direction t → system.wakes operation t :=
    fun succeeds waits => ⟨_, _, succeeds, waits⟩
  cases operation with
  | enqueue p =>
    cases taken
    exact kept (schedEnqueue_settles settles p)
  | dequeue =>
    cases taken
    exact schedDequeue_settles settles
  | yield p =>
    cases taken
    exact kept (schedYield_settles settles fun t given running => room t ⟨given, running⟩)
  | tick p =>
    cases taken
    exact kept (schedTick_settles settles p)
  | next p =>
    cases taken
    exact schedNext_settles settles fun t given preempted running =>
      room t ⟨given, preempted, running⟩
  | block p =>
    cases taken
    exact kept (schedBlock_settles settles p)
  | unblock p =>
    cases taken
    exact kept (schedUnblock_settles settles fun t given blocked => room t ⟨given, blocked⟩)
  | contextSwitch prev next =>
    cases taken
    exact kept (schedContextSwitch_settles settles prev next proper)
  | ipc call =>
    obtain ⟨-, rfl, rfl⟩ := step_ipc taken
    refine kept ?_
    cases call with
    | channelCreate =>
      simp only [ipcCall, ipcChannelCreate]
      split <;> exact settles
    | channelDestroy h =>
      simp only [ipcCall, ipcChannelDestroy]
      repeat' split
      all_goals exact settles
    | trysend h msg =>
      refine (ipcTrysend_settles settles fun succeeds t waits => room t (woken ?_ waits)).1
      rw [System.attempt, succeeds]
    | tryrecv h typeFilter msgOut =>
      refine (ipcTryrecv_settles settles fun succeeds t waits => room t (woken ?_ waits)).1
      rw [System.attempt, succeeds]
  | send h msg =>
    obtain ⟨-, ⟨rfl, -, rfl⟩ | ⟨m, rfl, entered⟩⟩ := step_send taken
    · exact kept settles
    · have after := enterCall_settles settles h true (fun slot => .send h slot m)
        (fun _ _ succeeds t waits => room t (woken (by rw [System.attempt, ← succeeds]; rfl) waits))
        fun _ _ => proper
      rw [entered] at after
      exact kept after
  | recv h typeFilter msgOut =>
    obtain ⟨-, entered⟩ := step_recv taken
    have after := enterCall_settles settles h msgOut (fun slot => .recv h slot typeFilter)
      (fun _ given succeeds t waits =>
        room t (woken (by rw [System.attempt, ← succeeds, given]; rfl) waits))
      fun _ given blocks => proper (given ▸ blocks)
    rw [entered] at after
    exact kept after
  | resume =>
    obtain ⟨call, busy, ran⟩ := step_resume taken
    have after := runRound_settles settles
      (fun succeeds t waits => room t (woken (by rw [System.attempt, busy, ← succeeds]; rfl) waits))
      (proper call busy)
    rw [ran] at after
    exact kept after
  | sysYield =>
    obtain ⟨-, stepped⟩ := step_syscall (.inl rfl) taken
    cases stepped
    exact kept (handleYield_settles settles fun t current running => room t ⟨current, running⟩)
  | sysBlock =>
    obtain ⟨-, stepped⟩ := step_syscall (.inr (.inl rfl)) taken
    cases stepped
    exact kept (handleSchedBlock_settles settles proper)
  | sysSetPriority arg0 =>
    obtain ⟨-, stepped⟩ := step_syscall (.inr (.inr (.inl ⟨arg0, rfl⟩))) taken
    cases stepped
    exact kept (handleSchedSetPriority_settles settles proper arg0)
  | sysSleep arg0 =>
    obtain ⟨-, stepped⟩ := step_syscall (.inr (.inr (.inr ⟨arg0, rfl⟩))) taken
    cases stepped
    exact kept (handleYield_settles settles fun t current running => room t ⟨current, running⟩)
  | processExit p exitCode =>
    cases taken
    exact kept (processExit_settles settles exitCode proper)

end

end Steps

/-- Run queues that are what they should be: links, tails and counts agree, and
the queued threads are exactly the ready ones. -/
def wellQueued (system : System n m) : Prop := Settles system.kernel.sched fun _ => False

/-- On a run queue a thread is ready, in the band of its priority, and there only
once; a ready thread is on a run queue unless it is out. -/
def Consistent (out : Fin n → Prop) (s : Sched n) : Prop :=
  (∀ band t, t ∈ s.queued band →
    s.stateOf t = .ready ∧ s.priorityOf t = band ∧ (s.queued band).count t = 1) ∧
  ∀ t, s.stateOf t = .ready → s.isQueued t ∨ out t

/-- In every orderly run of the kernel the run queues are consistent. -/
theorem run_queues_consistent (run : ((custodyMachine wellQueued).guarded fun state =>
      orderly state.1).Run log ((system, out) : System n m × (Fin n → Prop))) :
    Consistent out system.kernel.sched := by
  have settled : ((custodyMachine wellQueued).guarded fun state => orderly state.1).Inductive
      fun state : System n m × (Fin n → Prop) => Settles state.1.kernel.sched state.2 :=
    { initially := fun state first => first.1.mono fun t none => none.elim
      preserved := fun before label after settles ⟨proper, taken, moved⟩ =>
        moved ▸ (step_settles settles proper taken).strays }
  obtain ⟨lists, settled⟩ := settled.reached run
  refine ⟨?_, ?_⟩
  · intro band t member
    rw [settled.queues.queued_eq] at member ⊢
    exact ⟨settled.ready band t member, settled.queues.priority band t member,
      List.count_eq_one_of_mem (settled.queues.nodup band) member⟩
  · intro t isReady
    refine (settled.placed t isReady).imp_left ?_
    rintro ⟨band, member⟩
    exact ⟨band, by rwa [settled.queues.queued_eq]⟩

/-- A running thread and two blocked ones; one process owns the second thread. -/
def threeThreads (lastPriority : Nat) : System 3 1 where
  kernel :=
    { sched := { schedInit (fun t =>
          { tid := t + 1, state := if t = 0 then .running else .blocked,
            priority := if t = 2 then lastPriority else 3, ticksRemaining := 10, totalTicks := 0,
            next := none }) with current := some 0 }
      ipc := ipcInit {
        channels := fun _ =>
          { state := .chanFree, handle := 0, head := 0, tail := 0, count := 0,
            ring := fun _ => { type := 0, payloadLen := 0, payload := Vector.replicate 8 0 },
            blockedSender := none, blockedReceiver := none }
        nextGeneration := 0 } }
  processes _ := { state := .ready, exitCode := 0, threads := fun _ => 1 }
  calls _ := none

theorem threeThreads_wellQueued (lastPriority : Nat) : wellQueued (threeThreads lastPriority) := by
  refine ⟨fun _ => [], ⟨fun _ => .nil, fun _ => rfl, by simp, by simp, fun _ => rfl, rfl, ?_⟩,
    by simp, ?_⟩
  · exact Nat.zero_le _
  · intro t isReady
    have notReady : ∀ u : Fin 3, (if u = 0 then ProcessState.running else .blocked) ≠ .ready := by
      decide
    exact absurd isReady (notReady t)

/-- A thread is woken and then handed out by `sched_dequeue`. -/
theorem run_queues_consistent_hand_out : let woken := (threeThreads 3).perform (.unblock (some 1))
    ∃ log out, ((custodyMachine wellQueued).guarded fun state => orderly state.1).Run log
        (woken.perform .dequeue, out) ∧
      woken.kernel.sched.isQueued 1 ∧ Consistent out (woken.perform .dequeue).kernel.sched ∧
      out 1 := by
  have start : ∃ log, ((kernelMachine wellQueued).guarded orderly).Run log (threeThreads 3) :=
    ⟨[], .start (threeThreads_wellQueued 3)⟩
  have room : ∀ t, (threeThreads 3).kernel.sched.roomFor t := fun t =>
    ⟨by decide, by decide +revert⟩
  have first := run_perform start (.unblock (some 1)) rfl
    fun _ _ => .intro ⟨fun t _ => room t, trivial⟩
  have nobody : ∀ system : System 3 1, ∀ t, ¬ system.readies t .dequeue := by
    rintro system t ⟨h, direction, attempted, -⟩
    simp [System.attempt] at attempted
  obtain ⟨log, run⟩ := run_perform first .dequeue rfl
    fun _ _ => .intro ⟨fun t readied => absurd readied (nobody _ t), trivial⟩
  obtain ⟨out, run⟩ := custody_of_run run
  have consistent := run_queues_consistent run
  refine ⟨log, out, run, by decide +kernel, consistent, ?_⟩
  exact (consistent.2 1 (by decide +kernel)).resolve_left (by decide +kernel)

/-- Without exception: queued exactly when ready. -/
def QueuedIffReady (s : Sched n) : Prop :=
  (∀ t, s.isQueued t ↔ s.stateOf t = .ready) ∧
    ∀ band t, t ∈ s.queued band → s.priorityOf t = band ∧ (s.queued band).count t = 1

instance (s : Sched n) : Decidable (QueuedIffReady s) := inferInstanceAs (Decidable (_ ∧ _))

/-- Four ways to leave it: a thread that `sched_dequeue` returned is ready and on
no queue; the undo path of a system call queues the running thread; an exiting
process leaves its thread on a queue; a thread whose priority has no band becomes
ready without being queued. -/
theorem run_queues_can_disagree : (∃ log, (kernelMachine wellQueued).Run log
        (((threeThreads 9).perform (.unblock (some 1))).perform .dequeue) ∧
      ¬ QueuedIffReady (((threeThreads 9).perform (.unblock (some 1))).perform
        .dequeue).kernel.sched) ∧
    (∃ log, (kernelMachine wellQueued).Run log ((threeThreads 9).perform .sysBlock) ∧
      ¬ QueuedIffReady ((threeThreads 9).perform .sysBlock).kernel.sched) ∧
    (∃ log, (kernelMachine wellQueued).Run log
        (((threeThreads 9).perform (.unblock (some 1))).perform (.processExit (some 0) 0)) ∧
      ¬ QueuedIffReady (((threeThreads 9).perform (.unblock (some 1))).perform
        (.processExit (some 0) 0)).kernel.sched) ∧
    ∃ log, (kernelMachine wellQueued).Run log ((threeThreads 9).perform (.unblock (some 2))) ∧
      ¬ QueuedIffReady ((threeThreads 9).perform (.unblock (some 2))).kernel.sched := by
  have start : ∃ log, (kernelMachine wellQueued).Run log (threeThreads 9) :=
    ⟨[], .start (threeThreads_wellQueued 9)⟩
  have woken := run_perform start (.unblock (some 1)) rfl fun _ _ => id
  refine ⟨?_, ?_, ?_, ?_⟩
  · obtain ⟨log, run⟩ := run_perform woken .dequeue rfl fun _ _ => id
    exact ⟨log, run, by decide +kernel⟩
  · obtain ⟨log, run⟩ := run_perform start .sysBlock rfl fun _ _ => id
    exact ⟨log, run, by decide +kernel⟩
  · obtain ⟨log, run⟩ := run_perform woken (.processExit (some 0) 0) rfl fun _ _ => id
    exact ⟨log, run, by decide +kernel⟩
  · obtain ⟨log, run⟩ := run_perform start (.unblock (some 2)) rfl fun _ _ => id
    exact ⟨log, run, by decide +kernel⟩

end Zapada.Kernel
