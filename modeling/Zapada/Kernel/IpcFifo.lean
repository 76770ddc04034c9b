import Zapada.Foundation.Machine
import Zapada.Kernel.IpcPool

/-! Every channel is a bounded queue. The specification reads only the calls and
their replies: what a lifetime of a handle accepted and what it returned. -/

namespace Zapada.Kernel

open Foundation

variable {n : Nat}

/-- Channels as `ipc_init` leaves them, over any threads and any old memory. -/
def ipcMachine (sched : Sched n) (ipc : Ipc n) : Machine (KernelState n) (IpcCall × IpcReply) :=
  Machine.ofCall { sched, ipc := ipcInit ipc } KernelState.ipcCall

/-- One lifetime of a handle, from the call that returned it. -/
structure Lifetime where
  live : Bool
  accepted : List Message
  returned : List Message

namespace Lifetime

def pending (life : Lifetime) : List Message := life.accepted.drop life.returned.length

/-- What one call with its reply means for the lifetime of a handle. -/
def observe (h : Nat) (life : Lifetime) : IpcCall × IpcReply → Lifetime
  | (.channelCreate, .handle created) =>
    if created = h ∧ h ≠ ipcHandleInvalid then { live := true, accepted := [], returned := [] }
    else life
  | (.channelDestroy destroyed, .result .ok) =>
    if destroyed = h then { life with live := false } else life
  | (.trysend target (some msg), .result .ok) =>
    if target = h then { life with accepted := life.accepted ++ [msg] } else life
  | (.tryrecv target _ _, .received .ok (some msg)) =>
    if target = h then { life with returned := life.returned ++ [msg] } else life
  | _ => life

end Lifetime

/-- The current or last lifetime of a handle after a sequence of calls. -/
def lifetime (log : List (IpcCall × IpcReply)) (h : Nat) : Lifetime :=
  log.foldl (Lifetime.observe h) { live := false, accepted := [], returned := [] }

@[simp] theorem lifetime_append (log : List (IpcCall × IpcReply)) (event : IpcCall × IpcReply)
    (h : Nat) : lifetime (log ++ [event]) h = (lifetime log h).observe h event := by
  simp [lifetime]

/-- The pool is what the calls and replies so far say: the live handles name the
open channels, and a channel holds what was accepted and not returned. -/
structure Tracks (log : List (IpcCall × IpcReply)) (ipc : Ipc n) : Prop where
  pool : Pool ipc
  live : ∀ h, (lifetime log h).live = (chanFromHandle ipc h).isSome
  fifo : ∀ h, ∃ rest, (lifetime log h).accepted = (lifetime log h).returned ++ rest ∧
    rest.length ≤ ipcChannelCapacity ∧
    ∀ slot, chanFromHandle ipc h = some slot → rest = (ipc.channels slot).messages

namespace Tracks

variable {log : List (IpcCall × IpcReply)} {kernel : KernelState n}

theorem start (ipc : Ipc n) : Tracks [] (ipcInit ipc) := by
  have pool : Pool (ipcInit ipc) := fun slot => channelOk_free slot (ipc.channels slot)
  have unnamed : ∀ h, chanFromHandle (ipcInit ipc) h = none := by
    intro h
    rw [Option.eq_none_iff_forall_ne_some]
    intro slot named
    have opened := pool.opened named
    simp [ipcInit, Channel.reset] at opened
  refine ⟨pool, ?_, ?_⟩
  · intro h
    rw [unnamed]
    rfl
  · intro h
    refine ⟨[], rfl, Nat.zero_le _, ?_⟩
    intro slot named
    rw [unnamed] at named
    contradiction

theorem observe_failed (h : Nat) (life : Lifetime) (call : IpcCall)
    (failed : reply.failed) : life.observe h (call, reply) = life := by
  cases call <;> cases reply <;> simp only [IpcReply.failed] at failed <;>
    unfold Lifetime.observe <;> split <;> simp_all

section

variable (tracks : Tracks log kernel.ipc)

include tracks

theorem failed (call : IpcCall)
    (failed : reply.failed) : Tracks (log ++ [(call, reply)]) kernel.ipc := by
  refine ⟨tracks.pool, ?_, ?_⟩
  · intro h
    rw [lifetime_append, observe_failed h _ call failed]
    exact tracks.live h
  · intro h
    rw [lifetime_append, observe_failed h _ call failed]
    exact tracks.fifo h

/-- A call that changes the messages of one channel and keeps all handles. -/
theorem changed (named : chanFromHandle kernel.ipc h = some slot)
    (fine : ChannelOk slot channel) (handle : channel.handle = (kernel.ipc.channels slot).handle)
    (others : ∀ other life, other ≠ h → Lifetime.observe other life event = life)
    (live : ∀ life, (Lifetime.observe h life event).live = life.live)
    (moved : (kernel.ipc.channels slot).messages.length ≤ ipcChannelCapacity →
      ∀ life : Lifetime, life.accepted = life.returned ++ (kernel.ipc.channels slot).messages →
        (Lifetime.observe h life event).accepted =
          (Lifetime.observe h life event).returned ++ channel.messages) :
    Tracks (log ++ [event]) (kernel.ipc.setChannel slot channel) := by
  have names : ∀ other, chanFromHandle (kernel.ipc.setChannel slot channel) other =
      chanFromHandle kernel.ipc other := by
    refine chanFromHandle_congr fun other => ?_
    by_cases same : other = slot
    · subst same
      simpa using handle
    · rw [setChannel_other _ _ same]
  refine ⟨tracks.pool.setChannel fine, ?_, ?_⟩
  · intro other
    rw [lifetime_append, names]
    by_cases same : other = h
    · subst same
      rw [live]
      exact tracks.live other
    · rw [others other _ same]
      exact tracks.live other
  · intro other
    obtain ⟨rest, split, short, holds⟩ := tracks.fifo other
    rw [lifetime_append, names]
    by_cases same : other = h
    · subst same
      have contents := holds slot named
      subst contents
      refine ⟨channel.messages, moved short _ split, ?_, ?_⟩
      · simpa [Channel.messages] using fine.count
      · intro s sameName
        rw [named] at sameName
        cases sameName
        simp
    · rw [others other _ same]
      refine ⟨rest, split, short, ?_⟩
      intro s sameName
      have different : s ≠ slot := by
        rintro rfl
        exact same (chanFromHandle_inj sameName named)
      rw [setChannel_other _ _ different]
      exact holds s sameName

theorem trysend (h : Nat) (msg : Option Message) :
    Tracks (log ++ [(.trysend h msg, .result (ipcTrysend kernel h msg).1)])
      (ipcTrysend kernel h msg).2.ipc := by
  rcases ipcTrysend_spec tracks.pool h msg with
    ⟨r, refused, taken, -⟩ | ⟨slot, m, rfl, named, room, taken⟩
  · rw [taken]
    exact tracks.failed _ refused
  · have fine := tracks.pool slot
    rw [taken, wake_ipc]
    refine tracks.changed named (fine.push room m) rfl ?_ ?_ ?_
    · intro other life different
      simp [Lifetime.observe, different.symm]
    · intro life
      simp [Lifetime.observe]
    · intro short life split
      simp [Lifetime.observe, split, fine.messages_push room]

theorem tryrecv (h : Nat) (typeFilter : UInt32) (msgOut : Bool) :
    Tracks (log ++ [(.tryrecv h typeFilter msgOut,
      .received (ipcTryrecv kernel h typeFilter msgOut).1
          (ipcTryrecv kernel h typeFilter msgOut).2.1)])
            (ipcTryrecv kernel h typeFilter msgOut).2.2.ipc := by
  rcases ipcTryrecv_spec tracks.pool h typeFilter msgOut with
    ⟨r, refused, taken, -⟩ | ⟨slot, named, some_left, taken⟩
  · rw [taken]
    exact tracks.failed _ refused
  · have fine := tracks.pool slot
    rw [taken, wake_ipc]
    refine tracks.changed named (fine.pop some_left) rfl ?_ ?_ ?_
    · intro other life different
      simp [Lifetime.observe, different.symm]
    · intro life
      simp [Lifetime.observe]
    · intro short life split
      simp only [Lifetime.observe, if_true]
      rw [split, fine.messages_pop some_left, List.append_assoc, List.singleton_append]

theorem channelDestroy (h : Nat) :
    Tracks (log ++ [(.channelDestroy h, .result (ipcChannelDestroy kernel h).1)])
      (ipcChannelDestroy kernel h).2.ipc := by
  rcases ipcChannelDestroy_spec tracks.pool h with ⟨-, taken⟩ | ⟨slot, named, taken⟩
  · rw [taken]
    exact tracks.failed _ (by simp [IpcReply.failed])
  · rw [taken]
    have names := chanFromHandle_destroyed named (kernel.ipc.channels slot)
    refine ⟨tracks.pool.setChannel (channelOk_free slot _), ?_, ?_⟩
    · intro other
      rw [KernelState.setChannel, names, lifetime_append]
      by_cases same : other = h
      · subst same
        simp [Lifetime.observe]
      · rw [if_neg same, ← tracks.live other]
        simp [Lifetime.observe, Ne.symm same]
    · intro other
      obtain ⟨rest, split, short, holds⟩ := tracks.fifo other
      rw [KernelState.setChannel, names, lifetime_append]
      by_cases same : other = h
      · subst same
        exact ⟨rest, by simpa [Lifetime.observe] using split, short, by simp⟩
      · rw [if_neg same]
        refine ⟨rest, by simpa [Lifetime.observe, Ne.symm same] using split, short, ?_⟩
        intro s sameName
        have different : s ≠ slot := by
          rintro rfl
          exact same (chanFromHandle_inj sameName named)
        rw [setChannel_other _ _ different]
        exact holds s sameName

theorem channelCreate : Tracks (log ++ [(.channelCreate, .handle (ipcChannelCreate kernel).1)])
      (ipcChannelCreate kernel).2.ipc := by
  rcases ipcChannelCreate_spec kernel with taken | ⟨slot, generation, free, created, taken⟩
  · rw [taken]
    exact tracks.failed _ rfl
  · rw [taken, created]
    generalize fresh : handleOf kernel.ipc.nextGeneration slot = h
    have names := chanFromHandle_created tracks.pool free (kernel.ipc.channels slot)
      kernel.ipc.nextGeneration
    rw [fresh] at names
    have named : chanFromHandle (kernel.ipc.setChannel slot
        ((kernel.ipc.channels slot).reset .chanOpen h)) h = some slot := by
      rw [names, if_pos rfl]
    have valid := chanFromHandle_ne_invalid named
    have pool :=
      tracks.pool.setChannel (channelOk_open slot (kernel.ipc.channels slot)
        kernel.ipc.nextGeneration)
    rw [fresh] at pool
    refine ⟨pool, ?_, ?_⟩
    · intro other
      refine Eq.trans ?_ (congrArg Option.isSome (names other)).symm
      by_cases same : other = h
      · subst same
        simp [Lifetime.observe, valid]
      · rw [if_neg same, ← tracks.live other]
        simp [Lifetime.observe, Ne.symm same]
    · intro other
      obtain ⟨rest, split, short, holds⟩ := tracks.fifo other
      by_cases same : other = h
      · subst same
        refine ⟨[], by simp [Lifetime.observe, valid], Nat.zero_le _, ?_⟩
        intro s sameName
        have position : s = slot := Option.some.inj (sameName.symm.trans named)
        subst position
        simp [Ipc.setChannel, Channel.reset, Channel.messages]
      · refine ⟨rest, by simpa [Lifetime.observe, Ne.symm same] using split, short, ?_⟩
        intro s sameName
        have before := (names other).symm.trans sameName
        rw [if_neg same] at before
        have different : s ≠ slot := by
          rintro rfl
          rw [tracks.pool.opened before] at free
          contradiction
        have kept := setChannel_other kernel.ipc ((kernel.ipc.channels slot).reset .chanOpen h)
          different
        exact (holds s before).trans (congrArg Channel.messages kept.symm)

end

end Tracks

theorem ipcMachine_tracks (run : (ipcMachine sched ipc).Run log kernel) :
    Tracks log (kernel : KernelState n).ipc := by
  induction run with
  | start first =>
    subst first
    exact Tracks.start ipc
  | @next log before label after earlier taken tracks =>
    obtain ⟨call, reply⟩ := label
    cases call with
    | channelCreate =>
      cases taken
      exact tracks.channelCreate
    | channelDestroy h =>
      cases taken
      exact tracks.channelDestroy h
    | trysend h msg =>
      cases taken
      exact tracks.trysend h msg
    | tryrecv h typeFilter msgOut =>
      cases taken
      exact tracks.tryrecv h typeFilter msgOut

theorem ipcCall_failed (pool : Pool (kernel : KernelState n).ipc)
    (failed : (kernel.ipcCall call).1.failed) : (kernel.ipcCall call).2 = kernel := by
  cases call with
  | channelCreate =>
    rcases ipcChannelCreate_spec kernel with taken | ⟨slot, generation, free, created, taken⟩
    · simp [KernelState.ipcCall, taken]
    · simp only [KernelState.ipcCall, created, IpcReply.failed] at failed
      have low := handleOf_low kernel.ipc.nextGeneration slot
      rw [failed] at low
      simp [ipcHandleInvalid] at low
  | channelDestroy h =>
    rcases ipcChannelDestroy_spec pool h with ⟨-, taken⟩ | ⟨slot, named, taken⟩
    · simp [KernelState.ipcCall, taken]
    · simp [KernelState.ipcCall, taken, IpcReply.failed] at failed
  | trysend h msg =>
    rcases ipcTrysend_spec pool h msg with ⟨r, refused, taken, -⟩ | ⟨slot, m, -, -, -, taken⟩
    · simp [KernelState.ipcCall, taken]
    · simp [KernelState.ipcCall, taken, IpcReply.failed] at failed
  | tryrecv h typeFilter msgOut =>
    rcases ipcTryrecv_spec pool h typeFilter msgOut with ⟨r, refused, taken, -⟩ | ⟨slot,
      -, -, taken⟩
    · simp [KernelState.ipcCall, taken]
    · simp [KernelState.ipcCall, taken, IpcReply.failed] at failed

/-- For every interleaving of calls, every lifetime of a handle is a bounded
first-in first-out queue of at most eight messages: what it returned is a prefix
of what it accepted, a send is refused as full exactly when eight are pending, a
receive as empty exactly when none is, and a call that fails changes nothing. -/
theorem channel_is_bounded_fifo (sched : Sched n) (ipc : Ipc n)
    (run : (ipcMachine sched ipc).Run log kernel) :
    (∀ h, (lifetime log h).returned <+: (lifetime log h).accepted ∧
      (lifetime log h).pending.length ≤ 8 ∧
      ipcChannelIsOpen kernel h = (lifetime log h).live ∧
        (∀ msg, (ipcTrysend kernel h msg).1 = .errFull ↔
        (lifetime log h).live = true ∧ msg.isSome ∧ (lifetime log h).pending.length = 8) ∧
      (∀ typeFilter msgOut, (ipcTryrecv kernel h typeFilter msgOut).1 = .errEmpty ↔
        (lifetime log h).live = true ∧ msgOut = true ∧ (lifetime log h).pending = [])) ∧
    ∀ call, (kernel.ipcCall call).1.failed → (kernel.ipcCall call).2 = kernel := by
  have tracks := ipcMachine_tracks run
  refine ⟨?_, fun call => ipcCall_failed tracks.pool⟩
  intro h
  obtain ⟨rest, split, short, holds⟩ := tracks.fifo h
  have live := tracks.live h
  have waiting : (lifetime log h).pending = rest := by
    rw [Lifetime.pending, split, List.drop_left]
  have counted : ∀ slot, chanFromHandle kernel.ipc h = some slot →
      rest.length = (kernel.ipc.channels slot).count := by
    intro slot named
    rw [holds slot named]
    simp [Channel.messages]
  rw [waiting, live]
  refine ⟨⟨rest, split.symm⟩, short, ?_, ?_, ?_⟩
  · exact ipcChannelIsOpen_eq tracks.pool h
  · intro msg
    rcases ipcTrysend_spec tracks.pool h msg with
      ⟨r, -, taken, full⟩ | ⟨slot, m, rfl, named, room, taken⟩
    · rw [taken, full]
      constructor
      · rintro ⟨slot, named, given, count⟩
        exact ⟨by rw [named]; rfl, given, (counted slot named).trans count⟩
      · rintro ⟨isLive, given, count⟩
        obtain ⟨slot, named⟩ := Option.isSome_iff_exists.mp isLive
        exact ⟨slot, named, given, (counted slot named).symm.trans count⟩
    · rw [taken, counted slot named]
      simp only [reduceCtorEq, false_iff, not_and]
      intro _ _ full
      exact absurd full (Nat.ne_of_lt room)
  · intro typeFilter msgOut
    rcases ipcTryrecv_spec tracks.pool h typeFilter msgOut with
      ⟨r, -, taken, empty⟩ | ⟨slot, named, some_left, taken⟩
    · rw [taken, empty]
      constructor
      · rintro ⟨slot, named, given, count⟩
        exact
          ⟨by rw [named]; rfl, given, List.length_eq_zero_iff.mp ((counted slot named).trans count)⟩
      · rintro ⟨isLive, given, none⟩
        obtain ⟨slot, named⟩ := Option.isSome_iff_exists.mp isLive
        exact ⟨slot, named, given, by rw [← counted slot named, none]; rfl⟩
    · rw [taken]
      simp only [reduceCtorEq, false_iff, not_and]
      intro _ _ none
      exact some_left (by rw [← counted slot named, none]; rfl)

/-- A channel pool before `ipc_init`, without threads. -/
def blankIpc : Ipc 0 where
  channels _ :=
    { state := .chanFree, handle := 0, head := 0, tail := 0, count := 0,
      ring := fun _ => { type := 0, payloadLen := 0, payload := Vector.replicate 8 0 },
      blockedSender := none, blockedReceiver := none }
  nextGeneration := 0

/-- Two sends and a receive on a fresh channel. -/
theorem channel_is_bounded_fifo_two_messages :
    let first : Message := { type := 1, payloadLen := 8, payload := Vector.replicate 8 3 }
    let second : Message := { type := 2, payloadLen := 0, payload := Vector.replicate 8 0 }
    ∃ log kernel, (ipcMachine (schedInit Fin.elim0) blankIpc).Run log kernel ∧
      (lifetime log 257).accepted = [first, second] ∧ (lifetime log 257).returned = [first] ∧
      (lifetime log 257).pending.length ≤ 8 := by
  intro first second
  have run := Machine.Run.ofCalls KernelState.ipcCall
    { sched := schedInit Fin.elim0, ipc := ipcInit blankIpc }
    [.channelCreate, .trysend 257 (some first), .trysend 257 (some second), .tryrecv 257 1 true]
  refine ⟨_, _, run, ?_, ?_, ?_⟩
  · decide +kernel
  · decide +kernel
  · exact ((channel_is_bounded_fifo _ _ run).1 257).2.1

end Zapada.Kernel
