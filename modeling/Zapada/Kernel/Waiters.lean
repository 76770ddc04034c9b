import Zapada.Kernel.IpcPool
import Zapada.Kernel.SchedEffects

/-! Threads waiting at channels. Every channel has one waiter slot for each
direction, so a waiting thread stays recorded as long as no second thread waits in
its direction and nobody destroys the channel. -/

namespace Zapada.Kernel

open Foundation Function KernelState

variable {n m : Nat} {kernel : KernelState n} {calls : Fin n → Option PendingCall}

/-- The number of messages in a channel that a call waits at. -/
def Direction.level : Direction → Nat
  | .sending => ipcChannelCapacity
  | .receiving => 0

/-- The channel of a waiting call is open, full or empty, and records the thread. -/
structure Recorded (ipc : Ipc n) (t : Fin n) (call : PendingCall) : Prop where
  named : chanFromHandle ipc call.handle = some call.slot
  waiter : (ipc.channels call.slot).waiter call.direction = some t
  level : (ipc.channels call.slot).count = call.direction.level

/-- Every thread that is blocked inside a call is recorded. -/
def KernelState.Covers (kernel : KernelState n) (calls : Fin n → Option PendingCall) : Prop :=
  ∀ t call, kernel.sched.stateOf t = .blocked → calls t = some call → Recorded kernel.ipc t call

/-- No thread is blocked in a call on the handle in the direction. -/
def KernelState.noneWaits (kernel : KernelState n) (calls : Fin n → Option PendingCall) (h : Nat)
    (direction : Direction) : Prop :=
  ∀ t, kernel.sched.stateOf t = .blocked → ∀ call ∈ calls t,
    ¬ (call.handle = h ∧ call.direction = direction)

instance : Decidable (kernel.noneWaits calls h direction) :=
  inferInstanceAs (Decidable (∀ _, _ → _))

/-- What a kernel operation on behalf of a running thread keeps. -/
structure Watched (kernel : KernelState n) (calls : Fin n → Option PendingCall) : Prop where
  pool : Pool kernel.ipc
  structured : Structured kernel.sched
  awake : kernel.sched.awake
  slots : ∀ t call, calls t = some call → call.handle &&& 0xFF = call.slot + 1
  covers : kernel.Covers calls

/-- The record is a matter of the call's own channel only. -/
theorem Recorded.elsewhere {ipc ipc' : Ipc n} (recorded : Recorded ipc t call)
    (unchanged : ipc'.channels call.slot = ipc.channels call.slot) : Recorded ipc' t call := by
  obtain ⟨low, handle⟩ := chanFromHandle_eq_some.mp recorded.named
  refine ⟨chanFromHandle_eq_some.mpr ⟨low, ?_⟩, ?_, ?_⟩ <;> rw [unchanged]
  · exact handle
  · exact recorded.waiter
  · exact recorded.level

/-- A change of one channel that keeps its handle leaves the other channels' waiters. -/
theorem Recorded.setChannel {ipc : Ipc n} (recorded : Recorded ipc t call)
    (handle : channel.handle = (ipc.channels slot).handle)
    (here : call.slot = slot → channel.waiter call.direction = some t ∧
      channel.count = call.direction.level) : Recorded (ipc.setChannel slot channel) t call := by
  by_cases same : call.slot = slot
  · obtain ⟨waiter, level⟩ := here same
    obtain ⟨low, named⟩ := chanFromHandle_eq_some.mp recorded.named
    subst same
    refine ⟨chanFromHandle_eq_some.mpr ⟨low, ?_⟩, ?_, ?_⟩ <;> rw [setChannel_same]
    · exact handle.trans named
    · exact waiter
    · exact level
  · exact recorded.elsewhere (setChannel_other ipc channel same)

theorem wake_calm (kernel : KernelState n) (structured : Structured kernel.sched)
    (awake : kernel.sched.awake) (waiter : Option (Fin n)) :
    Calm kernel.sched (kernel.wake waiter).sched ∧
      ∀ t, waiter = some t → (kernel.wake waiter).sched.stateOf t ≠ .blocked := by
  cases waiter with
  | none => exact ⟨⟨structured, fun _ blocked => blocked, awake⟩, by simp⟩
  | some t =>
    obtain ⟨after, current, states⟩ := schedUnblock_effect structured t
    simp only [wake]
    by_cases blocked : kernel.sched.stateOf t = .blocked
    · rw [if_pos blocked] at states
      have shrinks : ∀ u, (schedUnblock kernel.sched (some t)).2.stateOf u = .blocked →
          u ≠ t ∧ kernel.sched.stateOf u = .blocked := by
        intro u still
        rw [states] at still
        by_cases here : u = t
        · simp [here] at still
        · exact ⟨here, by simpa [here] using still⟩
      refine ⟨⟨after, fun u still => (shrinks u still).2, fun c this still => ?_⟩, ?_⟩
      · exact awake c (current ▸ this) (shrinks c still).2
      · rintro u ⟨⟩ still
        exact (shrinks t still).1 rfl
    · rw [if_neg blocked] at states
      refine ⟨⟨after, fun u still => states ▸ still, fun c this => ?_⟩, ?_⟩
      · rw [states]
        exact awake c (current ▸ this)
      · rintro u ⟨⟩
        rwa [states]

section

variable (watched : Watched kernel calls)

include watched

/-- A send or receive at one channel that wakes the thread at its other end. -/
theorem Watched.exchange (fine : ChannelOk slot channel)
    (handle : channel.handle = (kernel.ipc.channels slot).handle) (direction : Direction)
    (notLevel : ∀ other, other ≠ direction → (kernel.ipc.channels slot).count ≠ other.level) :
    Watched ((kernel.setChannel slot channel).wake ((kernel.ipc.channels slot).waiter direction))
      calls := by
  obtain ⟨calm, woken⟩ := wake_calm (kernel.setChannel slot channel) watched.structured
    watched.awake ((kernel.ipc.channels slot).waiter direction)
  have channels : ((kernel.setChannel slot channel).wake
      ((kernel.ipc.channels slot).waiter direction)).ipc = kernel.ipc.setChannel slot channel :=
    wake_ipc _ _
  refine ⟨?_, calm.structured, calm.awake, watched.slots, fun t call blocked busy => ?_⟩
  · rw [channels]
    exact watched.pool.setChannel fine
  · rw [channels]
    have recorded := watched.covers t call (calm.blocked t blocked) busy
    refine recorded.setChannel handle fun here => ?_
    subst here
    -- the thread at the other end was woken, one at this end would need another level
    by_cases same : call.direction = direction
    · exact absurd blocked (woken t (same ▸ recorded.waiter))
    · exact absurd recorded.level (notLevel _ same)

theorem Watched.trysend (h : Nat) (msg : Option Message) :
    Watched (ipcTrysend kernel h msg).2 calls := by
  rcases ipcTrysend_spec watched.pool h msg with
    ⟨r, -, refused, -⟩ | ⟨slot, m, -, -, room, accepted⟩
  · rw [refused]
    exact watched
  · rw [accepted]
    refine watched.exchange ((watched.pool slot).push room m) rfl .receiving ?_
    intro other different
    cases other with
    | receiving => exact absurd rfl different
    | sending => exact Nat.ne_of_lt room

theorem Watched.tryrecv (h : Nat) (typeFilter : UInt32)
    (msgOut : Bool) : Watched (ipcTryrecv kernel h typeFilter msgOut).2.2 calls := by
  rcases ipcTryrecv_spec watched.pool h typeFilter msgOut with
    ⟨r, -, refused, -⟩ | ⟨slot, -, some_left, accepted⟩
  · rw [refused]
    exact watched
  · rw [accepted]
    refine watched.exchange ((watched.pool slot).pop some_left) rfl .sending ?_
    intro other different
    cases other with
    | sending => exact absurd rfl different
    | receiving => exact some_left

/-- A waiting call's channel is in use, so a new channel gets another slot. -/
theorem Watched.channelCreate : Watched (ipcChannelCreate kernel).2 calls := by
  rcases ipcChannelCreate_spec kernel with none_free | ⟨slot, generation, free, -, created⟩
  · rw [none_free]
    exact watched
  · rw [created]
    refine
      { watched with pool := watched.pool.setChannel (channelOk_open slot _ _), covers t call blocked busy := ?_ }
    have recorded := watched.covers t call blocked busy
    have different : call.slot ≠ slot := by
      rintro rfl
      exact absurd (watched.pool.opened recorded.named) (by simp [free])
    exact recorded.elsewhere (setChannel_other kernel.ipc _ different)

theorem Watched.channelDestroy (unused : ∀ direction, kernel.noneWaits calls h direction) :
    Watched (ipcChannelDestroy kernel h).2 calls := by
  rcases ipcChannelDestroy_spec watched.pool h with ⟨-, refused⟩ | ⟨slot, named, destroyed⟩
  · rw [refused]
    exact watched
  · rw [destroyed]
    refine
      { watched with pool := watched.pool.setChannel (channelOk_free slot _), covers t call blocked busy := ?_ }
    have recorded := watched.covers t call blocked busy
    have different : call.slot ≠ slot := by
      rintro rfl
      exact unused call.direction t blocked call busy ⟨chanFromHandle_inj recorded.named named, rfl⟩
    exact recorded.elsewhere (setChannel_other kernel.ipc _ different)

theorem Watched.calm (calm : Calm kernel.sched s) : Watched { kernel with sched := s } calls :=
  ⟨watched.pool, calm.structured, calm.awake, watched.slots,
    fun t call blocked => watched.covers t call (calm.blocked t blocked)⟩

/-- A thread that returns from its call waits no longer. -/
theorem Watched.returned (t : Fin n) : Watched kernel (update calls t none) := by
  have fewer : ∀ u call, update calls t none u = some call → calls u = some call := by
    intro u call busy
    by_cases here : u = t
    · simp [here] at busy
    · simpa [here] using busy
  exact ⟨watched.pool, watched.structured, watched.awake, fun u call busy =>
    watched.slots u call (fewer u call busy),
    fun u call blocked busy => watched.covers u call blocked (fewer u call busy)⟩

/-- The waiter slot of a direction in which nobody waits is free to be written. -/
theorem Watched.setWaiter
    (named : chanFromHandle kernel.ipc h = some slot) (alone : kernel.noneWaits calls h direction)
    (waiter : Option (Fin n)) : Watched (kernel.setWaiter slot direction waiter) calls := by
  have fine := watched.pool slot
  refine { watched with pool := watched.pool.setChannel ?_, covers := ?_ }
  · cases direction <;> exact { fine with }
  · intro t call blocked busy
    have recorded := watched.covers t call blocked busy
    refine recorded.setChannel (by cases direction <;> rfl) fun here => ?_
    subst here
    have different : call.direction ≠ direction := fun same =>
      alone t blocked call busy ⟨chanFromHandle_inj recorded.named named, same⟩
    have waiters := recorded.waiter
    have level := recorded.level
    cases callDirection : call.direction <;> cases direction <;>
      simp_all [Channel.setWaiter, Channel.waiter]

end

theorem setWaiter_setWaiter (kernel : KernelState n) (slot : Slot) (direction : Direction)
    (first second : Option (Fin n)) :
    (kernel.setWaiter slot direction first).setWaiter slot direction second =
      kernel.setWaiter slot direction second := by
  cases direction <;>
    simp [setWaiter, setChannel, Ipc.setChannel, Channel.setWaiter]

theorem recorded_setWaiter (named : chanFromHandle kernel.ipc call.handle = some call.slot)
    (level : (kernel.ipc.channels call.slot).count = call.direction.level) (t : Fin n) :
    Recorded (kernel.setWaiter call.slot call.direction (some t)).ipc t call := by
  obtain ⟨low, handle⟩ := chanFromHandle_eq_some.mp named
  have channel : (kernel.setWaiter call.slot call.direction (some t)).ipc.channels call.slot =
      (kernel.ipc.channels call.slot).setWaiter (some t) call.direction := setChannel_same _ _ _
  refine ⟨chanFromHandle_eq_some.mpr ⟨low, ?_⟩, ?_, ?_⟩ <;> rw [channel]
  · cases call.direction <;> exact handle
  · cases call.direction <;> rfl
  · rw [← level]
    cases call.direction <;> rfl

/-- After an attempt to wait the call returns, or the thread is blocked in it and
recorded. -/
theorem Watched.waitOn (watched : Watched kernel calls)
    (named : chanFromHandle kernel.ipc call.handle = some call.slot)
    (level : (kernel.ipc.channels call.slot).count = call.direction.level)
    (alone : kernel.noneWaits calls call.handle call.direction) :
    (∃ result after, kernel.waitOn call.slot call.direction = (some result, after) ∧
      Watched after calls) ∨
    ∃ c after, kernel.sched.current = some c ∧
      kernel.waitOn call.slot call.direction = (none, after) ∧
      Watched after (update calls c (some call)) := by
  cases current : kernel.sched.current with
  | none => exact .inl ⟨(.errAgain, none), kernel, by simp [KernelState.waitOn, current], watched⟩
  | some c =>
    have cleared := watched.setWaiter named alone none
    have marked := watched.setWaiter named alone (some c)
    simp only [KernelState.waitOn, current, setWaiter_setWaiter]
    rcases blockCurrent_effect marked.structured c with
      ⟨s, refused, structured, same, states⟩ | ⟨s, undone, structured, running, states⟩ |
      ⟨s, next, switched, structured, running, states⟩
    · have calm : Calm kernel.sched s := by
        refine ⟨structured, fun t blocked => states ▸ blocked, fun u this => ?_⟩
        rw [states]
        exact watched.awake u (same ▸ this)
      exact .inl ⟨(.errAgain, none), _, by simp [refused], cleared.calm calm⟩
    · have calm : Calm kernel.sched s :=
        Calm.running structured running states fun _ blocked => blocked
      exact .inl ⟨(.errAgain, none), _, by simp [undone], cleared.calm calm⟩
    · simp only [switched]
      refine .inr ⟨c, _, rfl, rfl, ?_⟩
      have shrinks : ∀ t, s.stateOf t = .blocked → t = c ∨
          (kernel.setWaiter call.slot call.direction (some c)).sched.stateOf t = .blocked := by
        intro t blocked
        rw [states] at blocked
        by_cases here : t = c
        · exact .inl here
        · by_cases next : t = next
          · simp [next] at blocked
          · exact .inr (by simpa [here, next] using blocked)
      refine ⟨marked.pool, structured, fun u this => ?_, fun t other busy =>
        ?_, fun t other blocked busy => ?_⟩
      · cases running.symm.trans this
        simp [states]
      · by_cases here : t = c
        · simp only [here, update_self, Option.some.injEq] at busy
          exact busy ▸ (chanFromHandle_eq_some.mp named).1
        · exact watched.slots t other (by simpa [here] using busy)
      · by_cases here : t = c
        · subst here
          simp only [update_self] at busy
          cases busy
          exact recorded_setWaiter named level t
        · refine marked.covers t other ?_ (by simpa [here] using busy)
          exact (shrinks t blocked).resolve_left here

/-- One round of `ipc_send` or `ipc_recv` returns or finds the channel full or empty. -/
theorem Watched.round {call : PendingCall} (watched : Watched kernel calls)
    (low : call.handle &&& 0xFF = call.slot + 1) :
    (∃ result after, kernel.round call = (some result, after) ∧ Watched after calls) ∨
    (kernel.round call = kernel.waitOn call.slot call.direction ∧
      chanFromHandle kernel.ipc call.handle = some call.slot ∧
      (kernel.ipc.channels call.slot).count = call.direction.level) := by
  -- the slot a handle names is in its low byte
  have here : ∀ slot, chanFromHandle kernel.ipc call.handle = some slot → slot = call.slot := by
    intro slot named
    have same := (chanFromHandle_eq_some.mp named).1
    exact Fin.ext (by omega)
  cases call with
  | send h slot msg =>
    have kept := watched.trysend h (some msg)
    simp only [KernelState.round]
    rcases ipcTrysend_spec watched.pool h (some msg) with
      ⟨r, -, refused, isFull⟩ | ⟨other, m, -, -, -, accepted⟩
    · rw [refused]
      by_cases full : r = .errFull
      · obtain ⟨other, named, -, level⟩ := isFull.mp full
        cases here other named
        subst full
        exact .inr ⟨rfl, named, level⟩
      · refine .inl ⟨(r, none), kernel, ?_, watched⟩
        cases r <;> first | exact absurd rfl full | rfl
    · rw [accepted] at kept ⊢
      exact .inl ⟨_, _, rfl, kept⟩
  | recv h slot typeFilter =>
    have kept := watched.tryrecv h typeFilter true
    simp only [KernelState.round]
    rcases ipcTryrecv_spec watched.pool h typeFilter true with
      ⟨r, -, refused, isEmpty⟩ | ⟨other, -, -, accepted⟩
    · rw [refused]
      by_cases empty : r = .errEmpty
      · obtain ⟨other, named, -, level⟩ := isEmpty.mp empty
        cases here other named
        subst empty
        exact .inr ⟨rfl, named, level⟩
      · refine .inl ⟨(r, none), kernel, ?_, watched⟩
        cases r <;> first | exact absurd rfl empty | rfl
    · rw [accepted] at kept ⊢
      exact .inl ⟨_, _, rfl, kept⟩

end Zapada.Kernel
