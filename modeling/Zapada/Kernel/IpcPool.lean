import Zapada.Kernel.Ipc

namespace Zapada.Kernel

open Foundation Channel Option

variable {n : Nat}

@[simp] theorem msgCopy_eq (src : Message) : msgCopy src = src := by
  simp [msgCopy]

/-- The messages in a channel, oldest first. -/
def Channel.messages (channel : Channel n) : List Message :=
  RingBuffer.contents channel.ring ipcChannelCapacity channel.head channel.count

/-- A free channel has no handle, an open one has a handle for its slot, and the
ring indices agree. -/
structure ChannelOk (slot : Slot) (channel : Channel n) : Prop where
  notClosed : channel.state ≠ .chanClosed
  free : channel.state = .chanFree → channel.handle = ipcHandleInvalid
  opened : channel.state = .chanOpen → channel.handle &&& 0xFF = slot + 1
  head : channel.head < ipcChannelCapacity
  tail : channel.tail = (channel.head + channel.count) % ipcChannelCapacity
  count : channel.count ≤ ipcChannelCapacity

def Pool (ipc : Ipc n) : Prop := ∀ slot, ChannelOk slot (ipc.channels slot)

theorem chanFromHandle_eq_some {ipc : Ipc n} {h : Nat} {slot : Slot} :
    chanFromHandle ipc h = some slot ↔
      h &&& 0xFF = slot + 1 ∧ (ipc.channels slot).handle = h := by
  simp only [chanFromHandle]
  split
  · rename_i invalid
    subst invalid
    simp [ipcHandleInvalid]
  · split
    · rename_i outside
      simp only [reduceCtorEq, false_iff, not_and]
      omega
    · rename_i pooled
      split
      · rename_i other
        simp only [reduceCtorEq, false_iff, not_and]
        intro low same
        refine other ?_
        have position : (⟨(h &&& 0xFF) - 1, by omega⟩ : Slot) = slot := Fin.ext (by simp [low])
        rw [position]
        exact same
      · rename_i same
        rw [some.injEq]
        constructor
        · rintro rfl
          simp only
          omega
        · rintro ⟨low, -⟩
          exact Fin.ext (by simp [low])

theorem Pool.opened {ipc : Ipc n} (pool : Pool ipc) (named : chanFromHandle ipc h = some slot) :
    (ipc.channels slot).state = .chanOpen := by
  obtain ⟨low, handle⟩ := chanFromHandle_eq_some.mp named
  cases state : (ipc.channels slot).state with
  | chanOpen => rfl
  | chanClosed => exact absurd state (pool slot).notClosed
  | chanFree =>
    have zero := (pool slot).free state
    rw [handle] at zero
    subst zero
    simp [ipcHandleInvalid] at low

theorem chanFromHandle_inj {ipc : Ipc n} (one : chanFromHandle ipc h = some slot)
    (two : chanFromHandle ipc h' = some slot) : h = h' :=
  (chanFromHandle_eq_some.mp one).2.symm.trans (chanFromHandle_eq_some.mp two).2

theorem chanFromHandle_ne_invalid {ipc : Ipc n} (named : chanFromHandle ipc h = some slot) :
    h ≠ ipcHandleInvalid := by
  rintro rfl
  have low := (chanFromHandle_eq_some.mp named).1
  simp [ipcHandleInvalid] at low

theorem handleOf_low (generation : Nat) (slot : Slot) :
    handleOf generation slot &&& 0xFF = slot + 1 := by
  have small : (slot : Nat) + 1 < 2 ^ 8 := by
    have inside : (slot : Nat) < 16 := slot.isLt
    omega
  have mask : ∀ h : Nat, h &&& 0xFF = h % 2 ^ 8 := fun h => Nat.and_two_pow_sub_one_eq_mod h 8
  simp only [handleOf]
  rw [← Nat.shiftLeft_add_eq_or_of_lt small, Nat.shiftLeft_eq, mask]
  split <;> omega

section Calls

theorem chanFromHandle_congr {ipc ipc' : Ipc n}
    (same : ∀ slot, (ipc'.channels slot).handle = (ipc.channels slot).handle) (h : Nat) :
    chanFromHandle ipc' h = chanFromHandle ipc h := by
  have names : ∀ slot, chanFromHandle ipc' h = some slot ↔ chanFromHandle ipc h = some slot := by
    intro slot
    rw [chanFromHandle_eq_some, chanFromHandle_eq_some, same]
  exact Option.ext names

variable {kernel : KernelState n}

@[simp] theorem wake_ipc (kernel : KernelState n) (waiter : Option (Fin n)) :
    (kernel.wake waiter).ipc = kernel.ipc := by
  cases waiter <;> rfl

@[simp] theorem setChannel_same (ipc : Ipc n) (slot : Slot) (channel : Channel n) :
    (ipc.setChannel slot channel).channels slot = channel := by
  simp [Ipc.setChannel]

theorem setChannel_other (ipc : Ipc n) (channel : Channel n) (different : other ≠ slot) :
    (ipc.setChannel slot channel).channels other = ipc.channels other := by
  simp [Ipc.setChannel, different]

theorem Pool.setChannel {ipc : Ipc n} (pool : Pool ipc) (fine : ChannelOk slot channel) :
    Pool (ipc.setChannel slot channel) := by
  intro other
  by_cases same : other = slot
  · subst same
    simpa using fine
  · rw [setChannel_other ipc channel same]
    exact pool other

theorem ChannelOk.push {channel : Channel n} (fine : ChannelOk slot channel)
    (room : channel.count < ipcChannelCapacity) (msg : Message) :
    ChannelOk slot (channel.push msg) := by
  refine { fine with tail := ?_, count := room }
  simp only [Channel.push, fine.tail]
  exact RingBuffer.next_tail _ _ _

theorem ChannelOk.pop {channel : Channel n} (fine : ChannelOk slot channel)
    (some_left : channel.count ≠ 0) : ChannelOk slot channel.pop := by
  obtain ⟨count, same⟩ := Nat.exists_eq_succ_of_ne_zero some_left
  have bounded := fine.count
  refine { fine with head := Nat.mod_lt _ (by decide), tail := ?_, count := ?_ }
  · simp only [Channel.pop, fine.tail, same, Nat.succ_sub_one]
    exact (RingBuffer.same_tail _ _ _).symm
  · simp only [Channel.pop]
    omega

theorem channelOk_free (slot : Slot) (channel : Channel n) :
    ChannelOk slot (channel.reset .chanFree ipcHandleInvalid) where
  notClosed := by simp [reset]
  free _ := rfl
  opened := by simp [reset]
  head := by simp [reset, ipcChannelCapacity]
  tail := rfl
  count := Nat.zero_le _

theorem channelOk_open (slot : Slot) (channel : Channel n) (generation : Nat) :
    ChannelOk slot (channel.reset .chanOpen (handleOf generation slot)) where
  notClosed := by simp [reset]
  free := by simp [reset]
  opened _ := handleOf_low generation slot
  head := by simp [reset, ipcChannelCapacity]
  tail := rfl
  count := Nat.zero_le _

theorem ChannelOk.messages_push {channel : Channel n} (fine : ChannelOk slot channel)
    (room : channel.count < ipcChannelCapacity) (msg : Message) :
    (channel.push msg).messages = channel.messages ++ [msg] := by
  simp only [Channel.messages, Channel.push, msgCopy_eq, fine.tail]
  exact RingBuffer.contents_push channel.ring msg room

theorem ChannelOk.messages_pop {channel : Channel n} (fine : ChannelOk slot channel)
    (some_left : channel.count ≠ 0) :
    channel.messages = channel.ring channel.head :: channel.pop.messages := by
  obtain ⟨count, same⟩ := Nat.exists_eq_succ_of_ne_zero some_left
  simp only [Channel.messages, Channel.pop, same, Nat.succ_sub_one]
  exact RingBuffer.contents_pop channel.ring fine.head

/-- Replacing the channel of one slot changes what the handles of that slot name. -/
theorem chanFromHandle_setChannel (ipc : Ipc n) (slot : Slot) (channel : Channel n) (h : Nat) :
    chanFromHandle (ipc.setChannel slot channel) h =
      if h &&& 0xFF = slot + 1 then (if channel.handle = h then some slot else none)
      else chanFromHandle ipc h := by
  refine Option.ext fun other => ?_
  by_cases here : other = slot
  · subst here
    rw [chanFromHandle_eq_some, setChannel_same]
    by_cases low : h &&& 0xFF = other + 1
    · by_cases same : channel.handle = h <;> simp [low, same]
    · have unnamed : ¬ chanFromHandle ipc h = some other := by
        rw [chanFromHandle_eq_some]
        exact fun named => low named.1
      simp [low, unnamed]
  · rw [chanFromHandle_eq_some, setChannel_other ipc channel here, ← chanFromHandle_eq_some]
    by_cases low : h &&& 0xFF = slot + 1
    · have unnamed : ¬ chanFromHandle ipc h = some other := by
        rw [chanFromHandle_eq_some]
        rintro ⟨otherLow, -⟩
        exact here (Fin.ext (by omega))
      rw [if_pos low]
      constructor
      · exact fun named => absurd named unnamed
      · intro named
        split at named
        · cases named
          exact absurd rfl here
        · contradiction
    · rw [if_neg low]

theorem chanFromHandle_destroyed (named : chanFromHandle ipc h = some slot)
    (channel : Channel n) (other : Nat) :
    chanFromHandle (ipc.setChannel slot (channel.reset .chanFree ipcHandleInvalid)) other =
      if other = h then none else chanFromHandle ipc other := by
  obtain ⟨low, handle⟩ := chanFromHandle_eq_some.mp named
  rw [chanFromHandle_setChannel]
  by_cases same : other = h
  · subst same
    have valid : ¬ ipcHandleInvalid = other := (chanFromHandle_ne_invalid named).symm
    simp [low, reset, valid]
  · rw [if_neg same]
    split
    · rename_i here
      have unnamed : chanFromHandle ipc other = none := by
        rw [eq_none_iff_forall_ne_some]
        intro s found
        obtain ⟨lowAgain, handleAgain⟩ := chanFromHandle_eq_some.mp found
        have position : s = slot := Fin.ext (by omega)
        subst position
        exact same (handleAgain.symm.trans handle)
      rw [unnamed]
      split
      · rename_i zero
        subst zero
        simp [reset, ipcHandleInvalid] at here
      · rfl
    · rfl

theorem chanFromHandle_created (pool : Pool ipc)
    (free : (ipc.channels slot).state = .chanFree) (channel : Channel n) (generation other : Nat) :
    chanFromHandle (ipc.setChannel slot (channel.reset .chanOpen (handleOf generation slot)))
      other =
      if other = handleOf generation slot then some slot else chanFromHandle ipc other := by
  rw [chanFromHandle_setChannel]
  by_cases same : other = handleOf generation slot
  · subst same
    simp [handleOf_low, reset]
  · rw [if_neg same]
    split
    · rename_i here
      have unnamed : chanFromHandle ipc other = none := by
        rw [eq_none_iff_forall_ne_some]
        intro s found
        have position : s = slot := Fin.ext (by
          have := (chanFromHandle_eq_some.mp found).1
          omega)
        subst position
        rw [pool.opened found] at free
        contradiction
      rw [unnamed, if_neg]
      exact fun equal => same equal.symm
    · rfl

/-- `ipc_trysend` refuses and changes nothing, or stores the message in the
channel that the handle names. -/
theorem ipcTrysend_spec (pool : Pool kernel.ipc) (h : Nat) (msg : Option Message) :
    (∃ r, r ≠ .ok ∧ ipcTrysend kernel h msg = (r, kernel) ∧
      (r = .errFull ↔ ∃ slot, chanFromHandle kernel.ipc h = some slot ∧ msg.isSome ∧
        (kernel.ipc.channels slot).count = ipcChannelCapacity)) ∨
    ∃ slot m, msg = some m ∧ chanFromHandle kernel.ipc h = some slot ∧
      (kernel.ipc.channels slot).count < ipcChannelCapacity ∧ ipcTrysend kernel h msg = (.ok,
        (kernel.setChannel slot ((kernel.ipc.channels slot).push m)).wake
          (kernel.ipc.channels slot).blockedReceiver) := by
  cases msg with
  | none => exact .inl ⟨.errInval, by decide, rfl, by simp⟩
  | some m =>
    cases named : chanFromHandle kernel.ipc h with
    | none =>
      refine .inl ⟨.errInval, by decide, ?_, by simp⟩
      simp only [ipcTrysend, named]
      split <;> rfl
    | some slot =>
      have opened := pool.opened named
      have valid := chanFromHandle_ne_invalid named
      by_cases full : ipcChannelCapacity ≤ (kernel.ipc.channels slot).count
      · refine .inl ⟨.errFull, by decide, ?_, ?_⟩
        · simp [ipcTrysend, valid, named, opened, full]
        · have count := (pool slot).count
          simp only [some.injEq, exists_eq_left', isSome_some, true_and, true_iff]
          omega
      · refine .inr ⟨slot, m, rfl, rfl, by omega, ?_⟩
        simp [ipcTrysend, valid, named, opened, full]

/-- `ipc_tryrecv` refuses and changes nothing, or takes the oldest message of
the channel that the handle names. -/
theorem ipcTryrecv_spec (pool : Pool kernel.ipc) (h : Nat) (typeFilter : UInt32) (msgOut : Bool) :
    (∃ r, r ≠ .ok ∧ ipcTryrecv kernel h typeFilter msgOut = (r, none, kernel) ∧
      (r = .errEmpty ↔ ∃ slot, chanFromHandle kernel.ipc h = some slot ∧ msgOut = true ∧
        (kernel.ipc.channels slot).count = 0)) ∨ ∃ slot, chanFromHandle kernel.ipc h = some slot ∧
      (kernel.ipc.channels slot).count ≠ 0 ∧ ipcTryrecv kernel h typeFilter msgOut = (.ok,
        some ((kernel.ipc.channels slot).ring (kernel.ipc.channels slot).head),
        (kernel.setChannel slot (kernel.ipc.channels slot).pop).wake
          (kernel.ipc.channels slot).blockedSender) := by
  cases msgOut with
  | false => exact .inl ⟨.errInval, by decide, by simp [ipcTryrecv], by simp⟩
  | true =>
    cases named : chanFromHandle kernel.ipc h with
    | none =>
      refine .inl ⟨.errInval, by decide, ?_, by simp⟩
      simp only [ipcTryrecv, named]
      split <;> rfl
    | some slot =>
      have opened := pool.opened named
      have valid := chanFromHandle_ne_invalid named
      by_cases none : (kernel.ipc.channels slot).count = 0
      · exact .inl ⟨.errEmpty, by decide, by simp [ipcTryrecv, valid, named, opened, none],
          by simp [none]⟩
      · by_cases filtered : typeFilter ≠ ipcMsgTypeAny ∧
            ((kernel.ipc.channels slot).ring (kernel.ipc.channels slot).head).type ≠ typeFilter
        · refine .inl ⟨.errType, by decide, ?_, by simp [none]⟩
          simp [ipcTryrecv, valid, named, opened, none, filtered]
        · refine .inr ⟨slot, rfl, none, ?_⟩
          simp [ipcTryrecv, valid, named, opened, none, filtered]

theorem ipcChannelIsOpen_eq (pool : Pool kernel.ipc) (h : Nat) :
    ipcChannelIsOpen kernel h = (chanFromHandle kernel.ipc h).isSome := by
  cases named : chanFromHandle kernel.ipc h with
  | none =>
    simp only [ipcChannelIsOpen, named]
    split <;> rfl
  | some slot =>
    have valid := chanFromHandle_ne_invalid named
    simp [ipcChannelIsOpen, named, valid, pool.opened named]

theorem ipcChannelDestroy_spec (pool : Pool kernel.ipc) (h : Nat) :
    (chanFromHandle kernel.ipc h = none ∧ ipcChannelDestroy kernel h = (.errInval, kernel)) ∨
    ∃ slot, chanFromHandle kernel.ipc h = some slot ∧ ipcChannelDestroy kernel h = (.ok,
      kernel.setChannel slot ((kernel.ipc.channels slot).reset .chanFree ipcHandleInvalid)) := by
  cases named : chanFromHandle kernel.ipc h with
  | none =>
    refine .inl ⟨rfl, ?_⟩
    simp only [ipcChannelDestroy, named]
    split <;> rfl
  | some slot =>
    have opened := pool.opened named
    have valid := chanFromHandle_ne_invalid named
    exact .inr ⟨slot, rfl, by simp [ipcChannelDestroy, valid, named, opened]⟩

theorem ipcChannelCreate_spec (kernel : KernelState n) :
    ipcChannelCreate kernel = (ipcHandleInvalid, kernel) ∨
    ∃ slot generation, (kernel.ipc.channels slot).state = .chanFree ∧
      (ipcChannelCreate kernel).1 = handleOf kernel.ipc.nextGeneration slot ∧
      (ipcChannelCreate kernel).2 = { kernel with ipc :=
        { kernel.ipc.setChannel slot ((kernel.ipc.channels slot).reset .chanOpen
            (handleOf kernel.ipc.nextGeneration slot)) with nextGeneration := generation } } := by
  unfold ipcChannelCreate
  split
  · exact .inl rfl
  · rename_i slot found
    refine .inr ⟨slot, _, ?_, rfl, rfl⟩
    simpa using List.find?_some found

end Calls

end Zapada.Kernel
