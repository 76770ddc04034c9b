import Zapada.Kernel.IpcFifo
import Zapada.Kernel.System

namespace Zapada.Kernel

open Foundation

variable {n : Nat}

/-- The handle of the channel that a call created. -/
def created : IpcCall × IpcReply → Option Nat
  | (.channelCreate, .handle h) => if h = ipcHandleInvalid then none else some h
  | _ => none

def destroyed : IpcCall × IpcReply → Option Nat
  | (.channelDestroy h, .result .ok) => some h
  | _ => none

def creations (log : List (IpcCall × IpcReply)) : List Nat := log.filterMap created

def destructions (log : List (IpcCall × IpcReply)) : List Nat := log.filterMap destroyed

variable {log : List (IpcCall × IpcReply)} {kernel : KernelState n} {ipc after : Ipc n}
  {event : IpcCall × IpcReply}

theorem live_observe (h : Nat) (life : Lifetime) (event : IpcCall × IpcReply) :
    (life.observe h event).live = if created event = some h then true
      else if destroyed event = some h then false else life.live := by
  unfold Lifetime.observe created destroyed
  split <;> split_ifs <;> simp_all

/-- Every handle that is or was in use carries the number of its creation, and a destroyed one
is not in use. -/
structure Numbered (log : List (IpcCall × IpcReply)) (ipc : Ipc n) : Prop where
  next : ipc.nextGeneration = (creations log).length + 1
  issued : ∀ h, (lifetime log h).live = true ∨ h ∈ destructions log →
    h >>> 8 ≤ (creations log).length
  refused : ∀ h ∈ destructions log, (lifetime log h).live = false

/-- A call that creates a channel with the next number, destroys a live one or does neither. -/
theorem Numbered.step (numbered : Numbered log ipc)
    (next : after.nextGeneration = (creations (log ++ [event])).length + 1)
    (fresh : ∀ h, created event = some h → h >>> 8 = (creations (log ++ [event])).length)
    (live : ∀ h, destroyed event = some h → (lifetime log h).live = true) :
    Numbered (log ++ [event]) after := by
  have grows : (creations (log ++ [event])).length =
      (creations log).length + (if created event = none then 0 else 1) := by
    cases made : created event <;> simp [creations, made]
  have member : ∀ h, h ∈ destructions (log ++ [event]) ↔
      h ∈ destructions log ∨ destroyed event = some h := by
    intro h
    cases gone : destroyed event <;> simp [destructions, gone, eq_comm]
  refine ⟨next, fun h issued => ?_, fun h gone => ?_⟩
  · rw [lifetime_append, live_observe, member] at issued
    have before := numbered.issued h
    have isLive := live h
    by_cases made : created event = some h
    · exact Nat.le_of_eq (fresh h made)
    · simp only [made, if_false] at issued
      have bound : h >>> 8 ≤ (creations log).length := by
        split_ifs at issued <;> tauto
      omega
  · rw [lifetime_append, live_observe]
    by_cases made : created event = some h
    · -- a number that was given out before
      have issued := numbered.issued h
      have isLive := live h
      have new := fresh h made
      simp only [made, reduceCtorEq, if_false] at grows
      have bound : h >>> 8 ≤ (creations log).length := by
        rw [member] at gone
        tauto
      omega
    · rw [if_neg made]
      split_ifs with ends
      · rfl
      · exact numbered.refused h (((member h).mp gone).resolve_right ends)

theorem handleOf_high (small : generation < 2 ^ 24) (slot : Slot) :
    handleOf generation slot >>> 8 = generation := by
  have inside : (slot : Nat) < 16 := slot.isLt
  have mask : generation &&& 0x00FFFFFF = generation :=
    (Nat.and_two_pow_sub_one_eq_mod generation 24).trans (Nat.mod_eq_of_lt small)
  simp only [handleOf, mask]
  rw [← Nat.shiftLeft_add_eq_or_of_lt (by omega), Nat.shiftLeft_eq]
  split <;> simp only [Nat.shiftRight_eq_div_pow, ipcHandleInvalid] at * <;> omega

theorem ipcChannelCreate_numbered (kernel : KernelState n) :
    ipcChannelCreate kernel = (ipcHandleInvalid, kernel) ∨
    ∃ slot, (ipcChannelCreate kernel).1 = handleOf kernel.ipc.nextGeneration slot ∧
      (ipcChannelCreate kernel).2.ipc.nextGeneration =
        let following := (kernel.ipc.nextGeneration + 1) % 2 ^ 32
        if following = 0 then 1 else following := by
  unfold ipcChannelCreate
  split
  · exact .inl rfl
  · exact .inr ⟨_, rfl, rfl⟩

theorem Numbered.channelCreate (numbered : Numbered log kernel.ipc) (few : (creations (log ++
      [(.channelCreate, .handle (ipcChannelCreate kernel).1)])).length < 2 ^ 24) :
    Numbered (log ++ [(.channelCreate, .handle (ipcChannelCreate kernel).1)])
      (ipcChannelCreate kernel).2.ipc := by
  have next := numbered.next
  rcases ipcChannelCreate_numbered kernel with full | ⟨slot, made, following⟩
  · rw [full]
    exact numbered.step (by simpa [creations, created] using next) (by simp [created])
      (by simp [destroyed])
  · have low := handleOf_low kernel.ipc.nextGeneration slot
    have valid : handleOf kernel.ipc.nextGeneration slot ≠ ipcHandleInvalid := by
      intro zero
      simp [zero, ipcHandleInvalid] at low
    have isCreated : created (.channelCreate, .handle (ipcChannelCreate kernel).1) =
        some (handleOf kernel.ipc.nextGeneration slot) := by
      simp [created, made, valid]
    have count : (creations (log ++
        [(.channelCreate, .handle (ipcChannelCreate kernel).1)])).length =
          (creations log).length + 1 := by
      simp [creations, isCreated]
    rw [count] at few
    refine numbered.step ?_ ?_ (by simp [destroyed])
    · rw [following, count, next, Nat.mod_eq_of_lt (by omega), if_neg (by omega)]
    · rw [isCreated, count, next]
      rintro h ⟨⟩
      exact handleOf_high few slot

/-- Only creations count on. -/
theorem nextGeneration_ipcCall (kernel : KernelState n) (call : IpcCall)
    (other : call ≠ .channelCreate) :
    (kernel.ipcCall call).2.ipc.nextGeneration = kernel.ipc.nextGeneration := by
  cases call
  case channelCreate => contradiction
  all_goals
    simp only [KernelState.ipcCall, ipcChannelDestroy, ipcTrysend, ipcTryrecv]
    repeat' split
    all_goals simp [KernelState.setChannel, Ipc.setChannel]

theorem ipcMachine_numbered (run : (ipcMachine sched ipc).Run log kernel)
    (few : (creations log).length < 2 ^ 24) : Numbered log kernel.ipc := by
  induction run with
  | start first =>
    subst first
    exact ⟨rfl, by simp [lifetime, destructions], by simp [destructions]⟩
  | @next log before label after earlier taken ih =>
    obtain ⟨call, reply⟩ := label
    obtain ⟨rfl, rfl⟩ : (before.ipcCall call).1 = reply ∧ (before.ipcCall call).2 = after :=
      Prod.mk.inj taken
    have tracks := ipcMachine_tracks earlier
    have numbered := ih (Nat.lt_of_le_of_lt (by simp [creations]) few)
    by_cases create : call = .channelCreate
    · subst create
      exact numbered.channelCreate few
    · have none : ∀ reply, created (call, reply) = none := fun reply => by
        cases call <;> simp_all [created]
      refine numbered.step ?_ (by simp [none]) fun h gone => ?_
      · rw [nextGeneration_ipcCall before call create, numbered.next]
        simp [creations, none]
      · cases call with
        | channelDestroy target =>
          rcases ipcChannelDestroy_spec tracks.pool target with
            ⟨-, refused⟩ | ⟨slot, named, accepted⟩
          · simp [KernelState.ipcCall, refused, destroyed] at gone
          · obtain rfl : target = h := by
              simpa [KernelState.ipcCall, accepted, destroyed] using gone
            rw [tracks.live, named]
            rfl
        | _ => cases gone

/-- No call accepts the handle. -/
structure Refused (kernel : KernelState n) (h : Nat) : Prop where
  trysend : ∀ msg, ipcTrysend kernel h msg = (.errInval, kernel)
  tryrecv : ∀ typeFilter msgOut, ipcTryrecv kernel h typeFilter msgOut = (.errInval, none, kernel)
  blocking : ∀ given, kernel.checkCall h given = .error .errInval
  destroy : ipcChannelDestroy kernel h = (.errInval, kernel)
  isOpen : ipcChannelIsOpen kernel h = false

theorem refused_of_unnamed (unnamed : chanFromHandle kernel.ipc h = none) : Refused kernel h where
  trysend msg := by cases msg <;> simp [ipcTrysend, unnamed]
  tryrecv typeFilter msgOut := by simp [ipcTryrecv, unnamed]
  blocking given := by simp [KernelState.checkCall, unnamed]
  destroy := by simp [ipcChannelDestroy, unnamed]
  isOpen := by simp [ipcChannelIsOpen, unnamed]

/-- With fewer than 2 ^ 24 creations the open channels have different handles, and no call
accepts the handle of a channel that was destroyed. -/
theorem destroyed_handle_refused (run : (ipcMachine sched ipc).Run log kernel)
    (few : (creations log).length < 2 ^ 24) :
    (∀ one two, (kernel.ipc.channels one).state = .chanOpen →
      (kernel.ipc.channels two).state = .chanOpen →
      (kernel.ipc.channels one).handle = (kernel.ipc.channels two).handle → one = two) ∧
    ∀ h ∈ destructions log, Refused kernel h := by
  have tracks := ipcMachine_tracks run
  refine ⟨fun one two openOne openTwo same => ?_, fun h gone => ?_⟩
  · have low := (tracks.pool one).opened openOne
    rw [same, (tracks.pool two).opened openTwo] at low
    exact Fin.ext (by omega)
  · have unnamed := (ipcMachine_numbered run few).refused h gone
    rw [tracks.live, Option.isSome_eq_false_iff, Option.isNone_iff_eq_none] at unnamed
    exact refused_of_unnamed unnamed

/-- A channel, destroyed, and its slot in use again next to another channel. -/
def reusedSlot : List (IpcCall × IpcReply) × KernelState 0 :=
  Machine.answers KernelState.ipcCall { sched := schedInit Fin.elim0, ipc := ipcInit blankIpc }
    [.channelCreate, .channelDestroy 257, .channelCreate, .channelCreate]

theorem destroyed_handle_refused_reused : 257 ∈ destructions reusedSlot.1 ∧
    ipcChannelIsOpen reusedSlot.2 513 = true ∧ ipcChannelIsOpen reusedSlot.2 770 = true ∧
    Refused reusedSlot.2 257 := by
  have few : (creations reusedSlot.1).length < 2 ^ 24 := by decide +kernel
  have gone : 257 ∈ destructions reusedSlot.1 := by decide +kernel
  refine ⟨gone, by decide +kernel, by decide +kernel, ?_⟩
  exact (destroyed_handle_refused (Machine.Run.ofCalls KernelState.ipcCall _ _) few).2 257 gone

end Zapada.Kernel
