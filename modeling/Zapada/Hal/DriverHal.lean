import Zapada.Kernel.IpcFifo
import Zapada.Storage.BlockDevice

namespace Zapada.Hal

open Foundation Storage Kernel

/-- The message on the stack as bytes: its payload, and whatever lies behind it. -/
def payloadBytes (message : Message) (beyond : Memory) : Memory := fun i =>
  if i < ipcMsgPayloadMax then (message.payload.toList.getD (i / 8) 0 >>>
    (8 * (i % 8)).toUInt64).toUInt8
  else beyond i

/-- `TryReceive`: the result, the array and the kernel after it. -/
def tryReceive (kernel : KernelState n) (handle : Nat) (typeFilter : UInt32) (elementSize : Nat)
    (payload : Buffer) (beyond : Memory) : IpcResult × Memory × KernelState n :=
  if elementSize ≠ 1 ∨ payload.length < ipcMsgPayloadMax then (.errInval, payload.bytes, kernel)
  else
    match ipcTryrecv kernel handle typeFilter true with
    | (.ok, some message, kernel) =>
      let data : Memory := fun i => if i < payload.length then 0 else payload.bytes i
      let data := (data.store 0 8 message.type.toNat).store 8 8 message.payloadLen.toNat
      (.ok, data.copy 16 message.payloadLen.toNat (payloadBytes message beyond) 0, kernel)
    | (rc, _, kernel) => (rc, payload.bytes, kernel)

/-- Nothing behind the array changes, and nothing behind the message matters. -/
def ReceivesInside (kernel : KernelState n) (handle : Nat) (typeFilter : UInt32) (elementSize : Nat)
    (payload : Buffer) : Prop :=
  ∀ bytes beyond,
    (∀ other, tryReceive kernel handle typeFilter elementSize { payload with bytes } other =
      tryReceive kernel handle typeFilter elementSize { payload with bytes } beyond) ∧
    ∀ i ≥ payload.length,
      (tryReceive kernel handle typeFilter elementSize { payload with bytes } beyond).2.1 i =
        bytes i

/-- The copies of a receive stay inside exactly if the pending message that it takes says
no more bytes than a payload has and than fit behind the two header words. -/
theorem tryReceive_inside_iff (kernel : KernelState n) (handle : Nat) (typeFilter : UInt32)
    (elementSize : Nat)
    (payload : Buffer) : ReceivesInside kernel handle typeFilter elementSize payload ↔
      (elementSize = 1 → ipcMsgPayloadMax ≤ payload.length → ∀ message after,
        ipcTryrecv kernel handle typeFilter true = (.ok, some message, after) →
        message.payloadLen.toNat ≤ ipcMsgPayloadMax ∧
          16 + message.payloadLen.toNat ≤ payload.length) := by
  unfold ReceivesInside tryReceive
  by_cases refused : elementSize ≠ 1 ∨ payload.length < ipcMsgPayloadMax
  · simp only [refused, if_true]
    refine iff_of_true (fun _ _ => ⟨fun _ => trivial, fun _ _ => trivial⟩) fun one long => ?_
    omega
  simp only [refused, if_false]
  obtain ⟨one, long⟩ := not_or.mp refused
  have start : 16 ≤ payload.length := Nat.le_trans (by decide) (Nat.not_lt.mp long)
  rcases ipcTryrecv kernel handle typeFilter true with ⟨rc, message, after⟩
  cases rc <;> cases message
  case ok.some message =>
    simp only [not_not.mp one, Nat.not_lt.mp long, true_imp_iff, Prod.mk.injEq, true_and, and_true,
      Option.some.injEq, and_imp]
    constructor
    · rintro inside _ _ rfl rfl
      constructor
      · by_contra more
        have same := congrFun ((inside payload.bytes fun _ => 0).1 fun _ => 1) 80
        simp only [ipcMsgPayloadMax] at more
        simp [Memory.copy, payloadBytes, ipcMsgPayloadMax,
          show 80 < 16 + message.payloadLen.toNat by omega] at same
      · by_contra more
        have kept :=
          (inside (fun _ => payloadBytes message (fun _ => 0) (payload.length - 16) + 1) fun _ =>
            0).2
          payload.length (Nat.le_refl _)
        simp [Memory.copy, start, Nat.not_le.mp more] at kept
    · intro fits bytes beyond
      obtain ⟨short, room⟩ := fits message after rfl rfl
      constructor
      · intro other
        funext i
        simp only [Memory.copy, payloadBytes]
        split
        · rw [if_pos (by omega), if_pos (by omega)]
        · rfl
      · intro i behind
        simp only [Memory.copy]
        rw [if_neg (by omega), Memory.store_outside _ _ _ _ _ (by omega),
          Memory.store_outside _ _ _ _ _ (by omega),
          if_neg (by omega)]
  all_goals
    refine iff_of_true (fun _ _ => ⟨fun _ => rfl, fun _ _ => rfl⟩) ?_
    simp

/-- A full payload received into the shortest array that is accepted. -/
theorem tryReceive_writes_behind : (tryReceive (Machine.answers KernelState.ipcCall
      { sched := schedInit Fin.elim0, ipc := ipcInit blankIpc } [.channelCreate, .trysend 257 (some
        { type := 1, payloadLen := 64, payload := Vector.replicate 8 0xFFFFFFFFFFFFFFFF })]).2
      257 0 1 ⟨64, fun _ => 0, by decide⟩ fun _ => 0).2.1 64 = 0xFF := by
  decide +kernel

end Zapada.Hal
