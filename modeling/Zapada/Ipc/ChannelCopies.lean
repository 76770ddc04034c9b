import Zapada.Ipc.NamedChannels

namespace Zapada.Ipc

open Foundation Function

/-- The request that a Send has yet to write. -/
def Activity.unsent : Activity → List UInt8
  | sendWait send | sendWrite send => send.data
  | _ => []

/-- Every request fits in its buffer, also those that are written next. -/
structure Bounded {Process : Type} (table : ChannelTable) (calls : Process → Option Activity) :
    Prop where
  request : ∀ slot, (table slot).request.length ≤ namedChannelBufMax
  unsent : ∀ p, ∀ activity ∈ calls p, activity.unsent.length ≤ namedChannelBufMax

variable {Process : Type} [DecidableEq Process] {world after : ChannelWorld Process} {p : Process}
  {table : ChannelTable} {calls : Process → Option Activity}

namespace Bounded

omit [DecidableEq Process] in
theorem setChannel (bounded : Bounded table calls)
    (request : ch.request.length ≤ namedChannelBufMax) :
    Bounded (update table slot ch) calls where
  request := (forall_update_iff table fun _ ch => ch.request.length ≤ _).mpr
    ⟨request, fun other _ => bounded.request other⟩
  unsent := bounded.unsent

theorem setCall (bounded : Bounded table calls)
    (unsent : ∀ activity ∈ next, activity.unsent.length ≤ namedChannelBufMax) :
    Bounded table (update calls p next) where
  request := bounded.request
  unsent :=
    (forall_update_iff calls fun _ call => ∀ activity ∈ call, activity.unsent.length ≤ _).mpr
    ⟨unsent, fun q _ => bounded.unsent q⟩

theorem advance (bounded : Bounded world.table world.calls) (doing : world.calls p = some activity)
    (taken : world.advance pid p activity = some after) : Bounded after.table after.calls := by
  have unsent := bounded.unsent p activity doing
  cases activity with
  | sendWait | sendAwait | receiveWait =>
    simp only [ChannelWorld.advance, Option.ite_none_left_eq_some,
      Option.ite_none_right_eq_some] at taken
    cases taken.2
    exact bounded.setCall (by simp_all [Activity.unsent])
  | sendWrite =>
    cases taken
    exact setCall (bounded.setChannel unsent) (by simp [Activity.unsent])
  | sendTake | receiveCopy =>
    cases taken
    exact bounded.setCall (by simp [Activity.unsent])
  | _ =>
    cases taken
    exact setCall (bounded.setChannel (bounded.request _)) (by simp [Activity.unsent])

theorem begin (bounded : Bounded world.table world.calls) (call : IpcCall) :
    Bounded (world.begin pid p call).table (world.begin pid p call).calls := by
  cases call with
  | create name =>
    cases name with
    | none => exact bounded
    | some str =>
      simp only [ChannelWorld.begin]
      rcases sysChannelCreate_cases pid world.table str with ⟨code, refused⟩ | ⟨slot, -, created⟩
      · rw [refused]
        exact bounded
      · rw [created]
        exact bounded.setChannel (Nat.zero_le _)
  | openName name => exact bounded
  | close channel =>
    simp only [ChannelWorld.begin]
    rcases sysChannelClose_cases world.table channel with ⟨code, refused⟩ | ⟨slot, -, -, closed⟩
    · rw [refused]
      exact bounded
    · rw [closed]
      exact bounded.setChannel (Nat.zero_le _)
  | send channel offset count array =>
    simp only [ChannelWorld.begin]
    cases checked : checkData world.table channel offset count array.length with
    | error code => exact bounded
    | ok slot =>
      refine bounded.setCall ?_
      rintro _ ⟨⟩
      exact (List.length_take_le ..).trans (checkData_ok checked).2.2.2.2
  | receive channel offset capacity arrLen | reply channel offset count array =>
    simp only [ChannelWorld.begin]
    split
    · exact bounded
    · exact bounded.setCall (by simp [Activity.unsent])

theorem reached (run : (processMachine Process pid).Run labels world) :
    Bounded world.table world.calls := by
  induction run with
  | start first =>
    cases first
    exact ⟨fun _ => Nat.zero_le _, by simp [ChannelWorld.start]⟩
  | @next _ before label after earlier taken bounded =>
    change before.step pid label = some after at taken
    unfold ChannelWorld.step at taken
    split at taken
    · cases taken
      exact bounded.begin _
    · next doing => exact bounded.advance doing taken
    · unfold ChannelWorld.timeout at taken
      split at taken
      all_goals cases taken
      all_goals exact bounded.setCall (by simp)
    · contradiction

end Bounded

end Zapada.Ipc
