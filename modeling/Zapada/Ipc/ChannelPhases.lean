import Zapada.Ipc.NamedChannels

/-! One request at a time: the phases a channel goes through when its users keep to the
request and reply discipline. -/

namespace Zapada.Ipc

variable {Process : Type}

/-- No process is, on this channel, at a point of the given kind. -/
def ChannelWorld.Nobody (world : ChannelWorld Process) (slot : ChannelSlot)
    (kind : Activity → Bool) : Prop :=
  ∀ p, ∀ activity ∈ world.calls p, activity.slot = slot → kind activity = false

/-- One Send at a time is behind its first loop. A Reply comes from the process that
received the pending request, and no Receive or Reply overlaps it. Nobody serves a request
when its Send gives up, and the channel is then closed and created again before it is
used. A channel is closed only when no call on it is in progress. -/
def ChannelWorld.disciplinedStep (world : ChannelWorld Process) (p : Process) : ProcessStep →
      Option Activity → Prop
  | .advance, some (.sendWait send) =>
    world.abandoned send.slot = false ∧ world.Nobody send.slot Activity.outstanding
  | .advance, some (.sendTake send) => (world.table send.slot).reply.length ≤ send.room
  | .advance, some (.receiveWait receive) =>
    world.abandoned receive.slot = false ∧ world.Nobody receive.slot Activity.replying
  | .timeout, some (.sendAwait send) =>
    world.Nobody send.slot Activity.receiving ∧ world.Nobody send.slot Activity.replying
  | .call (.reply channel offset count array), none =>
    ∀ slot ∈ (checkData world.table channel offset count array.length).toOption,
      world.abandoned slot = false ∧ (world.table slot).hasRequest = true ∧
      world.received p slot = world.requestOf slot ∧
      world.Nobody slot Activity.receiving ∧ world.Nobody slot Activity.replying
  | .call (.close channel), none =>
    ∀ slot ∈ (checkHandle world.table channel).toOption, world.Nobody slot fun _ => true
  | _, _ => True

def ChannelWorld.disciplined (world : ChannelWorld Process) (label : Process × ProcessStep) :
    Prop :=
  world.disciplinedStep label.1 label.2 (world.calls label.1)

instance [Fintype Process] (world : ChannelWorld Process) (slot : ChannelSlot)
    (kind : Activity → Bool) : Decidable (world.Nobody slot kind) :=
  inferInstanceAs (Decidable (∀ p, ∀ activity ∈ world.calls p, _ → _))

instance [Fintype Process] (world : ChannelWorld Process) (label : Process × ProcessStep) :
    Decidable (world.disciplined label) := by
  unfold ChannelWorld.disciplined ChannelWorld.disciplinedStep
  split <;> infer_instance

/-- Whoever is engaged on the channel is one of these. -/
def Only (calls : Process → Option Activity) (slot : ChannelSlot)
    (who : Process → Activity → Prop) : Prop :=
  ∀ p, ∀ activity ∈ calls p, activity.slot = slot → activity.engaged = true → who p activity

theorem Only.update [DecidableEq Process] {calls : Process → Option Activity}
    (only : Only calls slot who) (others : ∀ q activity, q ≠ p → who q activity → next q activity)
    (here : ∀ activity ∈ now, activity.engaged = true → next p activity) :
    Only (Function.update calls p now) slot next := by
  intro q activity doing onSlot engaged
  by_cases same : q = p
  · subst same
    rw [Function.update_self] at doing
    exact here activity doing engaged
  · rw [Function.update_of_ne same] at doing
    exact others q activity same (only q activity doing onSlot engaged)

/-- The phase of a channel. In each, the processes that are engaged on it, the flags and
the observers fit together. -/
inductive SlotPhase (world : ChannelWorld Process) (slot : ChannelSlot) : Prop where
  | idle (only : Only world.calls slot fun _ _ => False)
      (noRequest : (world.table slot).hasRequest = false)
      (noReply : (world.table slot).hasReply = false) (kept : world.abandoned slot = false)
  | writing (p : Process) (send : SendCall) (here : send.slot = slot)
      (stands : world.calls p = some (.sendWrite send) ∨
        world.calls p = some (.sendSignal send) ∧ world.requestOf slot = some send.id)
      (only : Only world.calls slot fun q _ => q = p)
      (noRequest : (world.table slot).hasRequest = false)
      (noReply : (world.table slot).hasReply = false) (kept : world.abandoned slot = false)
  | waiting (p : Process) (send : SendCall) (here : send.slot = slot)
      (stands : world.calls p = some (.sendAwait send))
      (only : Only world.calls slot fun q activity => q = p ∨ activity.receiving = true)
      (isSend : world.requestOf slot = some send.id)
      (request : (world.table slot).hasRequest = true)
      (noReply : (world.table slot).hasReply = false) (kept : world.abandoned slot = false)
  | replying (p service : Process) (send : SendCall) (data : List UInt8) (here : send.slot = slot)
      (stands : world.calls p = some (.sendAwait send))
      (serves : world.calls service = some (.replyWrite slot data) ∨
        world.calls service = some (.replyClear slot data) ∧ (world.table slot).reply = data ∨
        world.calls service = some (.replySignal slot data) ∧ (world.table slot).reply = data ∧
          (world.table slot).hasRequest = false)
      (only : Only world.calls slot fun q _ => q = p ∨ q = service)
      (isSend : world.received service slot = some send.id)
      (noReply : (world.table slot).hasReply = false) (kept : world.abandoned slot = false)
  | answered (p service : Process) (send : SendCall) (here : send.slot = slot)
      (stands : world.calls p = some (.sendAwait send) ∨ world.calls p = some (.sendTake send) ∨
        world.calls p = some (.sendClear send (world.table slot).reply))
      (only : Only world.calls slot fun q _ => q = p)
      (made : .answered service (some send.id) (world.table slot).reply ∈ world.log)
      (noRequest : (world.table slot).hasRequest = false)
      (reply : (world.table slot).hasReply = true) (kept : world.abandoned slot = false)
  | abandoned (only : Only world.calls slot fun _ _ => False) (given : world.abandoned slot = true)

/-- A step of one process that concerns one channel. -/
structure Local (world after : ChannelWorld Process) (p : Process) (slot : ChannelSlot) : Prop where
  calls : ∀ q, q ≠ p → after.calls q = world.calls q
  old : ∀ activity ∈ world.calls p, activity.slot = slot
  new : ∀ activity ∈ after.calls p, activity.slot = slot
  table : ∀ other, other ≠ slot → after.table other = world.table other
  requestOf : ∀ other, other ≠ slot → after.requestOf other = world.requestOf other
  received : ∀ q other, other ≠ slot → after.received q other = world.received q other
  abandoned : ∀ other, other ≠ slot → after.abandoned other = world.abandoned other
  log : ∀ observation ∈ world.log, observation ∈ after.log

/-- The two states look the same on the channel. -/
structure Agree (world after : ChannelWorld Process) (slot : ChannelSlot) : Prop where
  calls : ∀ p activity, activity.slot = slot → activity.engaged = true →
    (after.calls p = some activity ↔ world.calls p = some activity)
  table : after.table slot = world.table slot
  requestOf : after.requestOf slot = world.requestOf slot
  received : ∀ p, after.received p slot = world.received p slot
  abandoned : after.abandoned slot = world.abandoned slot
  log : ∀ observation ∈ world.log, observation ∈ after.log

variable {world after : ChannelWorld Process} {p : Process} {slot other : ChannelSlot}

theorem Local.agree (step : Local world after p slot) (elsewhere : other ≠ slot) :
    Agree world after other where
  calls q activity onSlot engaged := by
    by_cases same : q = p
    · subst same
      constructor
      · intro now
        exact absurd (onSlot ▸ step.new activity now) elsewhere
      · intro before
        exact absurd (onSlot ▸ step.old activity before) elsewhere
    · rw [step.calls q same]
  table := step.table other elsewhere
  requestOf := step.requestOf other elsewhere
  received q := step.received q other elsewhere
  abandoned := step.abandoned other elsewhere
  log := step.log

theorem Agree.only (agree : Agree world after slot) (only : Only world.calls slot who) :
    Only after.calls slot who := fun q activity doing onSlot engaged =>
  only q activity ((agree.calls q activity onSlot engaged).mp doing) onSlot engaged

theorem SlotPhase.frame (phase : SlotPhase world slot) (agree : Agree world after slot) :
    SlotPhase after slot := by
  have table := agree.table
  have keeps := fun q activity onSlot engaged => (agree.calls q activity onSlot engaged).mpr
  cases phase with
  | idle only noRequest noReply kept =>
    exact .idle (agree.only only) (table ▸ noRequest) (table ▸ noReply) (agree.abandoned ▸ kept)
  | writing q send here stands only noRequest noReply kept =>
    refine .writing q send here ?_ (agree.only only) (table ▸ noRequest) (table ▸ noReply)
      (agree.abandoned ▸ kept)
    rw [agree.requestOf]
    exact stands.imp (keeps q _ here rfl) (And.imp_left (keeps q _ here rfl))
  | waiting q send here stands only isSend request noReply kept =>
    exact .waiting q send here (keeps q _ here rfl stands) (agree.only only)
      (agree.requestOf ▸ isSend) (table ▸ request) (table ▸ noReply) (agree.abandoned ▸ kept)
  | replying q service send data here stands serves only isSend noReply kept =>
    refine .replying q service send data here (keeps q _ here rfl stands) ?_ (agree.only only)
      (agree.received service ▸ isSend) (table ▸ noReply) (agree.abandoned ▸ kept)
    rw [table]
    exact serves.imp (keeps service _ rfl rfl)
      (Or.imp (And.imp_left (keeps service _ rfl rfl)) (And.imp_left (keeps service _ rfl rfl)))
  | answered q service send here stands only made noRequest reply kept =>
    refine .answered q service send here ?_ (agree.only only) (table ▸ agree.log _ made)
      (table ▸ noRequest) (table ▸ reply) (agree.abandoned ▸ kept)
    rw [table]
    exact stands.imp (keeps q _ here rfl) (Or.imp (keeps q _ here rfl) (keeps q _ here rfl))
  | abandoned only given => exact .abandoned (agree.only only) (agree.abandoned ▸ given)

theorem Local.phases (step : Local world after p slot) (phases : ∀ other, SlotPhase world other)
    (here : SlotPhase after slot) (other : ChannelSlot) : SlotPhase after other := by
  by_cases same : other = slot
  · exact same ▸ here
  · exact (phases other).frame (step.agree same)

namespace SlotPhase

variable {send : SendCall} {receive : ReceiveCall}

/-- Behind its first loop and before its second, a Send has the channel to itself. -/
theorem of_writing (phase : SlotPhase world send.slot) (doing : world.calls p = some activity)
    (isSend : activity = .sendWrite send ∨ activity = .sendSignal send) :
    Only world.calls send.slot (fun q _ => q = p) ∧ (world.table send.slot).hasRequest = false ∧
      (world.table send.slot).hasReply = false ∧ world.abandoned send.slot = false ∧
      (activity = .sendSignal send → world.requestOf send.slot = some send.id) := by
  obtain ⟨onSlot, isEngaged⟩ : activity.slot = send.slot ∧ activity.engaged = true := by
    rcases isSend with rfl | rfl <;> exact ⟨rfl, rfl⟩
  cases phase with
  | idle only | abandoned only => exact (only p activity doing onSlot isEngaged).elim
  | writing q send' here stands' only noRequest noReply kept =>
    obtain rfl := only p activity doing onSlot isEngaged
    grind
  | waiting _ _ _ _ only | replying _ _ _ _ _ _ _ only | answered _ _ _ _ _ only =>
    have := only p activity doing onSlot isEngaged
    grind [Activity.receiving]

/-- A set reply flag means that the waiting Send has been answered, and behind its second
loop a Send always has. -/
theorem of_taking (phase : SlotPhase world send.slot) (doing : world.calls p = some activity)
    (isSend : activity = .sendAwait send ∧ (world.table send.slot).hasReply = true ∨
      activity = .sendTake send ∨ ∃ taken, activity = .sendClear send taken) :
    Only world.calls send.slot (fun q _ => q = p) ∧ (world.table send.slot).hasRequest = false ∧
      (world.table send.slot).hasReply = true ∧ world.abandoned send.slot = false ∧
      (∃ service, .answered service (some send.id) (world.table send.slot).reply ∈ world.log) ∧
      ∀ taken, activity = .sendClear send taken → taken = (world.table send.slot).reply := by
  obtain ⟨onSlot, isEngaged⟩ : activity.slot = send.slot ∧ activity.engaged = true := by
    rcases isSend with ⟨rfl, -⟩ | rfl | ⟨taken, rfl⟩ <;> exact ⟨rfl, rfl⟩
  cases phase with
  | idle only | abandoned only => exact (only p activity doing onSlot isEngaged).elim
  | writing _ _ _ _ only | waiting _ _ _ _ only | replying _ _ _ _ _ _ _ only =>
    have := only p activity doing onSlot isEngaged
    grind [Activity.receiving]
  | answered q service send' here stands' only made noRequest reply kept =>
    obtain rfl := only p activity doing onSlot isEngaged
    grind

theorem of_receiving (phase : SlotPhase world receive.slot)
    (doing : world.calls p = some (.receiveCopy receive)) :
    ∃ q send, q ≠ p ∧ send.slot = receive.slot ∧ world.calls q = some (.sendAwait send) ∧
      Only world.calls receive.slot (fun r activity => r = q ∨ activity.receiving = true) ∧
      world.requestOf receive.slot = some send.id ∧
      (world.table receive.slot).hasRequest = true ∧ (world.table receive.slot).hasReply = false ∧
      world.abandoned receive.slot = false := by
  cases phase with
  | idle only | abandoned only => exact (only p _ doing rfl rfl).elim
  | waiting q send' here stands' only isSend request noReply kept =>
    exact ⟨q, send', by grind, here, stands', only, isSend, request, noReply, kept⟩
  | writing _ _ _ _ only | replying _ _ _ _ _ _ _ only | answered _ _ _ _ _ only =>
    have := only p _ doing rfl rfl
    grind

theorem of_replying (phase : SlotPhase world slot) (doing : world.calls p = some activity)
    (isReply : activity = .replyWrite slot data ∨ activity = .replyClear slot data ∨
      activity = .replySignal slot data) :
    ∃ q send, q ≠ p ∧ send.slot = slot ∧ world.calls q = some (.sendAwait send) ∧
      Only world.calls slot (fun r _ => r = q ∨ r = p) ∧
      world.received p slot = some send.id ∧ (world.table slot).hasReply = false ∧
      world.abandoned slot = false ∧
        (activity ≠ .replyWrite slot data → (world.table slot).reply = data) ∧
      (activity = .replySignal slot data → (world.table slot).hasRequest = false) := by
  obtain ⟨onSlot, isEngaged⟩ : activity.slot = slot ∧ activity.engaged = true := by
    rcases isReply with rfl | rfl | rfl <;> exact ⟨rfl, rfl⟩
  cases phase with
  | idle only | abandoned only => exact (only p activity doing onSlot isEngaged).elim
  | writing _ _ _ _ only | waiting _ _ _ _ only | answered _ _ _ _ _ only =>
    have := only p activity doing onSlot isEngaged
    grind [Activity.receiving]
  | replying q service send' data' here stands' serves only isSend noReply kept =>
    have isService : p = service := by
      have := only p activity doing onSlot isEngaged
      grind
    subst isService
    refine ⟨q, send', ?_, here, stands', only, isSend, noReply, kept, ?_, ?_⟩ <;> grind

end SlotPhase

end Zapada.Ipc
