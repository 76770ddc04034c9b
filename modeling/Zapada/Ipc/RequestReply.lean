import Zapada.Ipc.ChannelPhases

namespace Zapada.Ipc

open Foundation Function Activity

variable {Process : Type} [DecidableEq Process] {world after : ChannelWorld Process} {p : Process}
  {slot : ChannelSlot} {send : SendCall} {receive : ReceiveCall} {data : List UInt8}

namespace SlotPhase

attribute [local simp] ChannelWorld.setCall ChannelWorld.setChannel ChannelWorld.observe

section

variable (phase : SlotPhase world send.slot)

include phase

theorem enter (kept : world.abandoned send.slot = false)
    (nobody : world.Nobody send.slot outstanding) :
    SlotPhase (world.setCall p (some (.sendWrite send))) send.slot := by
  cases phase with
  | idle only noRequest noReply kept =>
    refine .writing p send rfl (.inl (update_self ..)) (only.update ?_ ?_) noRequest noReply kept
    · exact fun _ _ _ impossible => impossible.elim
    · exact fun _ _ _ => rfl
  | writing q other here stands =>
    rcases stands with stands | ⟨stands, -⟩ <;> cases nobody q _ stands here
  | waiting q other here stands => cases nobody q _ stands here
  | replying q service other data here stands => cases nobody q _ stands here
  | answered q service other here stands =>
    rcases stands with stands | stands | stands <;> cases nobody q _ stands here
  | abandoned only given => simp [kept] at given

theorem write (stands : world.calls p = some (.sendWrite send))
    (taken : world.advance pid p (.sendWrite send) = some after) : SlotPhase after send.slot := by
  obtain ⟨only, noRequest, noReply, kept, -⟩ := phase.of_writing stands (.inl rfl)
  cases taken
  refine .writing p send rfl (.inr ⟨update_self .., update_self ..⟩)
    (only.update (fun _ _ _ same => same) (fun _ _ _ => rfl)) ?_ ?_ kept
  · simpa using noRequest
  · simpa using noReply

theorem signal (stands : world.calls p = some (.sendSignal send))
    (taken : world.advance pid p (.sendSignal send) = some after) : SlotPhase after send.slot := by
  obtain ⟨only, noRequest, noReply, kept, isSend⟩ := phase.of_writing stands (.inr rfl)
  cases taken
  refine .waiting p send rfl (update_self ..)
    (only.update (fun _ _ _ same => .inl same) (fun _ _ _ => .inl rfl)) (isSend rfl) ?_ ?_ kept
  · simp
  · simpa using noReply

theorem notice (stands : world.calls p = some (.sendAwait send))
    (flagged : (world.table send.slot).hasReply = true) :
    SlotPhase (world.setCall p (some (.sendTake send))) send.slot := by
  obtain ⟨only, noRequest, reply, kept, ⟨service, made⟩, -⟩ :=
    phase.of_taking stands (.inl ⟨rfl, flagged⟩)
  exact .answered p service send rfl (.inr (.inl (update_self ..)))
    (only.update (fun _ _ _ same => same) (fun _ _ _ => rfl)) made noRequest reply kept

theorem take (stands : world.calls p = some (.sendTake send)) :
    SlotPhase (world.setCall p (some (.sendClear send (world.table send.slot).reply)))
      send.slot := by
  obtain ⟨only, noRequest, reply, kept, ⟨service, made⟩, -⟩ :=
    phase.of_taking stands (.inr (.inl rfl))
  exact .answered p service send rfl (.inr (.inr (update_self ..)))
    (only.update (fun _ _ _ same => same) (fun _ _ _ => rfl)) made noRequest reply kept

theorem clear (stands : world.calls p = some (.sendClear send taken))
    (returned : world.advance pid p (.sendClear send taken) = some after) :
    SlotPhase after send.slot := by
  obtain ⟨only, noRequest, -, kept, -, -⟩ := phase.of_taking stands (.inr (.inr ⟨taken, rfl⟩))
  cases returned
  refine .idle (only.update (fun _ _ different same => different same) (by simp)) ?_ ?_ kept
  · simpa using noRequest
  · simp

end

theorem accept (phase : SlotPhase world receive.slot)
    (stands : world.calls p = some (.receiveWait receive))
    (kept : world.abandoned receive.slot = false)
    (nobody : world.Nobody receive.slot Activity.replying)
    (flagged : (world.table receive.slot).hasRequest = true) :
    SlotPhase (world.setCall p (some (.receiveCopy receive))) receive.slot := by
  cases phase with
  | idle _ noRequest | writing _ _ _ _ _ noRequest | answered _ _ _ _ _ _ _ noRequest =>
    simp [noRequest] at flagged
  | waiting q send here waits only isSend request noReply kept =>
    have different : q ≠ p := by
      rintro rfl
      simp [stands] at waits
    refine .waiting q send here ?_ (only.update (fun _ _ _ who => who) ?_) isSend request
      noReply kept
    · exact (update_of_ne different ..).trans waits
    · rintro activity ⟨⟩ -
      exact .inr rfl
  | replying q service send data here waits serves =>
    rcases serves with serves | ⟨serves, -⟩ | ⟨serves, -⟩ <;> cases nobody service _ serves rfl
  | abandoned only given => simp [kept] at given

theorem receiveCopy (phase : SlotPhase world receive.slot)
    (stands : world.calls p = some (.receiveCopy receive))
    (taken : world.advance pid p (.receiveCopy receive) = some after) :
    SlotPhase after receive.slot := by
  obtain ⟨q, send, different, here, waits, only, isSend, request, noReply, kept⟩ :=
    phase.of_receiving stands
  cases taken
  exact .waiting q send here ((update_of_ne different ..).trans waits)
    (only.update (fun _ _ _ who => who) (by simp)) isSend request noReply kept

section

variable (phase : SlotPhase world slot)

include phase

/-- A Reply starts in the waiting phase. -/
theorem serve (free : world.calls p = none)
    (kept : world.abandoned slot = false) (flagged : (world.table slot).hasRequest = true)
    (received : world.received p slot = world.requestOf slot)
    (noReceive : world.Nobody slot Activity.receiving)
    (noReplying : world.Nobody slot Activity.replying) :
    SlotPhase (world.setCall p (some (.replyWrite slot data))) slot := by
  cases phase with
  | idle _ noRequest | writing _ _ _ _ _ noRequest | answered _ _ _ _ _ _ _ noRequest =>
    simp [noRequest] at flagged
  | waiting q send here waits only isSend request noReply kept =>
    have different : q ≠ p := by
      rintro rfl
      simp [free] at waits
    refine .replying q p send data here ((update_of_ne different ..).trans waits)
      (.inl (update_self ..)) ?_ (received.trans isSend) noReply kept
    have alone : Only world.calls slot fun r _ => r = q := by
      intro r activity doing onSlot engaged
      rcases only r activity doing onSlot engaged with same | receiving
      · exact same
      · simp [noReceive r activity doing onSlot] at receiving
    exact alone.update (fun _ _ _ same => .inl same) (fun _ _ _ => .inr rfl)
  | replying q service send data here waits serves =>
    rcases serves with serves | ⟨serves, -⟩ | ⟨serves, -⟩ <;> cases noReplying service _ serves rfl
  | abandoned only given => simp [kept] at given

theorem replyWrite (stands : world.calls p = some (.replyWrite slot data))
    (taken : world.advance pid p (.replyWrite slot data) = some after) : SlotPhase after slot := by
  obtain ⟨q, send, different, here, waits, only, isSend, noReply, kept, -, -⟩ :=
    phase.of_replying stands (.inl rfl)
  cases taken
  refine .replying q p send data here ((update_of_ne different ..).trans waits)
    (.inr (.inl ⟨update_self .., ?_⟩))
    (only.update (fun _ _ _ who => who) (fun _ _ _ => .inr rfl)) isSend ?_ kept
  · simp
  · simpa using noReply

theorem replyClear (stands : world.calls p = some (.replyClear slot data))
    (taken : world.advance pid p (.replyClear slot data) = some after) : SlotPhase after slot := by
  obtain ⟨q, send, different, here, waits, only, isSend, noReply, kept, written, -⟩ :=
    phase.of_replying stands (.inr (.inl rfl))
  cases taken
  refine .replying q p send data here ((update_of_ne different ..).trans waits)
    (.inr (.inr ⟨update_self .., ?_, ?_⟩))
    (only.update (fun _ _ _ who => who) (fun _ _ _ => .inr rfl)) isSend ?_ kept
  · simpa using written (by simp)
  · simp
  · simpa using noReply

theorem replySignal (stands : world.calls p = some (.replySignal slot data))
    (taken : world.advance pid p (.replySignal slot data) = some after) : SlotPhase after slot := by
  obtain ⟨q, send, different, here, waits, only, isSend, -, kept, written, cleared⟩ :=
    phase.of_replying stands (.inr (.inr rfl))
  cases taken
  refine .answered q p send here (.inl ((update_of_ne different ..).trans waits)) ?_ ?_ ?_ ?_ kept
  · exact only.update (fun _ _ different who => who.resolve_right different) (by simp)
  · have bytes := written (by simp)
    simp [isSend, bytes]
  · simpa using cleared rfl
  · simp

end

theorem abandon (phase : SlotPhase world send.slot)
    (stands : world.calls p = some (.sendAwait send)) (noReceive : world.Nobody send.slot receiving)
    (noReplying : world.Nobody send.slot Activity.replying)
    (taken : world.timeout p (.sendAwait send) = some after) : SlotPhase after send.slot := by
  have alone : Only world.calls send.slot fun q _ => q = p := by
    cases phase with
    | idle only => exact (only p _ stands rfl rfl).elim
    | writing q send' here writes only =>
      have := only p _ stands rfl rfl
      grind
    | waiting q send' here waits only =>
      have isSender : p = q := (only p _ stands rfl rfl).resolve_right (by simp [receiving])
      intro r activity doing onSlot engaged
      rcases only r activity doing onSlot engaged with same | receiving
      · exact same.trans isSender.symm
      · simp [noReceive r activity doing onSlot] at receiving
    | replying q service send' data here waits serves =>
      rcases serves with serves | ⟨serves, -⟩ | ⟨serves, -⟩ <;> cases noReplying service
        _ serves rfl
    | answered q service send' here waits only =>
      obtain rfl := only p _ stands rfl rfl
      exact only
    | abandoned only => exact (only p _ stands rfl rfl).elim
  cases taken
  exact .abandoned (alone.update (fun _ _ different same => different same) (by simp))
    (update_self ..)

end SlotPhase

/-- The calls in progress have different numbers, and none of them has returned. -/
structure Numbered (world : ChannelWorld Process) : Prop where
  running : ∀ p, ∀ activity ∈ world.calls p, ∀ id ∈ activity.send?,
    id < world.nextSend ∧ ∀ delivered, .returned id delivered ∉ world.log
  distinct : ∀ p q, ∀ activity ∈ world.calls p, ∀ other ∈ world.calls q,
    ∀ id ∈ activity.send?, id ∈ other.send? → p = q
  returned : ∀ id delivered, .returned id delivered ∈ world.log → id < world.nextSend

/-- A step of the call `activity` of the process. -/
structure Moves (world after : ChannelWorld Process) (p : Process)
    (activity : Activity) : Prop where
  isLocal : Local world after p activity.slot
  state : ∀ slot, (after.table slot).state = (world.table slot).state
  nextSend : after.nextSend = world.nextSend
  send : ∀ next ∈ after.calls p, next.send? = activity.send?
  log : ∀ id delivered, .returned id delivered ∈ after.log →
    .returned id delivered ∈ world.log ∨ after.calls p = none ∧ activity.send? = some id

variable {activity : Activity}

theorem Numbered.move (numbered : Numbered world) (doing : world.calls p = some activity)
    (step : Moves world after p activity) : Numbered after := by
  -- whatever carries a number now carried it before, in the same process
  have before : ∀ q, ∀ next ∈ after.calls q, ∃ old ∈ world.calls q, next.send? = old.send? := by
    intro q next now
    by_cases same : q = p
    · subst same
      exact ⟨activity, doing, step.send next now⟩
    · exact ⟨next, step.isLocal.calls q same ▸ now, rfl⟩
  refine ⟨?_, ?_, ?_⟩
  · intro q next now id isId
    obtain ⟨old, was, sameSend⟩ := before q next now
    rw [sameSend] at isId
    obtain ⟨below, notYet⟩ := numbered.running q old was id isId
    refine ⟨step.nextSend ▸ below, fun delivered logged => ?_⟩
    rcases step.log id delivered logged with earlier | ⟨finished, isSend⟩
    · exact notYet delivered earlier
    · -- the number that was just logged belongs to `p`, which has no call any more
      obtain rfl := numbered.distinct q p old was activity doing id isId isSend
      simp [finished] at now
  · intro q r next now other also id isId isOther
    obtain ⟨old, was, sameSend⟩ := before q next now
    obtain ⟨oldOther, wasOther, sameOther⟩ := before r other also
    exact numbered.distinct q r old was oldOther wasOther id (sameSend ▸ isId) (sameOther ▸ isOther)
  · intro id delivered logged
    rw [step.nextSend]
    rcases step.log id delivered logged with earlier | ⟨-, isSend⟩
    · exact numbered.returned id delivered earlier
    · exact (numbered.running p activity doing id isSend).1

/-- A step that changes one call, the channel it is on and what is observed of that. -/
theorem Moves.of_update (doing : world.calls p = some activity)
    (calls : after.calls = update world.calls p next)
    (table : after.table = update world.table activity.slot channel)
    (state : channel.state = (world.table activity.slot).state)
    (continues : ∀ now ∈ next, now.slot = activity.slot ∧ now.send? = activity.send?)
    (requestOf : ∀ other, other ≠ activity.slot → after.requestOf other = world.requestOf other)
    (received : ∀ q other, other ≠ activity.slot → after.received q other = world.received q other)
    (abandoned : ∀ other, other ≠ activity.slot → after.abandoned other = world.abandoned other)
    (nextSend : after.nextSend = world.nextSend)
    (log : after.log = world.log ∨ ∃ observation, after.log = observation :: world.log ∧
      ∀ id delivered, observation = .returned id delivered →
        next = none ∧ activity.send? = some id) : Moves world after p activity := by
  have now : after.calls p = next := by rw [calls, update_self]
  refine ⟨⟨?_, ?_, ?_, ?_, requestOf, received, abandoned, ?_⟩, ?_, nextSend, ?_, ?_⟩
  · intro q different
    rw [calls, update_of_ne different]
  · intro other also
    rw [doing] at also
    cases also
    rfl
  · intro other also
    exact (continues other (now ▸ also)).1
  · intro other different
    rw [table, update_of_ne different]
  · intro observation logged
    rcases log with same | ⟨latest, longer, -⟩
    · exact same ▸ logged
    · exact longer ▸ List.mem_cons_of_mem _ logged
  · intro other
    rw [table]
    by_cases here : other = activity.slot
    · subst here
      rw [update_self, state]
    · rw [update_of_ne here]
  · intro other also
    exact (continues other (now ▸ also)).2
  · intro id delivered logged
    rcases log with same | ⟨latest, longer, isReturn⟩
    · exact .inl (same ▸ logged)
    · rw [longer] at logged
      rcases List.mem_cons.mp logged with isLatest | earlier
      · exact .inr (now ▸ isReturn id delivered isLatest.symm)
      · exact .inl earlier

end Zapada.Ipc
