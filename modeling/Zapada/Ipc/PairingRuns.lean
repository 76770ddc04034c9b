import Zapada.Ipc.RequestReply

namespace Zapada.Ipc

open Foundation Function ChannelWorld Activity

variable {Process : Type} [DecidableEq Process] {world after : ChannelWorld Process} {p : Process}
  {slot : ChannelSlot} {activity : Activity}

/-- What holds between the steps of disciplined processes. -/
structure Orderly (world : ChannelWorld Process) : Prop where
  phases : ∀ slot, SlotPhase world slot
  opened : ∀ p, ∀ activity ∈ world.calls p, (world.table activity.slot).state = .opened
  numbered : Numbered world
  paired : Paired world.log

theorem SlotPhase.setCall (phase : SlotPhase world slot) (next : Option Activity)
    (before : ∀ activity ∈ world.calls p, activity.engaged = false)
    (now : ∀ activity ∈ next, activity.engaged = false) :
    SlotPhase (world.setCall p next) slot := by
  apply phase.frame
  refine ⟨?_, rfl, rfl, fun _ => rfl, rfl, fun _ logged => logged⟩
  intro q activity onSlot engaged
  by_cases same : q = p
  · subst same
    constructor
    · intro doing
      have idle := now activity (by simpa [setCall] using doing)
      simp [engaged] at idle
    · intro doing
      have idle := before activity doing
      simp [engaged] at idle
  · exact Eq.congr_left (update_of_ne same ..)

omit [DecidableEq Process] in
theorem SlotPhase.observe (phase : SlotPhase world slot) (observation : Observation Process) :
    SlotPhase (world.observe observation) slot :=
  phase.frame ⟨fun _ _ _ _ => .rfl, rfl, rfl, fun _ => rfl,
    rfl, fun _ logged => List.mem_cons_of_mem _ logged⟩

namespace Orderly

omit [DecidableEq Process] in
theorem start : Orderly (.start : ChannelWorld Process) where
  phases slot := .idle (by simp [Only, ChannelWorld.start]) rfl rfl rfl
  opened := by simp [ChannelWorld.start]
  numbered :=
    ⟨by simp [ChannelWorld.start], by simp [ChannelWorld.start], by simp [ChannelWorld.start]⟩
  paired := trivial

section

variable (orderly : Orderly world)

include orderly

omit [DecidableEq Process] in
theorem unreturned
    (waits : world.calls p = some (.sendAwait send)) (delivered : Option (List UInt8)) :
    .returned send.id delivered ∉ world.log :=
  (orderly.numbered.running p _ waits send.id rfl).2 delivered

section

variable (doing : world.calls p = some activity)

include doing

/-- A step of a call in progress. -/
theorem move (step : Moves world after p activity) (phase : SlotPhase after activity.slot)
    (paired : Paired after.log) : Orderly after where
  phases := step.isLocal.phases orderly.phases phase
  opened q next now := by
    rw [step.state]
    by_cases same : q = p
    · subst same
      rw [step.isLocal.new next now]
      exact orderly.opened q activity doing
    · exact orderly.opened q next (step.isLocal.calls q same ▸ now)
  numbered := orderly.numbered.move doing step
  paired := paired

/-- A step of a call in progress that shows nothing to the observers. -/
theorem quiet (phase : SlotPhase after activity.slot) (changes : after = { world with
      table := update world.table activity.slot channel, calls := update world.calls p next })
    (state : channel.state = (world.table activity.slot).state)
    (continues : ∀ now ∈ next, now.slot = activity.slot ∧ now.send? = activity.send?) :
        Orderly after := by
  subst changes
  exact orderly.move doing (.of_update doing rfl rfl state continues
    (fun _ _ => rfl) (fun _ _ _ => rfl) (fun _ _ => rfl) rfl (.inl rfl)) phase orderly.paired

theorem onward (phase : SlotPhase (world.setCall p next) activity.slot)
    (continues : ∀ now ∈ next, now.slot = activity.slot ∧ now.send? = activity.send?) :
    Orderly (world.setCall p next) :=
  orderly.quiet doing phase (by simp [setCall]) rfl continues

theorem advance (disciplined : world.disciplined (p, .advance))
    (taken : world.advance pid p activity = some after) : Orderly after := by
  have phase := orderly.phases activity.slot
  simp only [ChannelWorld.disciplined, doing] at disciplined
  cases activity with
  | sendWait send =>
    obtain ⟨-, ⟨⟩⟩ := Option.ite_none_left_eq_some.mp taken
    exact orderly.onward doing (phase.enter disciplined.1 disciplined.2) (by simp [slot, send?])
  | sendWrite send =>
    have written := phase.write doing taken
    cases taken
    refine orderly.move doing ?_ written orderly.paired
    exact .of_update doing rfl rfl rfl (by simp [slot, send?])
      (fun _ different => update_of_ne different ..) (fun _ _ _ => rfl) (fun _ _ => rfl)
        rfl (.inl rfl)
  | sendSignal send =>
    have there := phase.signal doing taken
    cases taken
    exact orderly.quiet doing there rfl rfl (by simp [slot, send?])
  | sendAwait send =>
    obtain ⟨flagged, ⟨⟩⟩ := Option.ite_none_right_eq_some.mp taken
    exact orderly.onward doing (phase.notice doing flagged) (by simp [slot, send?])
  | sendTake send =>
    simp only [ChannelWorld.advance, List.take_of_length_le disciplined] at taken
    cases taken
    exact orderly.onward doing (phase.take doing) (by simp [slot, send?])
  | sendClear send bytes =>
    obtain ⟨-, -, -, -, ⟨service, made⟩, isTaken⟩ :=
      phase.of_taking doing (.inr (.inr ⟨bytes, rfl⟩))
    have cleared := phase.clear doing taken
    cases taken
    refine orderly.move doing ?_ cleared ⟨⟨service, isTaken bytes rfl ▸ made⟩, orderly.paired⟩
    refine .of_update doing rfl rfl rfl (by simp) (fun _ _ => rfl) (fun _ _ _ => rfl)
      (fun _ _ => rfl) rfl (.inr ⟨_, rfl, ?_⟩)
    rintro id delivered ⟨⟩
    exact ⟨rfl, rfl⟩
  | receiveWait receive =>
    obtain ⟨flagged, ⟨⟩⟩ := Option.ite_none_right_eq_some.mp taken
    exact orderly.onward doing (phase.accept doing disciplined.1 disciplined.2 flagged)
      (by simp [slot, send?])
  | receiveCopy receive =>
    obtain ⟨q, send, -, -, waits, -, isSend, -⟩ := phase.of_receiving doing
    have copied := phase.receiveCopy doing taken
    cases taken
    refine orderly.move doing ?_ copied ⟨⟨send.id, isSend, orderly.unreturned waits⟩,
      orderly.paired⟩
    refine .of_update doing rfl (update_eq_self ..).symm rfl (by simp) (fun _ _ => rfl) ?_
      (fun _ _ => rfl) rfl
      (.inr ⟨_, rfl, by simp⟩)
    intro q other different
    by_cases here : q = p
    · subst here
      exact (congrFun (update_self ..) other).trans (update_of_ne different ..)
    · exact congrFun (update_of_ne here ..) other
  | replyWrite slot data =>
    have there := phase.replyWrite doing taken
    cases taken
    exact orderly.quiet doing there rfl rfl (by simp [Activity.slot, send?])
  | replyClear slot data =>
    have there := phase.replyClear doing taken
    cases taken
    exact orderly.quiet doing there rfl rfl (by simp [Activity.slot, send?])
  | replySignal slot data =>
    obtain ⟨q, send, -, -, waits, -, isSend, -⟩ := phase.of_replying doing (.inr (.inr rfl))
    have answered := phase.replySignal doing taken
    cases taken
    refine orderly.move doing ?_ answered ⟨⟨send.id, isSend, orderly.unreturned waits⟩,
      orderly.paired⟩
    exact .of_update doing rfl rfl rfl (by simp) (fun _ _ => rfl) (fun _ _ _ => rfl)
      (fun _ _ => rfl) rfl (.inr ⟨_, rfl, by simp⟩)

theorem timeout (disciplined : world.disciplined (p, .timeout))
    (taken : world.timeout p activity = some after) : Orderly after := by
  have phase := orderly.phases activity.slot
  simp only [ChannelWorld.disciplined, doing] at disciplined
  cases activity with
  | sendWait send =>
    cases taken
    have quiet :=
      phase.setCall (p := p) none (by simp [doing, engaged, outstanding, receiving, replying])
        (by simp)
    refine orderly.move doing ?_ (quiet.observe _) ⟨trivial, orderly.paired⟩
    refine .of_update doing rfl (update_eq_self ..).symm rfl (by simp) (fun _ _ => rfl)
      (fun _ _ _ => rfl)
      (fun _ _ => rfl) rfl (.inr ⟨_, rfl, ?_⟩)
    rintro id delivered ⟨⟩
    exact ⟨rfl, rfl⟩
  | sendAwait send =>
    have given := phase.abandon doing disciplined.1 disciplined.2 taken
    cases taken
    refine orderly.move doing ?_ given ⟨trivial, orderly.paired⟩
    refine .of_update doing rfl (update_eq_self ..).symm rfl (by simp) (fun _ _ => rfl)
      (fun _ _ _ => rfl)
      (fun _ different => update_of_ne different ..) rfl (.inr ⟨_, rfl, ?_⟩)
    rintro id delivered ⟨⟩
    exact ⟨rfl, rfl⟩
  | receiveWait receive =>
    cases taken
    refine orderly.onward doing (phase.setCall none ?_ (by simp)) (by simp)
    simp [doing, engaged, outstanding, receiving, replying]
  | _ => contradiction

end

omit [DecidableEq Process] in
theorem nobody (closed : (world.table slot).state ≠ .opened) :
    ∀ p, ∀ activity ∈ world.calls p, activity.slot ≠ slot := by
  rintro p activity doing rfl
  exact closed (orderly.opened p activity doing)

omit [DecidableEq Process] in
theorem reset (channel : NamedChannel) (abandoned : Bool)
    (nobody : ∀ p, ∀ activity ∈ world.calls p, activity.slot ≠ slot)
    (noRequest : channel.hasRequest = false) (noReply : channel.hasReply = false)
    (calls : after.calls = world.calls) (table : after.table = update world.table slot channel)
    (isAbandoned : after.abandoned = update world.abandoned slot abandoned)
    (requestOf : after.requestOf = world.requestOf) (received : after.received = world.received)
    (nextSend : after.nextSend = world.nextSend) (log : after.log = world.log) : Orderly after where
  phases other := by
    by_cases here : other = slot
    · subst here
      have only : Only after.calls other fun _ _ => False := by
        rw [calls]
        exact fun q activity doing onSlot _ => nobody q activity doing onSlot
      cases abandoned with
      | true => exact .abandoned only (by simp [isAbandoned])
      | false => exact .idle only (by simpa [table]) (by simpa [table]) (by simp [isAbandoned])
    · refine (orderly.phases other).frame ⟨?_, ?_, ?_, ?_, ?_, ?_⟩
      · simp [calls]
      · simp [table, here]
      · rw [requestOf]
      · simp [received]
      · simp [isAbandoned, here]
      · simp [log]
  opened q activity doing := by
    rw [calls] at doing
    rw [table, update_of_ne (nobody q activity doing)]
    exact orderly.opened q activity doing
  numbered := by
    obtain ⟨running, distinct, returned⟩ := orderly.numbered
    constructor
    · simpa [calls, nextSend, log] using running
    · simpa [calls] using distinct
    · simpa [nextSend, log] using returned
  paired := log ▸ orderly.paired

theorem create (name : Option (List UInt16)) :
    Orderly (world.begin pid p (.create name)) := by
  cases name with
  | none => exact orderly
  | some str =>
    rcases sysChannelCreate_cases pid world.table str with ⟨code, refused⟩ | ⟨slot,
      isFree, accepted⟩
    · simp only [begin, refused]
      exact orderly
    · simp only [begin, accepted]
      have closed : (world.table slot).state ≠ .opened := by simp [findFreeSlot_some isFree]
      refine orderly.reset _ false (orderly.nobody closed) rfl rfl rfl rfl ?_ rfl rfl rfl rfl
      funext other
      simp [update_apply, Fin.val_inj]

theorem close (channel : Int) (unused : ∀ slot ∈ (checkHandle world.table channel).toOption,
      world.Nobody slot fun _ => true) :
    Orderly (world.begin pid p (.close channel)) := by
  simp only [begin, sysChannelClose]
  cases checked : checkHandle world.table channel with
  | error code => exact orderly
  | ok slot =>
    have nobody : ∀ p, ∀ activity ∈ world.calls p, activity.slot ≠ slot := by
      intro q activity doing onSlot
      have absent := unused slot (by simp [checked, Except.toOption]) q activity doing onSlot
      simp at absent
    exact orderly.reset _ (world.abandoned slot) nobody rfl rfl rfl rfl
      (update_eq_self ..).symm rfl rfl rfl rfl

end

end Orderly

theorem ChannelWorld.of_setCall (doing : (world.setCall p (some next)).calls q = some activity) :
    q = p ∧ activity = next ∨ world.calls q = some activity := by
  by_cases same : q = p <;> simp_all [setCall, eq_comm]

/-- A process without a call starts one; a Send takes the next number. -/
theorem Numbered.call (numbered : Numbered world) (next : Activity) (bound : Nat)
    (grows : world.nextSend ≤ bound)
    (fresh : ∀ id ∈ next.send?, id = world.nextSend ∧ world.nextSend < bound) :
    Numbered { world.setCall p (some next) with nextSend := bound } := by
  refine ⟨?_, ?_, ?_⟩
  · intro q activity doing id isId
    rcases of_setCall doing with ⟨-, rfl⟩ | before
    · obtain ⟨rfl, below⟩ := fresh id isId
      exact ⟨below, fun delivered logged => absurd (numbered.returned _ _ logged) (lt_irrefl _)⟩
    · obtain ⟨below, notYet⟩ := numbered.running q activity before id isId
      exact ⟨below.trans_le grows, notYet⟩
  · intro q r activity doing other also id isId isOther
    rcases of_setCall doing with ⟨rfl, rfl⟩ | before <;> rcases of_setCall also with ⟨rfl, rfl⟩
      | beforeOther
    · rfl
    · obtain ⟨rfl, -⟩ := fresh id isId
      exact absurd (numbered.running r other beforeOther _ isOther).1 (lt_irrefl _)
    · obtain ⟨rfl, -⟩ := fresh id isOther
      exact absurd (numbered.running q activity before _ isId).1 (lt_irrefl _)
    · exact numbered.distinct q r activity before other beforeOther id isId isOther
  · intro id delivered logged
    exact (numbered.returned id delivered logged).trans_le grows

namespace Orderly

/-- A call starts on an open channel. -/
theorem started (orderly : Orderly world) (opened : (world.table next.slot).state = .opened)
    (phases : ∀ slot, SlotPhase (world.setCall p (some next)) slot) (grows : world.nextSend ≤ bound)
    (fresh : ∀ id ∈ next.send?, id = world.nextSend ∧ world.nextSend < bound) :
    Orderly { world.setCall p (some next) with nextSend := bound } where
  phases slot :=
    (phases slot).frame ⟨fun _ _ _ _ => .rfl, rfl, rfl, fun _ => rfl, rfl, fun _ logged => logged⟩
  opened q activity doing := by
    rcases of_setCall doing with ⟨-, rfl⟩ | before
    · exact opened
    · exact orderly.opened q activity before
  numbered := orderly.numbered.call next bound grows fresh
  paired := orderly.paired

theorem call_waiting (orderly : Orderly world) (free : world.calls p = none)
    (waits : next.engaged = false)
    (opened : (world.table next.slot).state = .opened) (grows : world.nextSend ≤ bound)
    (fresh : ∀ id ∈ next.send?, id = world.nextSend ∧ world.nextSend < bound) :
    Orderly { world.setCall p (some next) with nextSend := bound } :=
  orderly.started opened (fun slot => (orderly.phases slot).setCall (some next) (by simp [free])
    (by simpa using waits))
    grows fresh

end Orderly

theorem checkReceive_opened {table : ChannelTable}
    (checked : checkReceive table channel offset capacity = .ok slot) :
    (table slot).state = .opened := by
  unfold checkReceive at checked
  cases handle : checkHandle table channel with
  | error code => simp [handle] at checked
  | ok found =>
    simp only [handle] at checked
    split at checked
    · contradiction
    · cases checked
      exact (checkHandle_ok handle).2

namespace Orderly

theorem reply (orderly : Orderly world) (free : world.calls p = none)
    (opened : (world.table slot).state = .opened)
    (phase : SlotPhase (world.setCall p (some (.replyWrite slot data))) slot) :
    Orderly (world.setCall p (some (.replyWrite slot data))) := by
  have isLocal : Local world (world.setCall p (some (.replyWrite slot data))) p slot := by
    refine ⟨fun q different => update_of_ne different .., by simp [free], ?_, fun _ _ => rfl,
      fun _ _ => rfl, fun _ _ _ => rfl, fun _ _ => rfl, fun _ logged => logged⟩
    intro activity doing
    simp only [setCall, update_self] at doing
    cases doing
    rfl
  exact orderly.started opened (isLocal.phases orderly.phases phase) le_rfl
    (by simp [Activity.send?])

theorem begin (orderly : Orderly world) (free : world.calls p = none) (call : IpcCall)
    (disciplined : world.disciplined (p, .call call)) : Orderly (world.begin pid p call) := by
  simp only [ChannelWorld.disciplined, free] at disciplined
  cases call with
  | create name => exact orderly.create name
  | openName name => exact orderly
  | close channel => exact orderly.close channel disciplined
  | send channel offset count array =>
    simp only [ChannelWorld.begin]
    cases checked : checkData world.table channel offset count array.length with
    | error code => exact orderly
    | ok slot =>
      refine orderly.call_waiting free rfl (checkData_ok checked).1 (Nat.le_succ _) ?_
      rintro id ⟨⟩
      exact ⟨rfl, Nat.lt_succ_self _⟩
  | receive channel offset capacity arrLen =>
    simp only [ChannelWorld.begin]
    cases checked : checkReceive world.table channel offset capacity with
    | error code => exact orderly
    | ok slot =>
      exact orderly.call_waiting free rfl (checkReceive_opened checked) le_rfl
        (by simp [Activity.send?])
  | reply channel offset count array =>
    simp only [ChannelWorld.begin]
    cases checked : checkData world.table channel offset count array.length with
    | error code => exact orderly
    | ok slot =>
      obtain ⟨kept, flagged, received, noReceive, noReplying⟩ :=
        disciplined slot (by simp [checked, Except.toOption])
      exact orderly.reply free (checkData_ok checked).1
        ((orderly.phases slot).serve free kept flagged received noReceive noReplying)

theorem step (orderly : Orderly world) (label : Process × ProcessStep)
    (disciplined : world.disciplined label) (taken : world.step pid label = some after) :
    Orderly after := by
  obtain ⟨p, action⟩ := label
  cases doing : world.calls p <;> cases action <;>
    simp only [ChannelWorld.step, doing, Option.some.injEq, reduceCtorEq] at taken
  case none.call call => exact taken ▸ orderly.begin doing call disciplined
  case some.advance => exact orderly.advance doing disciplined taken
  case some.timeout => exact orderly.timeout doing disciplined taken

end Orderly

/-- In every run of disciplined processes a successful Send delivers the reply to its own
request, and nobody receives or answers the request of a Send that has returned. -/
theorem requests_and_replies_stay_paired (pid : Nat)
    (run : ((processMachine Process pid).guarded ChannelWorld.disciplined).Run labels world) :
    Paired world.log := by
  have orderly : Orderly world := by
    induction run with
    | start first =>
      cases first
      exact .start
    | next earlier taken ih => exact ih.step _ taken.1 taken.2
  exact orderly.paired

theorem two_processes : NeZero 2 := ⟨by decide⟩

attribute [local instance] two_processes

/-- A client and a service exchange a request and its reply. -/
def exchange : List (Fin 2 × ProcessStep) :=
  [(1, .call (.create (some [0x61]))), (0, .call (.send 0 0 1 [5])), (1, .call (.receive 0 0 1 1)),
    (0, .advance), (0, .advance), (0, .advance), (1, .advance), (1, .advance),
    (1, .call (.reply 0 0 1 [7])), (1, .advance), (1, .advance), (1, .advance),
    (0, .advance), (0, .advance), (0, .advance)]

theorem requests_and_replies_stay_paired_exchange :
    ∃ world, ((processMachine (Fin 2) 1).guarded ChannelWorld.disciplined).Run exchange world ∧
      world.log = [.returned 0 (some [7]), .answered 1 (some 0) [7], .received 1 (some 0) [5]] ∧
      Paired world.log := by
  have found : ∃ final ∈ Machine.execute disciplined (step 1) .start exchange,
      final.log = [.returned 0 (some [7]), .answered 1 (some 0) [7], .received 1 (some 0) [5]] := by
    decide +kernel
  obtain ⟨world, run, log⟩ := Machine.Run.exists_of_execute _ found
  exact ⟨world, run, log, requests_and_replies_stay_paired 1 run⟩

/-- The client gives up its first Send; the service receives and answers that request all
the same, and the client's next Send takes the answer. -/
def lateService : List (Fin 2 × ProcessStep) :=
  [(1, .call (.create (some [0x61]))), (0, .call (.send 0 0 1 [5])),
    (0, .advance), (0, .advance), (0, .advance), (0, .timeout),
    (1, .call (.receive 0 0 1 1)), (1, .advance), (1, .advance),
    (1, .call (.reply 0 0 1 [7])), (1, .advance), (1, .advance), (1, .advance),
    (0, .call (.send 0 0 1 [6])), (0, .advance), (0, .advance), (0, .advance),
    (0, .advance), (0, .advance), (0, .advance)]

/-- A Reply without any request is kept for the next Send. -/
def earlyReply : List (Fin 2 × ProcessStep) :=
  [(1, .call (.create (some [0x61]))), (1, .call (.reply 0 0 1 [7])), (1, .advance), (1, .advance),
    (1, .advance),
    (0, .call (.send 0 0 1 [5])), (0, .advance), (0, .advance), (0, .advance),
    (0, .advance), (0, .advance), (0, .advance)]

theorem replies_are_mixed_up : (∃ world, (processMachine (Fin 2) 1).Run lateService world ∧
      world.log = [.returned 1 (some [7]), .answered 1 (some 0) [7], .received 1 (some 0) [5],
        .returned 0 none] ∧ ¬ Paired world.log) ∧
          ∃ world, (processMachine (Fin 2) 1).Run earlyReply world ∧
      world.log = [.returned 0 (some [7]), .answered 1 none [7]] ∧ ¬ Paired world.log := by
  have late : ∃ final ∈ lateService.foldlM (step 1) .start,
      final.log = [.returned 1 (some [7]), .answered 1 (some 0) [7], .received 1 (some 0) [5],
        .returned 0 none] := by
    decide +kernel
  have early : ∃ final ∈ earlyReply.foldlM (step 1) .start,
      final.log = [.returned 0 (some [7]), .answered 1 none [7]] := by
    decide +kernel
  obtain ⟨world, executed, log⟩ := late
  obtain ⟨other, executedOther, logOther⟩ := early
  refine ⟨⟨world, Machine.Run.ofExecution _ executed, log, ?_⟩,
    other, Machine.Run.ofExecution _ executedOther, logOther, ?_⟩
  · simp [log, Paired, Observation.Promise]
  · simp [logOther, Paired, Observation.Promise]

end Zapada.Ipc
