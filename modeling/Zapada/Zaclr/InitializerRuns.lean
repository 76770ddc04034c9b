import Zapada.Zaclr.TypeInitializers

namespace Zapada.Zaclr

open Foundation Option

/-- A type, with the arguments of an instantiation if it is generic. -/
structure Instantiation where
  type : TypeId
  args : List ClosedType

section Runs

variable {Ty : Type} {statics : Statics Ty}

namespace Trigger

/-- The arguments that an instruction names, as far as they are closed. -/
def closedArgs : Trigger statics → Option (List ClosedType)
  | staticField frame (.memberRef classArgs _) | call frame _ _ classArgs | newObject frame _ classArgs =>
    classArgs.bind (ArgumentSignature.closeAll statics.program frame.assembly frame.types
      frame.methods)
  | staticField frame (.field row) =>
    if frame.methodOwner = (statics.findFieldOwnerType frame.assembly row).map (·.row) then
      some frame.types else none

/-- The type or closed instantiation that an instruction is about. -/
def instantiation (trigger : Trigger statics) : Option Instantiation := do
  let request ← trigger.request
  let type ← statics.type request.owner
  if type.genericParamCount = 0 then some ⟨request.owner, []⟩
  else trigger.closedArgs.map (⟨request.owner, ·⟩)

end Trigger

/-- The instruction that an event is about. -/
def eventTrigger : OnceEvent (Trigger statics) → Trigger statics
  | .passed trigger | .started trigger | .finished trigger _ => trigger

/-- Static constructors run once: one execution of them succeeds at most, no access to a
static field is done before one is started, and none is started inside itself. -/
structure InitialisedOnce (events : List (OnceEvent (Trigger statics)))
    (state : Initializers statics) : Prop where
  once : ∀ (first second : Nat) (one other : Trigger statics) (target : Instantiation),
    events[first]? = some (.finished one true) → events[second]? = some (.finished other true) →
    one.instantiation = some target → other.instantiation = some target → first = second
  startedFirst : ∀ (index : Nat) (trigger : Trigger statics) (target : Instantiation),
    events[index]? = some (.passed trigger) ∨ events[index]? = some (.finished trigger true) →
    trigger.isStaticField → trigger.instantiation = some target →
      statics.hasInitializer target.type →
    ∃ other, .started other ∈ events.take index ∧ other.instantiation = some target
  notAgain : state.executing.Pairwise fun one other => ∀ target, one.instantiation = some target →
    other.instantiation ≠ some target

/-- An instantiation with a static constructor has one cell in a run, and the cell of its
fields is used for it only. -/
structure OneCellEach (events : List (OnceEvent (Trigger statics))) : Prop where
  cell : ∀ one ∈ events.map eventTrigger, ∀ other ∈ events.map eventTrigger, ∀ target,
    one.instantiation = some target → other.instantiation = some target →
    statics.hasInitializer target.type → one.cell = other.cell
  meaning : ∀ one ∈ events.map eventTrigger, ∀ other ∈ events.map eventTrigger, ∀ target,
    one.isStaticField → one.instantiation = some target → statics.hasInitializer target.type →
    one.cell = other.cell → other.instantiation = some target

theorem GenericStaticFieldSlot.isFor_iff (slot : GenericStaticFieldSlot) (assembly fieldRow : Nat)
    (ownerContext : List GenericArgument) : slot.isFor assembly fieldRow ownerContext = true ↔
      slot.assembly = assembly ∧ slot.fieldRow = fieldRow ∧ slot.ownerContext = ownerContext := by
  simp [GenericStaticFieldSlot.isFor, genericTypeContextMatches_iff]

namespace Initializers

def Known (state : Initializers statics) : InitializerCell → Prop
  | .type _ => True
  | .slot assembly fieldRow ownerContext =>
    ∃ slot ∈ state.genericStaticFields, slot.isFor assembly fieldRow ownerContext = true

theorem phase_setPhase {state : Initializers statics} (known : state.Known cell) (phase : OncePhase)
    (other : InitializerCell) :
    (state.setPhase phase cell).phase other = if other = cell then
      phase else state.phase other := by
  cases cell with
  | type owner =>
    cases other with
    | type otherOwner => simp [setPhase, Initializers.phase, Function.update_apply]
    | slot => simp [setPhase, Initializers.phase]
  | slot assembly fieldRow ownerContext =>
    cases other with
    | type => simp [setPhase, Initializers.phase]
    | slot assembly' fieldRow' ownerContext' =>
      have keys (slot : GenericStaticFieldSlot) :
          (if slot.isFor assembly fieldRow ownerContext then { slot with initializerState := phase }
            else slot).isFor assembly' fieldRow' ownerContext' =
              slot.isFor assembly' fieldRow' ownerContext' := by
        split <;> rfl
      simp only [setPhase, Initializers.phase, List.find?_map, Function.comp_def, keys]
      cases found : state.genericStaticFields.find? (·.isFor assembly' fieldRow' ownerContext') with
      | none =>
        rw [if_neg]
        · rfl
        · rintro ⟨⟩
          obtain ⟨slot, member, isFor⟩ := known
          exact List.find?_eq_none.mp found slot member isFor
      | some slot =>
        obtain ⟨rfl, rfl, rfl⟩ := (slot.isFor_iff _ _ _).mp (by simpa using List.find?_some found)
        simp only [InitializerCell.slot.injEq, ← slot.isFor_iff assembly fieldRow ownerContext]
        by_cases same : slot.isFor assembly fieldRow ownerContext = true <;> simp [same]

theorem known_setPhase {state : Initializers statics} (known : state.Known other)
    (phase : OncePhase) (cell : InitializerCell) : (state.setPhase phase cell).Known other := by
  cases other with
  | type => trivial
  | slot =>
    cases cell with
    | type => exact known
    | slot =>
      obtain ⟨slot, member, isFor⟩ := known
      refine ⟨_, List.mem_map_of_mem member, ?_⟩
      split <;> exact isFor

/-- The state in which an instruction finds its cell. -/
def prepared (state : Initializers statics) : InitializerCell → Initializers statics
  | .type _ => state
  | .slot assembly fieldRow ownerContext =>
    state.getOrCreateGenericStaticFieldSlot assembly fieldRow ownerContext

theorem prepared_executing (state : Initializers statics) (cell : InitializerCell) :
    (state.prepared cell).executing = state.executing := by
  cases cell with
  | type => rfl
  | slot =>
    simp only [prepared, getOrCreateGenericStaticFieldSlot]
    split <;> rfl

theorem known_prepared (state : Initializers statics) (cell : InitializerCell) :
    (state.prepared cell).Known cell ∧ ∀ other, state.Known other →
      (state.prepared cell).Known other := by
  cases cell with
  | type => exact ⟨trivial, fun _ => id⟩
  | slot assembly fieldRow ownerContext =>
    simp only [prepared, getOrCreateGenericStaticFieldSlot]
    split
    · rename_i present
      exact ⟨List.any_eq_true.mp present, fun _ => id⟩
    · refine ⟨⟨_, List.mem_cons_self, by simp [GenericStaticFieldSlot.isFor_iff]⟩, ?_⟩
      intro other known
      cases other with
      | type => trivial
      | slot =>
        obtain ⟨slot, member, isFor⟩ := known
        exact ⟨slot, List.mem_cons_of_mem _ member, isFor⟩

theorem phase_prepared (state : Initializers statics) (cell other : InitializerCell) :
    (state.prepared cell).phase other = state.phase other := by
  cases cell with
  | type => rfl
  | slot assembly fieldRow ownerContext =>
    simp only [prepared, getOrCreateGenericStaticFieldSlot]
    split
    · rfl
    · rename_i absent
      cases other with
      | type => rfl
      | slot assembly' fieldRow' ownerContext' =>
        simp only [phase, List.find?_cons]
        split
        · rename_i isNew
          obtain ⟨rfl, rfl, rfl⟩ := (GenericStaticFieldSlot.isFor_iff _ _ _ _).mp isNew
          rw [List.find?_eq_none.mpr fun slot member isFor =>
            absent (List.any_eq_true.mpr ⟨slot, member, isFor⟩)]
          rfl
        · rfl

end Initializers

def cellOwner (statics : Statics Ty) : InitializerCell → Option TypeId
  | .type owner => some owner
  | .slot assembly fieldRow _ => statics.findFieldOwnerType assembly fieldRow

theorem cellOwner_of_request {trigger : Trigger statics} (asked : trigger.request = some request) :
    cellOwner statics request.cell = some request.owner := by
  cases trigger with
  | staticField frame token =>
    cases token with
    | memberRef classArgs target =>
      simp only [Trigger.request, Statics.resolveStaticFieldSlot] at asked
      obtain ⟨⟨assembly, fieldRow⟩, -, asked⟩ := bind_eq_some_iff.mp asked
      obtain ⟨owner, found, asked⟩ := bind_eq_some_iff.mp asked
      split_ifs at asked
      obtain ⟨context, -, asked⟩ := bind_eq_some_iff.mp asked
      split_ifs at asked <;> cases asked
      · rfl
      · exact found
    | field fieldRow =>
      obtain ⟨owner, found, asked⟩ := bind_eq_some_iff.mp asked
      split_ifs at asked <;> cases asked
      · exact found
      · rfl
  | call | newObject =>
    simp only [Trigger.request] at asked
    split_ifs at asked
    cases asked
    rfl

/-- Only cells of types with a static constructor have something to run. -/
def cellNeeded (statics : Statics Ty) (cell : Option InitializerCell) : Bool :=
  (cell.bind (cellOwner statics)).any statics.hasInitializer

theorem cellNeeded_of_request {trigger : Trigger statics} (asked : trigger.request = some request) :
    cellNeeded statics trigger.cell = statics.hasInitializer request.owner := by
  simp [cellNeeded, Trigger.cell, asked, cellOwner_of_request asked]

namespace Initializers

def cells (state : Initializers statics) : OnceCells (Option InitializerCell) (Trigger statics) :=
  { phase := fun cell => cell.elim .idle state.phase, pending := state.executing }

theorem executing_setPhase (state : Initializers statics) (phase : OncePhase)
    (cell : InitializerCell) :
    (state.setPhase phase cell).executing = state.executing := by
  cases cell <;> rfl

theorem cells_setPhase {state : Initializers statics} (known : state.Known cell)
    (phase : OncePhase) :
    (state.setPhase phase cell).cells =
      { state.cells with phase := Function.update state.cells.phase (some cell) phase } := by
  simp only [cells, executing_setPhase, OnceCells.mk.injEq, and_true]
  funext other
  cases other with
  | none => simp
  | some other => simp [phase_setPhase known, Function.update_apply]

theorem cells_executing (state : Initializers statics) (executing : List (Trigger statics)) :
    ({ state with executing } : Initializers statics).cells =
      { state.cells with pending := executing } := by
  simp only [cells, OnceCells.mk.injEq, and_true]
  funext cell
  rcases cell with _ | ⟨⟩ | ⟨⟩ <;> rfl

theorem known_executing {state : Initializers statics} (known : state.Known cell)
    (executing : List (Trigger statics)) :
    ({ state with executing } : Initializers statics).Known cell := by
  cases cell <;> exact known

theorem cells_prepared (state : Initializers statics) (cell : InitializerCell) :
    (state.prepared cell).cells = state.cells := by
  simp [cells, prepared_executing, funext (phase_prepared state cell)]

/-- The slots of all executing initialisers are there. -/
def AllKnown (state : Initializers statics) : Prop :=
  ∀ trigger ∈ state.executing, ∀ request, trigger.request = some request → state.Known request.cell

theorem ask_eq (state : Initializers statics) (asked : trigger.request = some request) :
    state.ask trigger request =
      (state.prepared request.cell).ensureInitializerRan trigger request.owner request.cell := by
  have owner := cellOwner_of_request asked
  unfold ask
  split
  · rename_i same
    rw [same] at owner ⊢
    rw [← some.inj owner]
    rfl
  · rename_i same
    rw [same]
    rfl

theorem ensureInitializerRan_cases (state : Initializers statics) (trigger : Trigger statics)
    (owner : TypeId) (cell : InitializerCell) :
    (state.phase cell ≠ .idle ∧ state.ensureInitializerRan trigger owner cell = (state, false)) ∨
      (state.phase cell = .idle ∧ statics.hasInitializer owner = false ∧
        state.ensureInitializerRan trigger owner cell = (state.setPhase .complete cell, false)) ∨
      (state.phase cell = .idle ∧ statics.hasInitializer owner = true ∧
        state.ensureInitializerRan trigger owner cell =
          ({ state.setPhase .running cell with executing := trigger :: state.executing },
            true)) := by
  simp only [ensureInitializerRan, executing_setPhase]
  cases here : state.phase cell with
  | idle => cases has : statics.hasInitializer owner <;> simp
  | running => simp
  | complete => simp

theorem AllKnown.mono {before after : Initializers statics} (known : before.AllKnown)
    (same : after.executing = before.executing)
    (keeps : ∀ cell, before.Known cell → after.Known cell) :
    after.AllKnown := by
  intro trigger member request asked
  exact keeps _ (known trigger (same ▸ member) request asked)

/-- What an instruction finds is a step of the machine of the cells. -/
theorem ask_simulated {before : Initializers statics} (known : before.AllKnown)
    (asked : trigger.request = some request)
    (answer : before.ask trigger request = (after, started)) :
    ∃ image, (onceMachine Trigger.cell (cellNeeded statics)).step before.cells
      (if started then .started trigger else .passed trigger) image ∧ image = after.cells ∧
        after.AllKnown := by
  have cell : trigger.cell = some request.cell := by simp [Trigger.cell, asked]
  obtain ⟨here, others⟩ := before.known_prepared request.cell
  have ready := known.mono (before.prepared_executing request.cell) others
  rw [ask_eq before asked] at answer
  rw [← cells_prepared before request.cell]
  generalize before.prepared request.cell = state at *
  rcases state.ensureInitializerRan_cases trigger request.owner request.cell with
    ⟨busy, equal⟩ | ⟨idle, bodiless, equal⟩ | ⟨idle, body, equal⟩ <;> cases equal.symm.trans answer
  · exact ⟨_, .seen (by rwa [cell]), rfl, ready⟩
  · refine ⟨_, .bare (by rwa [cell]) ?_, ?_,
      ready.mono (executing_setPhase ..) fun _ other => known_setPhase other _ _⟩
    · rw [cellNeeded_of_request asked, bodiless]
    · rw [cell, cells_setPhase here]
  · refine ⟨_, .start (by rwa [cell]) ?_, ?_, ?_⟩
    · rw [cellNeeded_of_request asked, body]
    · refine ((cells_executing (state.setPhase .running request.cell) _).trans ?_).symm
      rw [cells_setPhase here, cell]
      rfl
    · intro other member otherRequest otherAsked
      rcases List.mem_cons.mp member with rfl | earlier
      · obtain rfl := some.inj (asked.symm.trans otherAsked)
        exact known_executing (known_setPhase here _ _) _
      · exact known_executing (known_setPhase (ready other earlier otherRequest otherAsked) _ _) _

/-- The machine of the cells takes every step that the runtime takes. -/
theorem simulated :
    (initializerMachine statics).Simulation (onceMachine Trigger.cell (cellNeeded statics))
    fun state cells => cells = state.cells ∧ state.AllKnown where
  initially state first := by
    subst first
    refine ⟨_, rfl, ?_, fun trigger member => (by cases member)⟩
    simp only [cells, initial, OnceCells.mk.injEq, and_true]
    funext cell
    rcases cell with _ | ⟨⟩ | ⟨⟩ <;> rfl
  matched before event after image related taken := by
    obtain ⟨rfl, known⟩ := related
    cases event with
    | passed trigger | started trigger =>
      obtain ⟨request, asked, answer⟩ := taken
      exact ask_simulated known asked answer
    | finished trigger success =>
      obtain ⟨request, rest, asked, innermost, rfl⟩ := taken
      have cell : trigger.cell = some request.cell := by simp [Trigger.cell, asked]
      have here := known trigger (by rw [innermost]; simp) request asked
      refine ⟨_, .finish innermost success, ?_, ?_⟩
      · refine ((cells_executing (before.setPhase _ request.cell) _).trans ?_).symm
        rw [cells_setPhase here, cell]
      · intro other member otherRequest otherAsked
        have earlier :=
          known other (by rw [innermost]; exact List.mem_cons_of_mem _ member)
            otherRequest otherAsked
        exact known_executing (known_setPhase earlier _ _) _

end Initializers

theorem cellNeeded_of_instantiation {trigger : Trigger statics}
    (meant : trigger.instantiation = some target) :
    cellNeeded statics trigger.cell = statics.hasInitializer target.type := by
  simp only [Trigger.instantiation, bind_eq_bind, bind_eq_some_iff] at meant
  obtain ⟨request, asked, type, -, meant⟩ := meant
  rw [cellNeeded_of_request asked]
  split at meant
  · cases meant
    rfl
  · obtain ⟨args, -, rfl⟩ := map_eq_some_iff.mp meant
    rfl

theorem run_ask (run : (initializerMachine statics).Run events state) (trigger : Trigger statics)
    (asked : trigger.request = some request) : (initializerMachine statics).Run
      (events ++ [if (state.ask trigger request).2 then .started trigger else .passed trigger])
      (state.ask trigger request).1 := by
  apply run.next
  cases answer : (state.ask trigger request).2 <;> exact ⟨request, asked, Prod.ext rfl answer⟩

theorem run_return (run : (initializerMachine statics).Run events state)
    (asked : trigger.request = some request) (innermost : state.executing = trigger :: rest)
    (success : Bool) :
    (initializerMachine statics).Run (events ++ [.finished trigger success])
      (state.returned request rest success) :=
  run.next ⟨request, rest, asked, innermost, rfl⟩

/-- Every instantiation is initialised once in a run in which each has one cell. -/
theorem initialised_once (run : (initializerMachine statics).Run events state)
    (cells : OneCellEach events) :
    InitialisedOnce events state := by
  obtain ⟨image, run, rfl, -⟩ := Initializers.simulated.run run
  have at_index {index : Nat} {event : OnceEvent (Trigger statics)}
    (found : events[index]? = some event) :
      eventTrigger event ∈ events.map eventTrigger :=
        List.mem_map_of_mem (List.mem_of_getElem? found)
  refine ⟨?_, ?_, ?_⟩
  · intro first second one other target oneEnds otherEnds oneMeans otherMeans
    have initialised := onceMachine_body run (.inr ⟨true, List.mem_of_getElem? oneEnds⟩)
    rw [cellNeeded_of_instantiation oneMeans] at initialised
    have same :=
      cells.cell one (at_index oneEnds) other (at_index otherEnds) target oneMeans
        otherMeans initialised
    exact onceMachine_succeeds_once run oneEnds otherEnds same
  · intro index trigger target answered isField means initialised
    have member : trigger ∈ events.map eventTrigger := answered.elim at_index at_index
    obtain ⟨other, started, same⟩ := onceMachine_started_first run answered
      (by rw [cellNeeded_of_instantiation means, initialised])
    exact ⟨other, started, cells.meaning trigger member other
      (List.mem_map_of_mem (List.mem_of_mem_take started))
      target isField means initialised same.symm⟩
  · have history := onceMachine_history run
    refine (List.pairwise_map.mp history.distinct).imp_of_mem ?_
    intro one other oneRuns otherRuns different target oneMeans otherMeans
    have initialised := onceMachine_body run (.inl oneRuns)
    rw [cellNeeded_of_instantiation oneMeans] at initialised
    exact different (cells.cell one (List.mem_map_of_mem (history.started one oneRuns)) other
      (List.mem_map_of_mem (history.started other otherRuns)) target oneMeans otherMeans
        initialised)

end Runs

/-- A class with one type parameter, two static fields and a static constructor. -/
def genericPair : Statics Unit where
  program := ⟨[]⟩
  typeMap _ := [{
    fieldList := 1
    fieldCount := 2
    methods := {
      methodMap := [⟨0, 0x06000001, cctorName, ⟨0, 0, (), []⟩, 0x0010⟩]
      firstMethodIndex := 0
      methodCount := 1 }
    genericParamCount := 1 }]
  staticFieldCount _ := 2

def outerFrame : Frame := ⟨0, none, [], [], [], []⟩

def ownFrame : Frame := ⟨0, some 1, [.mk .primitive 0x08 0 0 0 []], [], [.primitive 0x08], []⟩

def outerAccess (row : Nat) : Trigger genericPair :=
  .staticField outerFrame (.memberRef (some [.primitive 0x08]) (some (0, row)))

def ownAccess (row : Nat) : Trigger genericPair :=
  .staticField ownFrame (.memberRef (some [.typeVar 0]) (some (0, row)))

/-- The static constructor uses the field that started it. -/
def singleEvents : List (OnceEvent (Trigger genericPair)) :=
  [.started (outerAccess 1), .passed (ownAccess 1), .finished (outerAccess 1) true,
    .passed (outerAccess 1)]

theorem single_initialised_once :
    ∃ state, (initializerMachine genericPair).Run singleEvents state ∧
      InitialisedOnce singleEvents state := by
  have first := run_ask (.start rfl) (outerAccess 1) rfl
  have second := run_ask first (ownAccess 1) rfl
  have third := run_return second rfl rfl true
  have fourth := run_ask third (outerAccess 1) rfl
  have cell (trigger) (member : trigger ∈ singleEvents.map eventTrigger) :
      trigger.cell = (outerAccess 1).cell ∧ trigger.instantiation =
        (outerAccess 1).instantiation := by
    have known : trigger = outerAccess 1 ∨ trigger = ownAccess 1 ∨ trigger = outerAccess 1 := by
      simpa [singleEvents, eventTrigger] using member
    rcases known with rfl | rfl | rfl <;> exact ⟨rfl, rfl⟩
  refine ⟨_, fourth, initialised_once fourth ⟨?_, ?_⟩⟩
  · intro one oneListed other otherListed target _ _ _
    rw [(cell one oneListed).1, (cell other otherListed).1]
  · intro one oneListed other otherListed target _ means _ _
    rw [(cell other otherListed).2, ← (cell one oneListed).2, means]

/-- The static constructor stores to both fields; at the store to the second one it is
started again. -/
def pairEvents : List (OnceEvent (Trigger genericPair)) :=
  [.started (outerAccess 1), .passed (ownAccess 1), .started (ownAccess 2), .passed (ownAccess 1),
    .passed (ownAccess 2), .finished (ownAccess 2) true, .finished (outerAccess 1) true]

theorem pair_initialised_twice :
    ∃ state, (initializerMachine genericPair).Run pairEvents state ∧
      ¬ InitialisedOnce pairEvents state := by
  have first := run_ask (.start rfl) (outerAccess 1) rfl
  have second := run_ask first (ownAccess 1) rfl
  have third := run_ask second (ownAccess 2) rfl
  have fourth := run_ask third (ownAccess 1) rfl
  have fifth := run_ask fourth (ownAccess 2) rfl
  have sixth := run_return fifth rfl rfl true
  have seventh := run_return sixth rfl rfl true
  refine ⟨_, seventh, ?_⟩
  intro initialised
  have same :=
    initialised.once 5 6 (ownAccess 2) (outerAccess 1) ⟨⟨0, 1⟩, [.primitive 0x08]⟩ rfl rfl rfl rfl
  omega

end Zapada.Zaclr
