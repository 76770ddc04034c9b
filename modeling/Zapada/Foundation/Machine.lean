/-! Labelled transition systems and the induction over their runs. A label
carries all that a step shows to the outside: a call with its arguments, and
where it matters its result. -/

namespace Zapada.Foundation

structure Machine (State : Type) (Label : Type) where
  initial : State → Prop
  step : State → Label → State → Prop

namespace Machine

/-- A run lists the labels it took, oldest first, and ends in one state. -/
inductive Run (machine : Machine State Label) : List Label → State → Prop where
  | start (first : machine.initial state) : Run machine [] state
  | next (earlier : Run machine labels before) (taken : machine.step before label after) :
      Run machine (labels ++ [label]) after

/-- The machine that takes only those steps whose label the guard admits in
the state before the step. -/
def guarded (machine : Machine State Label) (guard : State → Label → Prop) :
    Machine State Label where
  initial := machine.initial
  step before label after := guard before label ∧ machine.step before label after

/-- A machine that answers every call from its state. -/
def ofCall (start : State) (call : State → Call → Result × State) :
    Machine State (Call × Result) where
  initial state := state = start
  step before label after := call before label.1 = (label.2, after)

/-- A machine whose next state is computed; `none` means the label is not
enabled. -/
def ofStep (start : State) (step : State → Label → Option State) : Machine State Label where
  initial state := state = start
  step before label after := step before label = some after

/-- A state property that holds initially and that every step keeps. -/
structure Inductive (machine : Machine State Label) (holds : State → Prop) : Prop where
  initially : ∀ state, machine.initial state → holds state
  preserved : ∀ before label after, holds before → machine.step before label after → holds after

theorem Inductive.reached {machine : Machine State Label} {holds : State → Prop}
    (rule : machine.Inductive holds) (run : machine.Run labels state) : holds state := by
  induction run with
  | start first => exact rule.initially _ first
  | next earlier taken ih => exact rule.preserved _ _ _ ih taken

/-- A property that a step keeps exactly when it is allowed holds along a sequence of steps
exactly when all of them are. -/
theorem holds_along_iff {step : State → Label → State} {holds : State → Prop}
    {allowed : State → Label → Prop}
    (sharp : ∀ state label, holds state → (holds (step state label) ↔ allowed state label))
    (first : holds state) (labels : List Label) : (∀ n, holds ((labels.take n).foldl step state)) ↔
      ∀ n label, labels[n]? = some label → allowed ((labels.take n).foldl step state) label := by
  constructor
  · intro along n label found
    have after := along (n + 1)
    rw [List.take_add_one, found, List.foldl_append] at after
    exact (sharp _ _ (along n)).mp after
  · intro steps n
    induction n with
    | zero => exact first
    | succ n ih =>
      rw [List.take_add_one, List.foldl_append]
      cases found : labels[n]? with
      | none => exact ih
      | some label => exact (sharp _ _ ih).mpr (steps n label found)

theorem Run.extend {machine : Machine State Label} {step : State → Label → Option State}
    (enabled : ∀ before label after, step before label = some after →
      machine.step before label after)
    {earlier rest : List Label} {middle final : State} (run : machine.Run earlier middle)
    (executed : rest.foldlM step middle = some final) : machine.Run (earlier ++ rest) final := by
  induction rest generalizing earlier middle with
  | nil =>
    cases executed
    simpa using run
  | cons label rest ih =>
    obtain ⟨after, taken, executed⟩ := Option.bind_eq_some_iff.mp executed
    have longer := ih (run.next (enabled _ _ _ taken)) executed
    simpa [List.append_assoc] using longer

theorem Run.ofExecution {first final : State} {step : State → Label → Option State}
    (labels : List Label) (executed : labels.foldlM step first = some final) :
    (ofStep first step).Run labels final :=
  Run.extend (fun _ _ _ taken => taken) (.start rfl) executed

/-- The calls with their replies, one after the other, and the last state. -/
def answers (call : State → Call → Result × State) : State → List Call →
      List (Call × Result) × State
  | state, [] => ([], state)
  | state, next :: calls =>
    let answered := answers call (call state next).2 calls
    ((next, (call state next).1) :: answered.1, answered.2)

theorem Run.ofCalls (call : State → Call → Result × State) (start : State) (calls : List Call) :
    (ofCall start call).Run (answers call start calls).1 (answers call start calls).2 := by
  have extend : ∀ (earlier : List (Call × Result)) (middle : State),
    (ofCall start call).Run earlier middle →
      (ofCall start call).Run (earlier ++ (answers call middle calls).1)
        (answers call middle calls).2 := by
    induction calls with
    | nil => simp [answers]
    | cons next calls ih =>
      intro earlier middle run
      have taken : (ofCall start call).step middle (next, (call middle next).1)
          (call middle next).2 := rfl
      have longer := ih _ _ (run.next taken)
      simpa [answers, List.append_assoc] using longer
  exact extend [] start (.start rfl)

/-- Every step of a machine is matched, label by label, by a step of a more abstract one. -/
structure Simulation (machine : Machine State Label) (abstract : Machine Image Label)
    (related : State → Image → Prop) : Prop where
  initially : ∀ state, machine.initial state → ∃ first, abstract.initial first ∧ related state first
  matched : ∀ before label after image, related before image → machine.step before label after →
    ∃ next, abstract.step image label next ∧ related after next

theorem Simulation.run {machine : Machine State Label} {abstract : Machine Image Label}
    {related : State → Image → Prop} (simulation : machine.Simulation abstract related)
    (run : machine.Run labels state) : ∃ image, abstract.Run labels image ∧
      related state image := by
  induction run with
  | start first =>
    obtain ⟨image, isFirst, relates⟩ := simulation.initially _ first
    exact ⟨image, .start isFirst, relates⟩
  | next earlier taken ih =>
    obtain ⟨image, before, relates⟩ := ih
    obtain ⟨next, matching, after⟩ := simulation.matched _ _ _ _ relates taken
    exact ⟨next, before.next matching, after⟩

/-- Compute a run whose steps all pass a decidable guard. -/
def execute (guard : State → Label → Prop) [∀ state label, Decidable (guard state label)]
    (step : State → Label → Option State) (first : State) (labels : List Label) : Option State :=
  labels.foldlM (fun state label => if guard state label then step state label else none) first

theorem Run.of_execute {machine : Machine State Label} {guard : State → Label → Prop}
    [∀ state label, Decidable (guard state label)] {step : State → Label → Option State}
    (enabled : ∀ before label after, step before label = some after →
      machine.step before label after)
    (first : machine.initial state) (executed : execute guard step state labels = some final) :
    (machine.guarded guard).Run labels final := by
  have start : (machine.guarded guard).Run [] state := .start first
  refine start.extend (fun before label after taken => ?_) executed
  split at taken
  · exact ⟨‹_›, enabled _ _ _ taken⟩
  · contradiction

/-- A run found by computation, with a checked property of its last state. -/
theorem Run.exists_of_execute {first : State} {guard : State → Label → Prop}
    [∀ state label, Decidable (guard state label)] {step : State → Label → Option State}
    {holds : State → Prop} (labels : List Label)
    (checked : ∃ final ∈ execute guard step first labels, holds final) :
    ∃ final, ((ofStep first step).guarded guard).Run labels final ∧ holds final := by
  obtain ⟨final, executed, fact⟩ := checked
  exact ⟨final, Run.of_execute (fun _ _ _ taken => taken) rfl executed, fact⟩

end Machine

end Zapada.Foundation
