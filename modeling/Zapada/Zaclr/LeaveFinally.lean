import Mathlib.Data.List.Sort
import Zapada.Zaclr.Exceptions

namespace Zapada.Zaclr

open Foundation Option

structure CodeRange where
  start : Nat
  stop : Nat
deriving DecidableEq

namespace CodeRange

def Within (inner outer : CodeRange) : Prop := outer.start ≤ inner.start ∧ inner.stop ≤ outer.stop

def Apart (one other : CodeRange) : Prop := one.stop ≤ other.start ∨ other.stop ≤ one.start

instance (inner outer : CodeRange) : Decidable (Within inner outer) :=
  inferInstanceAs (Decidable (_ ∧ _))

instance (one other : CodeRange) : Decidable (Apart one other) :=
  inferInstanceAs (Decidable (_ ∨ _))

end CodeRange

namespace ExceptionClause

def tryRange (clause : ExceptionClause) : CodeRange :=
  ⟨clause.tryOffset, clause.tryOffset + clause.tryLength⟩

def handlerRange (clause : ExceptionClause) : CodeRange :=
  ⟨clause.handlerOffset, clause.handlerOffset + clause.handlerLength⟩

/-- Both blocks are there, end inside the 32-bit offsets and do not overlap. -/
structure WellFormed (clause : ExceptionClause) : Prop where
  tryNonempty : 0 < clause.tryLength
  handlerNonempty : 0 < clause.handlerLength
  tryBounded : clause.tryRange.stop < 2 ^ 32
  handlerBounded : clause.handlerRange.stop < 2 ^ 32
  apart : clause.tryRange.Apart clause.handlerRange

/-- A whole clause lies inside the try block of another. -/
def InTry (inner outer : ExceptionClause) : Prop :=
  inner.tryRange.Within outer.tryRange ∧ inner.handlerRange.Within outer.tryRange

def InHandler (inner outer : ExceptionClause) : Prop :=
  inner.tryRange.Within outer.handlerRange ∧ inner.handlerRange.Within outer.handlerRange

/-- How a clause may lie to a later one. Only catch, filter and fault clauses share a try block. -/
def Nested (earlier later : ExceptionClause) : Prop :=
  earlier.InTry later ∨ earlier.InHandler later ∨
  (earlier.tryRange = later.tryRange ∧ earlier.kind ≠ 2 ∧ later.kind ≠ 2 ∧
    earlier.handlerRange.Apart later.handlerRange) ∨
  (earlier.tryRange.Apart later.tryRange ∧ earlier.tryRange.Apart later.handlerRange ∧
    earlier.handlerRange.Apart later.tryRange ∧ earlier.handlerRange.Apart later.handlerRange)

/-- A finally clause whose try block is left on the way from source to target. -/
def leaves (source target : Nat) (clause : ExceptionClause) : Bool :=
  clause.kind = 2 ∧ clause.tryContains source ∧ ¬ clause.tryContains target

end ExceptionClause

/-- Well-formed clauses, properly nested and inner clauses first. -/
structure MethodCode.WellFormed (code : MethodCode) : Prop where
  count : code.clauses.length < 2 ^ 16
  clause : ∀ clause ∈ code.clauses, clause.WellFormed
  nested : code.clauses.Pairwise ExceptionClause.Nested

/-- The handlers run are exactly those of the try blocks that are left, once each and
innermost first. -/
structure RunsFinally (code : MethodCode) (source target : Nat) (indexes : List Nat) : Prop where
  exactly : ∀ index, index ∈ indexes ↔ code.clauseAt (·.leaves source target) index
  once : indexes.Nodup
  innermostFirst : indexes.Pairwise fun index outer => ∀ clause clause',
    code.clauses[index]? = some clause → code.clauses[outer]? = some clause' → clause.InTry clause'

/-- A leave runs the handlers it has to run and goes on at its target. -/
def LeavesCorrectly (code : MethodCode) (frame : ExceptionFrame) (instruction : LeaveInstruction)
    (handlers : Nat → HandlerRun) : Prop :=
  ∃ indexes after, code.runLeave (fun index => code.runHandler (handlers index)) instruction frame =
      some (indexes, after) ∧
    RunsFinally code frame.ilOffset (instruction.target frame.ilOffset) indexes ∧
    after.ilOffset = instruction.target frame.ilOffset

def HandlerRun.leaveFree : HandlerRun → Bool
  | .endfinally => true
  | .instruction _ rest => rest.leaveFree
  | .leave _ _ _ => false

/-- Where the handlers have to lie for a leave: those to run end before the target and come in
the order of their clauses, and another handler that the leave would run is passed over. -/
structure Placed (code : MethodCode) (source target : Nat) : Prop where
  behind : ∀ clause ∈ code.clauses, clause.leaves source target → clause.handlerEnd ≤ target
  ordered : ∀ (index later : Nat) (clause clause' : ExceptionClause), index < later →
    code.clauses[index]? = some clause → code.clauses[later]? = some clause' →
    clause.leaves source target → clause'.leaves source target →
    clause.handlerOffset ≤ clause'.handlerOffset
  others : ∀ (index : Nat) (clause : ExceptionClause), code.clauses[index]? = some clause →
    clause.kind = 2 → (clause.tryContains source ∨ clause.handlerContains source) →
    clause.handlerEnd ≤ target → ¬ clause.leaves source target →
    ∃ (later : Nat) (clause' : ExceptionClause), index < later ∧
      code.clauses[later]? = some clause' ∧
      clause'.leaves source target ∧ clause'.handlerOffset < clause.handlerOffset

/-- The condition on the clauses, the leave and the handlers to run, which execute no leave. -/
structure LeaveCondition (code : MethodCode) (source target : Nat) (handlers : Nat → HandlerRun) :
    Prop where
  placed : Placed code source target
  plain : ∀ index, code.clauseAt (·.leaves source target) index → (handlers index).leaveFree

namespace MethodCode

variable {code : MethodCode}

theorem clauseAt_iff : code.clauseAt test index ↔ ∃ clause, code.clauses[index]? = some clause ∧
      test clause := by
  cases found : code.clauses[index]? <;> simp [clauseAt, found]

theorem clauseAt_of_some (found : code.clauses[index]? = some clause) : code.clauseAt test index ↔
      test clause := by
  simp [clauseAt, found]

theorem clauseAt_bound (holds : code.clauseAt test index) : index < code.clauses.length := by
  obtain ⟨clause, found, _⟩ := clauseAt_iff.mp holds
  exact (List.getElem?_eq_some_iff.mp found).1

theorem handlerOffset_of_some (found : code.clauses[index]? = some clause) :
    code.handlerOffset index = clause.handlerOffset := by
  simp [handlerOffset, found]

theorem runHandlers_ends (ran : code.runHandlers run fuel frame = some (indexes, after)) :
    after.finallyPending = false := by
  induction fuel generalizing frame indexes with
  | zero => cases ran
  | succ fuel ih =>
    rw [runHandlers] at ran
    cases handler : entered frame with
    | none =>
      simp only [handler, some.injEq, Prod.mk.injEq] at ran
      obtain ⟨_, rfl⟩ := ran
      cases pending : frame.finallyPending with
      | false => rfl
      | true => simp [entered, pending] at handler
    | some index =>
      simp only [handler, bind_eq_bind, bind_eq_some_iff] at ran
      obtain ⟨_, _, _, _, ⟨rest, last⟩, ran, same⟩ := ran
      cases same
      exact ih ran

theorem runHandler_leaveFree (frame : ExceptionFrame) (free : handler.leaveFree) :
    ∃ offset, code.runHandler handler frame = some { frame with ilOffset := offset } := by
  induction handler generalizing frame with
  | endfinally => exact ⟨frame.ilOffset, rfl⟩
  | instruction next rest ih =>
    obtain ⟨offset, ran⟩ := ih { frame with ilOffset := next } free
    exact ⟨offset, ran⟩
  | leave => cases free

theorem runHandler_leaves (leaves : ¬ handler.leaveFree)
    (ran : code.runHandler handler frame = some after) : after.finallyPending = false := by
  induction handler generalizing frame with
  | endfinally => simp [HandlerRun.leaveFree] at leaves
  | instruction next rest ih => exact ih leaves ran
  | leave instruction handlers rest _ ih =>
    rw [runHandler] at ran
    cases left :
        code.runLeave (fun index => code.runHandler (handlers index)) instruction frame with
    | none => simp [left] at ran
    | some result =>
      simp only [left] at ran
      have ended := runHandlers_ends left
      by_cases free : rest.leaveFree
      · obtain ⟨offset, moved⟩ := runHandler_leaveFree result.2 free
        rw [moved] at ran
        cases ran
        exact ended
      · exact ih free ran

/-- The choices of the interpreter for a leave. -/
def finallySequence (code : MethodCode) (source target fuel start : Nat) : List Nat :=
  selectFrom (code.clauseAt (·.finallyClauseIsBetween source target)) code.handlerOffset
    code.clauses.length fuel start

/-- At the end of a handler without a leave the interpreter goes on behind its clause. -/
theorem endfinally_leave (count : code.clauses.length < 2 ^ 16)
    (inside : index < code.clauses.length) (pending : frame.finallyPending)
    (record : frame.pendingFinally = ⟨pendingFinallyLeave, index + 1, source, target, 0⟩) :
    code.endfinally frame =
      some (code.dispatchNextFinallyForLeave frame.clearFinally source target (index + 1)) := by
  have narrow : (index + 1) % 2 ^ 16 = index + 1 := Nat.mod_eq_of_lt (by omega)
  rw [endfinally, if_pos pending, record]
  simp only [narrow, if_true]

theorem findNext_inside (found : code.findNextFinallyClause source target start = some index) :
    start ≤ index ∧ index < code.clauses.length := by
  have least :=
    leastIndex_spec (code.clauseAt (·.finallyClauseIsBetween source target))
      code.handlerOffset start
    code.clauses.length
  rw [← findNextFinallyClause, found] at least
  exact ⟨least.1, least.2.1⟩

theorem finallySequence_none (found : code.findNextFinallyClause source target start = none) :
    code.finallySequence source target (fuel + 1) start = [] := by
  rw [findNextFinallyClause] at found
  rw [finallySequence, selectFrom, found]

theorem finallySequence_some (found : code.findNextFinallyClause source target start = some index) :
    code.finallySequence source target (fuel + 1) start =
      index :: code.finallySequence source target fuel (index + 1) := by
  rw [findNextFinallyClause] at found
  rw [finallySequence, selectFrom, found, finallySequence]

theorem runHandlers_none (found : code.findNextFinallyClause source target start = none) :
    code.runHandlers run (fuel + 1) (code.dispatchNextFinallyForLeave frame source target start) =
      some ([], { frame.clearFinally with ilOffset := target }) := by
  simp [runHandlers, dispatchNextFinallyForLeave, found, entered, ExceptionFrame.clearFinally]

theorem runHandlers_leaves {handlers : Nat → HandlerRun}
    (found : code.findNextFinallyClause source target start = some index)
    (leaves : ¬ (handlers index).leaveFree) :
    code.runHandlers (fun index => code.runHandler (handlers index)) (fuel + 1)
      (code.dispatchNextFinallyForLeave frame source target start) = none := by
  simp only [runHandlers, dispatchNextFinallyForLeave, found, entered, if_true, Nat.add_sub_cancel,
    bind_eq_bind]
  rw [bind_eq_none_iff]
  intro middle handled
  have stopped := runHandler_leaves leaves handled
  simp [endfinally, stopped]

/-- A chosen handler without a leave is run, and the search goes on behind it. -/
theorem runHandlers_some {handlers : Nat → HandlerRun} (count : code.clauses.length < 2 ^ 16)
    (found : code.findNextFinallyClause source target start = some index)
    (inside : index < code.clauses.length) (free : (handlers index).leaveFree) :
    ∃ resumed, code.runHandlers (fun index => code.runHandler (handlers index)) (fuel + 1)
        (code.dispatchNextFinallyForLeave frame source target start) =
      (code.runHandlers (fun index => code.runHandler (handlers index)) fuel
        (code.dispatchNextFinallyForLeave resumed source target (index + 1))).map
          fun (indexes, after) => (index :: indexes, after) := by
  let dispatched : ExceptionFrame := { frame with
    finallyPending := true
    pendingFinally := ⟨pendingFinallyLeave, index + 1, source, target, 0⟩
    ilOffset := code.handlerOffset index }
  have dispatch : code.dispatchNextFinallyForLeave frame source target start = dispatched := by
    rw [dispatchNextFinallyForLeave, found]
  have here : entered dispatched = some index := rfl
  have ran : ∃ offset, code.runHandler (handlers index) dispatched =
      some { dispatched with ilOffset := offset } := runHandler_leaveFree dispatched free
  obtain ⟨offset, moved⟩ := ran
  let resumed : ExceptionFrame := { dispatched with ilOffset := offset }.clearFinally
  have ended : code.endfinally { dispatched with ilOffset := offset } =
      some (code.dispatchNextFinallyForLeave resumed source target (index + 1)) :=
    endfinally_leave count inside rfl rfl
  refine ⟨resumed, ?_⟩
  rw [dispatch, runHandlers]
  simp only [here, bind_eq_bind, moved, ended, bind_some]
  cases code.runHandlers (fun index => code.runHandler (handlers index)) fuel
    (code.dispatchNextFinallyForLeave resumed source target (index + 1)) <;> rfl

/-- Where the chosen handlers execute no leave, they all run and the target is reached; otherwise
the leave does not end. -/
theorem runHandlers_sequence (frame : ExceptionFrame) (source target : Nat)
    (handlers : Nat → HandlerRun)
    (count : code.clauses.length < 2 ^ 16) (enough : code.clauses.length - start < fuel) :
    if ∀ index ∈ code.finallySequence source target fuel start, (handlers index).leaveFree then
      ∃ after, code.runHandlers (fun index => code.runHandler (handlers index)) fuel
        (code.dispatchNextFinallyForLeave frame source target start) =
          some (code.finallySequence source target fuel start, after) ∧ after.ilOffset = target
    else code.runHandlers (fun index => code.runHandler (handlers index)) fuel
      (code.dispatchNextFinallyForLeave frame source target start) = none := by
  induction fuel generalizing frame start with
  | zero => omega
  | succ fuel ih =>
    cases found : code.findNextFinallyClause source target start with
    | none =>
      rw [runHandlers_none found, finallySequence_none found, if_pos (by simp)]
      exact ⟨_, rfl, rfl⟩
    | some index =>
      simp only [finallySequence_some found, List.forall_mem_cons]
      by_cases free : (handlers index).leaveFree
      · obtain ⟨behind, bound⟩ := findNext_inside found
        obtain ⟨resumed, stepped⟩ := runHandlers_some count found bound free
        have rest := ih resumed (by omega : code.clauses.length - (index + 1) < fuel)
        rw [stepped]
        simp only [free, true_and]
        split at rest
        · obtain ⟨after, ran, reached⟩ := rest
          rw [if_pos ‹_›, ran]
          exact ⟨after, rfl, reached⟩
        · rw [if_neg ‹_›, rest]
          rfl
      · rw [if_neg fun plain => free plain.1, runHandlers_leaves found free]

end MethodCode

namespace ExceptionClause

variable {clause clause' : ExceptionClause}

theorem leaves_iff : clause.leaves source target ↔
    clause.kind = 2 ∧ clause.tryContains source ∧ ¬ clause.tryContains target := by
  simp [leaves]

theorem finallyClauseIsBetween_iff : clause.finallyClauseIsBetween source target ↔
    clause.kind = 2 ∧ (clause.tryContains source ∨ clause.handlerContains source) ∧
      clause.handlerEnd ≤ target := by
  simp [finallyClauseIsBetween]

theorem WellFormed.tryContains_iff (wellFormed : clause.WellFormed) : clause.tryContains offset ↔
    clause.tryRange.start ≤ offset ∧ offset < clause.tryRange.stop := by
  have noWrap : clause.tryEnd = clause.tryRange.stop := Nat.mod_eq_of_lt wellFormed.tryBounded
  rw [tryContains, decide_eq_true_eq, noWrap]
  rfl

/-- Of two clauses that lie inside one another's try blocks neither would be the inner one. -/
theorem InTry.asymm (wellFormed : clause.WellFormed) (inner : clause.InTry clause') :
    ¬ clause'.InTry clause := by
  intro outer
  have nonempty := wellFormed.handlerNonempty
  have apart := wellFormed.apart
  simp only [InTry, CodeRange.Within, CodeRange.Apart, tryRange, handlerRange] at inner outer apart
  omega

theorem Nested.inTry (nested : clause.Nested clause') (wellFormed : clause.WellFormed)
    (wellFormed' : clause'.WellFormed) (left : clause.leaves source target)
    (left' : clause'.leaves source target) : clause.InTry clause' := by
  obtain ⟨isFinally, inside, _⟩ := leaves_iff.mp left
  obtain ⟨_, inside', _⟩ := leaves_iff.mp left'
  rw [wellFormed.tryContains_iff] at inside
  rw [wellFormed'.tryContains_iff] at inside'
  rcases nested with inTry | inHandler | sameTry | apart
  · exact inTry
  · -- the source would lie in both blocks of the later clause
    have apart := wellFormed'.apart
    simp only [InHandler, CodeRange.Within, CodeRange.Apart] at inHandler apart
    omega
  · exact absurd isFinally sameTry.2.1
  · simp only [CodeRange.Apart] at apart
    omega

end ExceptionClause

section Leave

open MethodCode ExceptionClause

variable {code : MethodCode}

theorem inTry_of_leaves {index later : Nat}
    (wellFormed : code.WellFormed) (before : index < later)
    (found : code.clauses[index]? = some clause) (found' : code.clauses[later]? = some clause')
    (left : clause.leaves source target) (left' : clause'.leaves source target) :
    clause.InTry clause' := by
  obtain ⟨inside, rfl⟩ := List.getElem?_eq_some_iff.mp found
  obtain ⟨inside', rfl⟩ := List.getElem?_eq_some_iff.mp found'
  have nested := List.pairwise_iff_getElem.mp wellFormed.nested index later inside inside' before
  exact nested.inTry (wellFormed.clause _ (List.getElem_mem inside))
    (wellFormed.clause _ (List.getElem_mem inside')) left left'

theorem runsFinally_iff (wellFormed : code.WellFormed) : RunsFinally code source target indexes ↔
    indexes = indexesFrom (code.clauseAt (·.leaves source target)) 0 code.clauses.length := by
  have members : ∀ index, index ∈ indexesFrom (code.clauseAt (·.leaves source target)) 0
      code.clauses.length ↔ code.clauseAt (·.leaves source target) index := by
    intro index
    rw [mem_indexesFrom]
    exact ⟨fun member => member.2.2, fun holds => ⟨Nat.zero_le _, clauseAt_bound holds, holds⟩⟩
  constructor
  · intro runs
    have increasing : indexes.Pairwise (· < ·) := by
      refine List.Pairwise.imp_of_mem ?_ (runs.innermostFirst.and runs.once)
      rintro index outer member member' ⟨inner, different⟩
      obtain ⟨clause, found, left⟩ := clauseAt_iff.mp ((runs.exactly index).mp member)
      obtain ⟨clause', found', left'⟩ := clauseAt_iff.mp ((runs.exactly outer).mp member')
      by_contra notBefore
      have outerInner :=
        inTry_of_leaves wellFormed (by omega : outer < index) found' found left' left
      have valid := wellFormed.clause clause (List.mem_of_getElem? found)
      exact (inner clause clause' found found').asymm valid outerInner
    refine increasing.eq_of_mem_iff indexesFrom_pairwise ?_
    intro index
    rw [runs.exactly, members]
  · rintro rfl
    refine ⟨members, indexesFrom_pairwise.imp Nat.ne_of_lt, ?_⟩
    refine List.Pairwise.imp_of_mem ?_ indexesFrom_pairwise
    intro index outer member member' before clause clause' found found'
    have left := (clauseAt_of_some found).mp ((members index).mp member)
    have left' := (clauseAt_of_some found').mp ((members outer).mp member')
    exact inTry_of_leaves wellFormed before found found' left left'

/-- The handlers lie as they have to exactly when the interpreter chooses those to run. -/
theorem placed_iff_selects : Placed code source target ↔
    Selects (code.clauseAt (·.finallyClauseIsBetween source target))
      (code.clauseAt (·.leaves source target)) code.handlerOffset 0 code.clauses.length := by
  constructor
  · intro placed
    constructor
    case admitted =>
      intro index _ _ wanted
      obtain ⟨clause, found, left⟩ := clauseAt_iff.mp wanted
      obtain ⟨isFinally, inside, _⟩ := leaves_iff.mp left
      have behind := placed.behind clause (List.mem_of_getElem? found) left
      exact (clauseAt_of_some found).mpr (finallyClauseIsBetween_iff.mpr ⟨isFinally,
        .inl inside, behind⟩)
    case growing =>
      intro index later _ before _ wanted wanted'
      obtain ⟨clause, found, left⟩ := clauseAt_iff.mp wanted
      obtain ⟨clause', found', left'⟩ := clauseAt_iff.mp wanted'
      rw [handlerOffset_of_some found, handlerOffset_of_some found']
      exact placed.ordered index later clause clause' before found found' left left'
    case passed =>
      intro index _ _ admitted unwanted
      obtain ⟨clause, found, between⟩ := clauseAt_iff.mp admitted
      obtain ⟨isFinally, inside, behind⟩ := finallyClauseIsBetween_iff.mp between
      obtain ⟨later, clause', before, found', left', lighter⟩ :=
        placed.others index clause found isFinally inside behind
          (mt (clauseAt_of_some found).mpr unwanted)
      have wanted := (clauseAt_of_some found').mpr left'
      refine ⟨later, before, clauseAt_bound wanted, wanted, ?_⟩
      rw [handlerOffset_of_some found, handlerOffset_of_some found']
      exact lighter
  · intro selects
    have inside : ∀ {index : Nat} {clause : ExceptionClause}, code.clauses[index]? = some clause →
        index < code.clauses.length := fun found => (List.getElem?_eq_some_iff.mp found).1
    constructor
    case behind =>
      intro clause member left
      obtain ⟨index, found⟩ := List.mem_iff_getElem?.mp member
      have admitted :=
        selects.admitted index (Nat.zero_le _) (inside found) ((clauseAt_of_some found).mpr left)
      exact (finallyClauseIsBetween_iff.mp ((clauseAt_of_some found).mp admitted)).2.2
    case ordered =>
      intro index later clause clause' before found found' left left'
      have growing := selects.growing index later (Nat.zero_le _) before (inside found')
        ((clauseAt_of_some found).mpr left) ((clauseAt_of_some found').mpr left')
      rwa [handlerOffset_of_some found, handlerOffset_of_some found'] at growing
    case others =>
      intro index clause found isFinally covers behind stays
      have admitted : code.clauseAt (·.finallyClauseIsBetween source target) index :=
        (clauseAt_of_some found).mpr (finallyClauseIsBetween_iff.mpr ⟨isFinally, covers, behind⟩)
      obtain ⟨later, before, _, wanted, lighter⟩ :=
        selects.passed index (Nat.zero_le _) (inside found) admitted
          (mt (clauseAt_of_some found).mp stays)
      obtain ⟨clause', found', left'⟩ := clauseAt_iff.mp wanted
      rw [handlerOffset_of_some found, handlerOffset_of_some found'] at lighter
      exact ⟨later, clause', before, found', left', lighter⟩

/-- A leave runs exactly the handlers it has to run, innermost first, and goes on at its target
if and only if the condition holds. -/
theorem leave_runs_finally_iff (wellFormed : code.WellFormed) (frame : ExceptionFrame)
    (instruction : LeaveInstruction) (handlers : Nat → HandlerRun) :
    LeavesCorrectly code frame instruction handlers ↔
      LeaveCondition code frame.ilOffset (instruction.target frame.ilOffset) handlers := by
  have sequence : code.finallySequence frame.ilOffset (instruction.target frame.ilOffset)
      (code.clauses.length + 1) 0 = indexesFrom (code.clauseAt
        (·.leaves frame.ilOffset (instruction.target frame.ilOffset))) 0 code.clauses.length ↔
      Placed code frame.ilOffset (instruction.target frame.ilOffset) := by
    rw [placed_iff_selects]
    exact selectFrom_eq_iff (by omega) (Nat.zero_le _)
  have ends :=
    runHandlers_sequence frame frame.ilOffset (instruction.target frame.ilOffset) handlers
    wellFormed.count (Nat.lt_succ_self (code.clauses.length - 0))
  constructor
  · rintro ⟨indexes, after, ran, runs, _⟩
    split at ends
    · rename_i plain
      obtain ⟨_, chosen, _⟩ := ends
      cases ran.symm.trans chosen
      refine ⟨sequence.mp ((runsFinally_iff wellFormed).mp runs), fun index wanted => ?_⟩
      exact plain index ((runs.exactly index).mpr wanted)
    · cases ran.symm.trans ends
  · rintro ⟨placed, plain⟩
    have same := sequence.mpr placed
    have runs := (runsFinally_iff wellFormed).mpr same
    have free : ∀ index ∈ code.finallySequence frame.ilOffset (instruction.target frame.ilOffset)
        (code.clauses.length + 1) 0, (handlers index).leaveFree :=
      fun index member => plain index ((runs.exactly index).mp member)
    obtain ⟨after, ran, reached⟩ := (if_pos free).mp ends
    exact ⟨_, after, ran, runs, reached⟩

/-- A finally clause inside the try block of another, both handlers behind their try blocks. -/
def nestedFinally : MethodCode where
  clauses := [⟨2, 10, 10, 20, 10, 0⟩, ⟨2, 5, 30, 35, 10, 0⟩]
  ilSize := 60
  maxStack := 8
  objectMatchesType _ _ := false

def frameAt (offset : Nat) : ExceptionFrame :=
  { ilOffset := offset, evalStack := [], filterPending := false, pendingFilter := ⟨0, 0, 0, 0⟩,
    finallyPending := false, pendingFinally := ⟨0, 0, 0, 0, 0⟩ }

theorem nestedFinally_wellFormed : nestedFinally.WellFormed := by
  constructor
  case count => decide
  case clause =>
    intro clause member
    simp only [nestedFinally, List.mem_cons, List.not_mem_nil, or_false] at member
    rcases member with rfl | rfl <;> constructor <;> decide
  case nested =>
    refine List.Pairwise.cons ?_ (List.pairwise_singleton _ _)
    intro clause member
    obtain rfl := List.mem_singleton.mp member
    exact .inl ⟨by decide, by decide⟩

/-- A leave forward out of both try blocks. -/
theorem leave_runs_finally_forward :
    LeavesCorrectly nestedFinally (frameAt 15) (.leave 30) (fun _ => .endfinally) := by
  have chosen : nestedFinally.finallySequence 15 50 3 0 =
      indexesFrom (nestedFinally.clauseAt (·.leaves 15 50)) 0 2 := by decide
  have placed : Placed nestedFinally 15 50 :=
    placed_iff_selects.mpr ((selectFrom_eq_iff (by decide) (by decide)).mp chosen)
  have target : LeaveInstruction.target (frameAt 15).ilOffset (.leave 30) = 50 := by decide
  refine (leave_runs_finally_iff nestedFinally_wellFormed (frameAt 15) (.leave 30) _).mpr ?_
  rw [target]
  exact ⟨placed, fun _ _ => rfl⟩

/-- A leave back to an offset before the try block runs no handler. -/
theorem leave_backward_skips_finally : nestedFinally.WellFormed ∧
      LeaveInstruction.target 15 (.leave (-20)) = 0 ∧
      (∀ handlers, nestedFinally.runLeave handlers (.leave (-20)) (frameAt 15) = some ([],
        frameAt 0)) ∧
      ∀ handlers, ¬ LeavesCorrectly nestedFinally (frameAt 15) (.leave (-20)) handlers := by
  have target : LeaveInstruction.target 15 (.leave (-20)) = 0 := by decide
  have skipped : ∀ handlers, nestedFinally.runLeave handlers (.leave (-20)) (frameAt 15) =
      some ([], frameAt 0) := fun _ => rfl
  refine ⟨nestedFinally_wellFormed, target, skipped, ?_⟩
  rintro handlers ⟨indexes, after, ran, runs, _⟩
  obtain ⟨rfl, _⟩ := ran
  exact absurd ((runs.exactly 0).mpr (by decide)) (List.not_mem_nil)

end Leave

end Zapada.Zaclr
