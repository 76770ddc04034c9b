import Zapada.Zaclr.LeaveFinally

namespace Zapada.Zaclr

/-- The instructions that do not write the continuation; `raise` is an exception of the runtime. -/
inductive PlainInstruction where
  | next (ilOffset : Nat) (evalStack : List Nat)
  | raise (exception throwOffset : Nat)
  | endfilter

/-- What a finally handler executes up to its `endfinally`, each leave and throw with what the
handlers execute that run for it. -/
inductive HandlerCourse where
  | endfinally
  | plain (instruction : PlainInstruction) (rest : HandlerCourse)
  | leave (instruction : LeaveInstruction) (handlers : Nat → HandlerCourse) (rest : HandlerCourse)
  | throw (handlers : Nat → HandlerCourse) (rest : HandlerCourse)

/-- A course that leaves no try or catch block and throws nothing. -/
def HandlerCourse.plainOnly : HandlerCourse → Bool
  | .endfinally => true
  | .plain _ rest => rest.plainOnly
  | .leave _ _ _ | .throw _ _ => false

def SameContinuation (frame after : ExceptionFrame) : Prop :=
  after.finallyPending ∧ after.pendingFinally = frame.pendingFinally

namespace MethodCode

variable (code : MethodCode)

/-- `CEE_ENDFILTER`, with the answer of the filter on the stack. -/
def endfilter (frame : ExceptionFrame) : Option ExceptionFrame :=
  match frame.filterPending, frame.evalStack with
  | true, accepted :: rest =>
    let pending := frame.pendingFilter
    if accepted = 0 then
      code.dispatchExceptionToHandlerAtOffsetFromClause { frame with evalStack := rest }
        pending.exceptionHandle pending.throwOffset (pending.nextClauseIndex % 2 ^ 16)
    else
      (code.resetEvalStackForExceptionObject frame.clearFilter pending.exceptionHandle).map
        ({ · with ilOffset := pending.handlerOffset })
  | _, _ => none

/-- `CEE_THROW`. -/
def executeThrow (frame : ExceptionFrame) : Option ExceptionFrame :=
  match frame.evalStack with
  | [] => none
  | exception :: rest =>
    if exception = 0 then none
    else code.dispatchNextFinallyForThrow { frame with evalStack := rest } frame.ilOffset
      exception 0

def executePlain (frame : ExceptionFrame) : PlainInstruction → Option ExceptionFrame
  | .next ilOffset evalStack => some { frame with ilOffset, evalStack }
  | .raise exception throwOffset =>
    code.dispatchExceptionToHandlerAtOffsetFromClause frame exception throwOffset 0
  | .endfilter => code.endfilter frame

/-- The interpreter on what a handler executes. -/
def runCourse : HandlerCourse → ExceptionFrame → Option ExceptionFrame
  | .endfinally, frame => some frame
  | .plain instruction rest, frame =>
    (code.executePlain frame instruction).bind fun frame => runCourse rest frame
  | .leave instruction handlers rest, frame =>
    (code.runLeave (fun index frame => runCourse (handlers index) frame) instruction frame).bind
      fun (_, frame) => runCourse rest frame
  | .throw handlers rest, frame =>
    (code.executeThrow frame).bind fun frame =>
      (code.runHandlers (fun index frame => runCourse (handlers index) frame)
        (code.clauses.length + 1) frame).bind fun (_, frame) => runCourse rest frame

variable {code}

theorem dispatchException_keeps (dispatched :
      code.dispatchExceptionToHandlerAtOffsetFromClause frame exception offset start = some after) :
    after.finallyPending = frame.finallyPending ∧ after.pendingFinally = frame.pendingFinally := by
  simp only [dispatchExceptionToHandlerAtOffsetFromClause, resetEvalStackForExceptionObject]
    at dispatched
  split at dispatched
  · cases dispatched
  · split_ifs at dispatched <;> cases dispatched <;> exact ⟨rfl, rfl⟩

theorem executePlain_keeps (executed : code.executePlain frame instruction = some after) :
    after.finallyPending = frame.finallyPending ∧ after.pendingFinally = frame.pendingFinally := by
  cases instruction with
  | next =>
    cases executed
    exact ⟨rfl, rfl⟩
  | raise => exact dispatchException_keeps executed
  | endfilter =>
    simp only [executePlain, endfilter, resetEvalStackForExceptionObject] at executed
    split at executed
    · split_ifs at executed
      · exact dispatchException_keeps executed
      · cases executed
      · cases executed
        exact ⟨rfl, rfl⟩
    · cases executed

/-- A plain course keeps the continuation; any other ends without one. -/
theorem runCourse_pending (ran : code.runCourse course frame = some after) :
    (course.plainOnly → after.finallyPending = frame.finallyPending ∧
      after.pendingFinally = frame.pendingFinally) ∧
    (frame.finallyPending = false ∨ ¬ course.plainOnly → after.finallyPending = false) := by
  induction course generalizing frame with
  | endfinally =>
    cases ran
    exact ⟨fun _ => ⟨rfl, rfl⟩, fun cleared => cleared.resolve_right (not_not_intro rfl)⟩
  | plain instruction rest ih =>
    obtain ⟨middle, executed, ran⟩ := Option.bind_eq_some_iff.mp ran
    have kept := executePlain_keeps executed
    have later := ih ran
    rw [kept.1, kept.2] at later
    exact later
  | leave instruction handlers rest _ ih =>
    obtain ⟨⟨_, middle⟩, left, ran⟩ := Option.bind_eq_some_iff.mp ran
    exact ⟨nofun, fun _ => (ih ran).2 (.inl (runHandlers_ends left))⟩
  | throw handlers rest _ ih =>
    obtain ⟨thrown, _, ran⟩ := Option.bind_eq_some_iff.mp ran
    obtain ⟨⟨_, middle⟩, caught, ran⟩ := Option.bind_eq_some_iff.mp ran
    exact ⟨nofun, fun _ => (ih ran).2 (.inl (runHandlers_ends caught))⟩

end MethodCode

/-- A finally handler reaches its `endfinally` with its continuation just if it executes no
leave and no throw, so no statement of its own. -/
theorem continuation_kept_iff (code : MethodCode) (course : HandlerCourse)
    (frame after : ExceptionFrame) (pending : frame.finallyPending)
    (ran : code.runCourse course frame = some after) :
    SameContinuation frame after ↔ course.plainOnly := by
  obtain ⟨keeps, clears⟩ := MethodCode.runCourse_pending ran
  constructor
  · intro same
    by_contra statement
    exact Bool.noConfusion ((clears (.inr statement)).symm.trans same.1)
  · intro plain
    exact ⟨(keeps plain).1.trans pending, (keeps plain).2⟩

/-- A finally clause inside the handler of another. -/
def finallyInFinally : MethodCode where
  clauses := [⟨2, 40, 3, 43, 2, 0⟩, ⟨2, 10, 20, 35, 15, 0⟩]
  ilSize := 60
  maxStack := 8
  objectMatchesType _ _ := false

/-- The frame at the outer handler after a leave from 15 to 52. -/
def outerEntered : ExceptionFrame := finallyInFinally.executeLeave (frameAt 15) (.leave 32)

theorem continuation_kept_plain :
    SameContinuation outerEntered { outerEntered with ilOffset := 49, evalStack := [] } :=
  (continuation_kept_iff finallyInFinally (.plain (.next 49 []) .endfinally) outerEntered _
    rfl rfl).mpr rfl

/-- The inner statement clears the target of the leave, and the outer handler cannot end. -/
theorem inner_finally_clears :
    outerEntered.pendingFinally = ⟨pendingFinallyLeave, 2, 15, 52, 0⟩ ∧
    ∃ after, finallyInFinally.runCourse (.plain (.next 42 []) (.leave (.leaveS 1)
        (fun _ => .endfinally) (.plain (.next 49 []) .endfinally))) outerEntered = some after ∧
      ¬ SameContinuation outerEntered after ∧ finallyInFinally.endfinally after = none := by
  refine ⟨by decide +kernel, frameAt 49, by decide +kernel, ?_, rfl⟩
  rintro ⟨pending, _⟩
  exact Bool.noConfusion pending

end Zapada.Zaclr
