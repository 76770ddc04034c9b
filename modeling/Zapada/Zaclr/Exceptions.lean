import Zapada.Foundation.Bytes
import Zapada.Foundation.Selection

/-! How the interpreter dispatches `leave`, `throw` and `endfinally` inside one frame. An error
status is `none`. -/

namespace Zapada.Zaclr

open Foundation

structure ExceptionClause where
  flags : Nat
  tryOffset : Nat
  tryLength : Nat
  handlerOffset : Nat
  handlerLength : Nat
  classToken : Nat
deriving DecidableEq, Repr

namespace ExceptionClause

/-- 0 for catch, 1 for filter, 2 for finally and 4 for fault. -/
def kind (clause : ExceptionClause) : Nat := clause.flags &&& 0x0007

def tryEnd (clause : ExceptionClause) : Nat := (clause.tryOffset + clause.tryLength) % 2 ^ 32

def handlerEnd (clause : ExceptionClause) : Nat :=
  (clause.handlerOffset + clause.handlerLength) % 2 ^ 32

def tryContains (clause : ExceptionClause) (offset : Nat) : Bool :=
  clause.tryOffset ≤ offset ∧ offset < clause.tryEnd

def handlerContains (clause : ExceptionClause) (offset : Nat) : Bool :=
  clause.handlerOffset ≤ offset ∧ offset < clause.handlerEnd

def finallyClauseIsBetween (clause : ExceptionClause) (source target : Nat) : Bool :=
  clause.kind = 2 ∧ (clause.tryContains source ∨ clause.handlerContains source) ∧
    clause.handlerEnd ≤ target

end ExceptionClause

/-- The method that a frame executes; `objectMatchesType` answers for an exception and a token
of the frame's assembly. -/
structure MethodCode where
  clauses : List ExceptionClause
  ilSize : Nat
  maxStack : Nat
  objectMatchesType : (exception token : Nat) → Bool

/-- The handlers that are still to be dispatched when a finally handler ends. -/
structure PendingFinally where
  kind : Nat
  nextClauseIndex : Nat
  sourceOffset : Nat
  leaveTarget : Nat
  exceptionHandle : Nat
deriving DecidableEq, Repr

structure PendingFilter where
  handlerOffset : Nat
  nextClauseIndex : Nat
  throwOffset : Nat
  exceptionHandle : Nat
deriving DecidableEq, Repr

/-- The part of a frame that exception handling reads and writes. -/
structure ExceptionFrame where
  ilOffset : Nat
  evalStack : List Nat
  filterPending : Bool
  pendingFilter : PendingFilter
  finallyPending : Bool
  pendingFinally : PendingFinally
deriving DecidableEq, Repr

def pendingFinallyLeave : Nat := 1
def pendingFinallyThrow : Nat := 2

namespace ExceptionFrame

def clearFinally (frame : ExceptionFrame) : ExceptionFrame :=
  { frame with finallyPending := false, pendingFinally := ⟨0, 0, 0, 0, 0⟩ }

def clearFilter (frame : ExceptionFrame) : ExceptionFrame :=
  { frame with filterPending := false, pendingFilter := ⟨0, 0, 0, 0⟩ }

end ExceptionFrame

namespace MethodCode

variable (code : MethodCode)

def clauseAt (test : ExceptionClause → Bool) (index : Nat) : Bool := code.clauses[index]?.any test

def handlerOffset (index : Nat) : Nat := (code.clauses[index]?.map (·.handlerOffset)).getD 0

/-- `find_next_finally_clause`: the clause between source and target whose handler comes first. -/
def findNextFinallyClause (source target start : Nat) : Option Nat :=
  leastIndex (code.clauseAt (·.finallyClauseIsBetween source target)) code.handlerOffset start
    code.clauses.length

def doesCatchClauseMatch (clause : ExceptionClause) (exception : Nat) : Bool :=
  clause.kind = 0 ∧ (clause.classToken = 0 ∨ code.objectMatchesType exception clause.classToken)

/-- `reset_eval_stack_for_exception_object`; the push fails on a stack without room. -/
def resetEvalStackForExceptionObject (frame : ExceptionFrame) (exception : Nat) :
    Option ExceptionFrame :=
  if code.maxStack = 0 then none else some { frame with evalStack := [exception] }

/-- The clause that a search for a handler from `start` stops at. -/
def findHandler (exception throwOffset start : Nat) : Option (Nat × ExceptionClause) :=
  (code.clauses.zipIdx.drop start).findSome? fun (clause, index) =>
    if clause.tryContains throwOffset ∧
      (code.doesCatchClauseMatch clause exception ∨ clause.kind = 1) then
      some (index, clause)
    else none

/-- `find_exception_handler_entry_offset`. -/
def findExceptionHandlerEntryOffset (exception throwOffset : Nat) : Option Nat :=
  (code.findHandler exception throwOffset 0).map fun (_, clause) =>
    if clause.kind = 0 then clause.handlerOffset else clause.classToken

/-- `dispatch_exception_to_handler_at_offset_from_clause`. -/
def dispatchExceptionToHandlerAtOffsetFromClause (frame : ExceptionFrame)
    (exception throwOffset start : Nat) : Option ExceptionFrame :=
  let frame := frame.clearFilter
  match code.findHandler exception throwOffset start with
  | none => none
  | some (index, clause) => do
    let frame ← code.resetEvalStackForExceptionObject frame exception
    if clause.kind = 0 then some { frame with ilOffset := clause.handlerOffset }
    else
      some { frame with
        filterPending := true
        pendingFilter := ⟨clause.handlerOffset, index + 1, throwOffset, exception⟩
        ilOffset := clause.classToken }

def dispatchNextFinallyForLeave (frame : ExceptionFrame) (source target start : Nat) :
    ExceptionFrame :=
  match code.findNextFinallyClause source target start with
  | none => { frame.clearFinally with ilOffset := target }
  | some index =>
    { frame with
      finallyPending := true
      pendingFinally := ⟨pendingFinallyLeave, index + 1, source, target, 0⟩
      ilOffset := code.handlerOffset index }

def dispatchNextFinallyForThrow (frame : ExceptionFrame) (throwOffset exception start : Nat) :
    Option ExceptionFrame :=
  let target := (code.findExceptionHandlerEntryOffset exception throwOffset).getD code.ilSize
  match code.findNextFinallyClause throwOffset target start with
  | none =>
    code.dispatchExceptionToHandlerAtOffsetFromClause frame.clearFinally exception throwOffset 0
  | some index =>
    some { frame with
      finallyPending := true
      pendingFinally := ⟨pendingFinallyThrow, index + 1, throwOffset, 0, exception⟩
      ilOffset := code.handlerOffset index }

def endfinally (frame : ExceptionFrame) : Option ExceptionFrame :=
  if frame.finallyPending then
    let pending := frame.pendingFinally
    let start := pending.nextClauseIndex % 2 ^ 16
    if pending.kind = pendingFinallyLeave then
      some (code.dispatchNextFinallyForLeave frame.clearFinally pending.sourceOffset
        pending.leaveTarget start)
    else if pending.kind = pendingFinallyThrow then
      code.dispatchNextFinallyForThrow frame.clearFinally pending.sourceOffset
        pending.exceptionHandle start
    else none
  else none

end MethodCode

/-- `CEE_LEAVE_S` and `CEE_LEAVE` with their operands. -/
inductive LeaveInstruction where
  | leaveS (delta : Int)
  | leave (delta : Int)

/-- `compute_short_branch_target` and `compute_inline_branch_target`. -/
def LeaveInstruction.target (offset : Nat) : LeaveInstruction → Nat
  | leaveS delta => ((int32 (offset + 2 + delta)) % 2 ^ 32).toNat
  | leave delta => ((int32 (offset + 5 + delta)) % 2 ^ 32).toNat

def MethodCode.executeLeave (code : MethodCode) (frame : ExceptionFrame)
    (instruction : LeaveInstruction) :
    ExceptionFrame :=
  code.dispatchNextFinallyForLeave frame frame.ilOffset (instruction.target frame.ilOffset) 0

/-- What a finally handler executes up to its `endfinally`: instructions that neither leave nor
throw, and leaves, each with what the handlers execute that run for it. -/
inductive HandlerRun where
  | endfinally
  | instruction (next : Nat) (rest : HandlerRun)
  | leave (instruction : LeaveInstruction) (handlers : Nat → HandlerRun) (rest : HandlerRun)

namespace MethodCode

variable (code : MethodCode)

/-- The clause whose handler a dispatch has entered. -/
def entered (frame : ExceptionFrame) : Option Nat :=
  if frame.finallyPending then some (frame.pendingFinally.nextClauseIndex - 1) else none

/-- The handlers that the interpreter runs after a dispatch, until none is pending. -/
def runHandlers (run : Nat → ExceptionFrame → Option ExceptionFrame) :
    (fuel : Nat) → ExceptionFrame → Option (List Nat × ExceptionFrame)
  | 0, _ => none
  | fuel + 1, frame =>
    match entered frame with
    | none => some ([], frame)
    | some index => do
      let frame ← run index frame
      let frame ← code.endfinally frame
      let (indexes, frame) ← runHandlers run fuel frame
      some (index :: indexes, frame)

/-- A leave, with the handlers that run before the next instruction is reached. -/
def runLeave (run : Nat → ExceptionFrame → Option ExceptionFrame) (instruction : LeaveInstruction)
    (frame : ExceptionFrame) : Option (List Nat × ExceptionFrame) :=
  code.runHandlers run (code.clauses.length + 1) (code.executeLeave frame instruction)

/-- The interpreter on what a handler executes. -/
def runHandler : HandlerRun → ExceptionFrame → Option ExceptionFrame
  | .endfinally, frame => some frame
  | .instruction next rest, frame => runHandler rest { frame with ilOffset := next }
  | .leave instruction handlers rest, frame =>
    match code.runLeave (fun index => runHandler (handlers index)) instruction frame with
    | none => none
    | some (_, frame) => runHandler rest frame

end MethodCode

end Zapada.Zaclr
