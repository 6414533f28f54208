import Gosub.Log
import Gosub.Machine.Step

/-!
# The journal of a machine

What is recorded of each step: the instruction, where it goes, how it ends the execution.
-/

namespace Gosub

/-- The name that spans give to an instruction that moves the program counter. -/
def Instruction.spanName : Instruction → String
  | .op .jump => "Jump"
  | .op .jumpi => "JumpI"
  | .op .jumpsub => "JumpSub"
  | .op .returnsub => "ReturnSub"
  | i => i.render

namespace Machine

def stepSpan (m : Machine) : Span := ⟨.debug, "step\x7bpc=" ++ toString m.pc ++ "\x7d"⟩

/-- The span of an instruction at work. -/
def executeSpan (m : Machine) : Span :=
  ⟨.trace, "execute\x7bself=" ++ m.next.spanName ++ "\x7d"⟩

def recordAbort (m : Machine) (trap : Trap) : Record :=
  .of .debug "Execution aborted" [("pc", toString m.pc), ("exception", trap.message)]

def recordInstruction (m : Machine) : Record :=
  .of .debug ("Executing instruction \x22" ++ m.next.render ++ "\x22") []

/-- The record of a move to an address, made by a machine that `after` shows afterwards. -/
def recordMove (m after : Machine) (target : Nat) : Record :=
  match m.next with
  | .op .jumpsub => .of .debug "Calling subroutine" [("target", toString target),
      ("call_site", toString m.pc), ("depth", toString after.returns.outstanding)]
  | .op .returnsub => .of .debug "Returning from subroutine" [("target", toString target),
      ("call_site", toString (target - 1))]
  | _ => .of .debug "Jumping" [("target", toString target)]

def recordHalt (m : Machine) (h : Halt) : Record :=
  .of .info "Halted" [("pc", toString m.pc), ("steps", toString m.steps), ("halt", h.render)]

/-- The records of what became of the next instruction. -/
def journalOf (m : Machine) : Except BudgetExceeded Execution → List Record
  | .error e => [m.recordAbort (.budgetExceeded e)]
  | .ok (.error trap _) => [m.recordInstruction, m.recordAbort trap]
  | .ok (.ok .next _) => [m.recordInstruction]
  | .ok (.ok (.jump target) after) =>
    [m.recordInstruction, (m.recordMove after target).within m.executeSpan]
  | .ok (.ok (.halt h) _) => [m.recordInstruction, m.recordHalt h]

def stepLogged (m : Machine) : List Output × Machine :=
  match m.status with
  | .running =>
    let execution := m.attempt
    ((m.journalOf execution).map fun r => .record (r.within m.stepSpan), m.settle execution)
  | _ => ([], m)

/-- Runs to the end with the records of all steps, if the fuel lasts. The records made before are
given last first. -/
def runLogged? : Nat → List Output → Machine → Option (List Output × Machine)
  | 0, _, _ => none
  | fuel + 1, before, m =>
    let (records, m') := m.stepLogged
    let before := records.reverse ++ before
    match m'.status with
    | .running => m'.runLogged? fuel before
    | _ => some (before.reverse, m')

end Machine

end Gosub
