import Gosub.Code.Destinations
import Gosub.Machine.Budget

/-!
# Traps and faults

A trap aborts an execution for good. A fault is a trap with the address of the instruction that
raised it.
-/

namespace Gosub

inductive MemoryError where
  /-- The offset or the length is no address, or their sum is none. -/
  | invalidOffset (word : Word)
  | limitExceeded (stop limit : Nat)
  deriving DecidableEq

def MemoryError.message : MemoryError → String
  | invalidOffset word => "invalid offset " ++ word.render
  | limitExceeded stop limit =>
    "access to " ++ toString stop ++ " bytes exceeds the limit of " ++ toString limit ++ " bytes"

inductive Trap where
  | stackUnderflow
  | stackOverflow
  | returnStackOverflow
  | invalidDestination (kind : DestinationKind) (target : Word)
  | invalidInstruction (byte : UInt8)
  | invalidMemoryAccess (cause : MemoryError)
  | budgetExceeded (cause : BudgetExceeded)
  deriving DecidableEq

namespace Trap

def message : Trap → String
  | stackUnderflow => "stack underflow"
  | stackOverflow => "stack overflow"
  | returnStackOverflow => "return stack overflow"
  | invalidDestination kind target => "invalid " ++ kind.name ++ " destination " ++ target.render
  | invalidInstruction b => "invalid instruction 0x" ++ Numeral.hexPadded 2 b.toNat
  | invalidMemoryAccess e => "invalid memory access (" ++ e.message ++ ")"
  | budgetExceeded e => "budget exceeded (" ++ e.message ++ ")"

/-- The message of the refusal behind a trap, if there is one. -/
def cause? : Trap → Option String
  | invalidMemoryAccess e => some e.message
  | budgetExceeded e => some e.message
  | _ => none

/-- Whether a trap is the refusal of a budget. -/
def isRefusal : Trap → Bool
  | budgetExceeded _ => true
  | _ => false

end Trap

/-- A trap and the address of the instruction that raised it. -/
structure Fault where
  pc : Nat
  trap : Trap
  deriving DecidableEq

def Fault.message (f : Fault) : String := f.trap.message ++ " at offset " ++ toString f.pc

/-- The messages of what lies behind a fault, outermost first. -/
def Fault.causes (f : Fault) : List String := f.trap.message :: f.trap.cause?.toList

end Gosub
