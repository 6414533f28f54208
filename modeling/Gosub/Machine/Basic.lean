import Gosub.Machine.Memory
import Gosub.Machine.ReturnStack
import Gosub.Machine.Stack

/-!
# Machines

The state of one execution: the code with its destinations, the program counter, the data stack,
the return stack, the memory, the budget, what was executed so far, and how it ended, if it did.
-/

namespace Gosub

/-- How an execution ended normally. -/
inductive Halt where
  /-- Without output, or past the end of the code. -/
  | stop
  | ret (output : List UInt8)
  | revert (output : List UInt8)
  deriving DecidableEq

def Halt.output : Halt → List UInt8
  | stop => []
  | ret output => output
  | revert output => output

def Halt.render : Halt → String
  | stop => "stop"
  | ret output => "return (" ++ toString output.length ++ " bytes)"
  | revert output => "revert (" ++ toString output.length ++ " bytes)"

inductive Status where
  | running
  | halted (halt : Halt)
  | faulted (fault : Fault)
  deriving DecidableEq

/-- What an execution that ended normally leaves. -/
structure Outcome where
  halt : Halt
  /-- The data stack, bottom first. -/
  stack : List Word
  steps : Nat
  cost : Nat
  deriving DecidableEq

/-- What a machine is told besides its code. -/
structure Configuration where
  policy : Policy
  memoryLimit : Nat
  deriving DecidableEq

/-- One execution of a code. -/
structure Machine where
  destinations : Destinations
  /-- The address of the next instruction. -/
  pc : Nat
  stack : Stack
  returns : ReturnStack
  memory : Memory
  budget : Budget
  /-- How many instructions ran, not counting one that halts. -/
  steps : Nat
  /-- The total static cost of these instructions. -/
  cost : Nat
  status : Status

namespace Machine

/-- A machine that has not begun, with an empty stack and no limit on what it executes. -/
def start (code : Code) (config : Configuration) : Machine where
  destinations := code.destinations config.policy
  pc := 0
  stack := .empty Stack.machineLimit
  returns := .start code.size
  memory := .empty config.memoryLimit
  budget := .unlimited
  steps := 0
  cost := 0
  status := .running

def code (m : Machine) : Code := m.destinations.code

def policy (m : Machine) : Policy := m.destinations.policy

def withBudget (m : Machine) (budget : Budget) : Machine := { m with budget }

/-- The machine with more words on its stack, the last on top. -/
def withStack (m : Machine) (words : List Word) : Except Trap Machine := do
  return { m with stack := ← m.stack.pushAll words }

/-- The instruction that the next step executes. -/
def next (m : Machine) : Instruction := m.code.fetch m.pc

/-- How the execution ended, if it did normally. -/
def halt? (m : Machine) : Option Halt :=
  match m.status with
  | .halted h => some h
  | _ => none

/-- What aborted the execution, if something did. -/
def fault? (m : Machine) : Option Fault :=
  match m.status with
  | .faulted f => some f
  | _ => none

/-- The result of the execution, once it ended. -/
def result? (m : Machine) : Option (Except Fault Outcome) :=
  match m.status with
  | .running => none
  | .halted h => some (.ok ⟨h, m.stack.toList, m.steps, m.cost⟩)
  | .faulted f => some (.error f)

def render (m : Machine) : String :=
  "Machine \x7b pc: " ++ toString m.pc ++ ", stack: " ++ toString m.stack.size
    ++ ", return_stack: " ++ toString m.returns.depth ++ ", memory: " ++ toString m.memory.size
    ++ " bytes, steps: " ++ toString m.steps ++ " \x7d"

end Machine

end Gosub
