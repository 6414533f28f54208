import Gosub.Machine.Basic

/-!
# Steps

A step charges the budget, executes one instruction and moves on. An instruction that traps keeps
what it took from the stack, and the machine stays where it is. Once a machine has ended, steps
leave it alone.
-/

namespace Gosub

/-- Where the execution goes after an instruction. -/
inductive Flow where
  | next
  | jump (target : Nat)
  | halt (halt : Halt)
  deriving DecidableEq

/-- An effect on a machine, which may trap; what it did before it trapped stays done. -/
abbrev Effect := EStateM Trap Machine

namespace Machine

def takeWord : Effect Word := fun m =>
  match m.stack.pop with
  | .ok (w, stack) => .ok w { m with stack }
  | .error e => .error e m

/-- Changes the stack, unless that is refused. -/
def changeStack (f : Stack → Except Trap Stack) : Effect Unit := fun m =>
  match f m.stack with
  | .ok stack => .ok () { m with stack }
  | .error e => .error e m

def putWord (w : Word) : Effect Unit := changeStack (·.push w)

/-- Uses the memory, unless that is refused. -/
def access (f : Memory → Except MemoryError (α × Memory)) : Effect α := fun m =>
  match f m.memory with
  | .ok (a, memory) => .ok a { m with memory }
  | .error e => .error (.invalidMemoryAccess e) m

def changeMemory (f : Memory → Except MemoryError Memory) : Effect Unit :=
  access fun memory => (f memory).map ((), ·)

/-- The address of a destination. -/
def resolve (kind : DestinationKind) (target : Word) : Effect Nat := fun m =>
  match m.destinations.resolve? kind target with
  | some address => .ok address m
  | none => .error (.invalidDestination kind target) m

/-- Saves the address of this instruction for the return. -/
def saveCall : Effect Unit := fun m =>
  match m.returns.push m.pc with
  | .ok returns => .ok () { m with returns }
  | .error e => .error e m

/-- Takes the address of the last call. -/
def takeCall : Effect Nat := fun m =>
  let (callSite, returns) := m.returns.pop
  .ok callSite { m with returns }

/-- Replaces the two top words by a word computed from them, the top being the first. -/
def binary (f : Word → Word → Word) : Effect Flow := do
  let a ← takeWord
  let b ← takeWord
  putWord (f a b)
  return .next

end Machine

open Machine in
def Operation.execute : Operation → Effect Flow
  | .stop => return .halt .stop
  | .add => binary (· + ·)
  | .sub => binary (· - ·)
  | .lt => binary fun a b => .ofBool (a < b)
  | .gt => binary fun a b => .ofBool (b < a)
  | .eq => binary fun a b => .ofBool (a = b)
  | .isZero => do
    putWord (.ofBool ((← takeWord) = 0))
    return .next
  | .pop => do
    discard takeWord
    return .next
  | .mload => do
    let offset ← takeWord
    putWord (← access (·.load offset))
    return .next
  | .mstore => do
    let offset ← takeWord
    let value ← takeWord
    changeMemory (·.store offset value)
    return .next
  | .mstore8 => do
    let offset ← takeWord
    let value ← takeWord
    changeMemory (·.store8 offset value)
    return .next
  | .jump => do
    let target ← takeWord
    return .jump (← resolve .jump target)
  | .jumpi => do
    let target ← takeWord
    let condition ← takeWord
    if condition = 0 then return .next
    else return .jump (← resolve .jump target)
  | .pc => do
    putWord (.ofNat (← get).pc)
    return .next
  | .msize => do
    putWord (.ofNat (← get).memory.size)
    return .next
  | .jumpdest => return .next
  | .jumpsub => do
    let target ← takeWord
    let entry ← resolve .subroutine target
    saveCall
    return .jump entry
  | .beginsub => do
    match (← get).policy with
    | .shared => throw (.invalidInstruction Operation.beginsub.byte)
    | .distinct => return .next
  | .returnsub => return .jump ((← takeCall) + 1)
  | .ret => do
    let offset ← takeWord
    let length ← takeWord
    return .halt (.ret (← access (·.read offset length)))
  | .revert => do
    let offset ← takeWord
    let length ← takeWord
    return .halt (.revert (← access (·.read offset length)))

open Machine in
def Instruction.execute : Instruction → Effect Flow
  | .op o => o.execute
  | .push _ value => do
    putWord value
    return .next
  | .dup n => do
    changeStack (·.dup n)
    return .next
  | .swap n => do
    changeStack (·.swap n)
    return .next
  | .invalid b => throw (.invalidInstruction b)

namespace Machine

/-- The machine aborted at its present instruction. -/
def abort (m : Machine) (trap : Trap) : Machine := { m with status := .faulted ⟨m.pc, trap⟩ }

/-- The machine after an instruction that does not halt, which leads to an address. -/
def moveOn (m : Machine) (i : Instruction) (target : Nat) : Machine :=
  { m with pc := target, steps := m.steps + 1, cost := m.cost + i.cost }

/-- The budget once an instruction is allowed. Halting is always allowed and costs nothing. -/
def chargeFor (m : Machine) (i : Instruction) : Except BudgetExceeded Budget :=
  if i.isHalting then .ok m.budget else m.budget.charge i

/-- What becomes of an instruction once the budget allows it. -/
abbrev Execution := EStateM.Result Trap Machine Flow

/-- Executes the next instruction, if the budget allows it. -/
def attempt (m : Machine) : Except BudgetExceeded Execution :=
  (m.chargeFor m.next).map fun budget => m.next.execute (m.withBudget budget)

/-- The machine after its next instruction was tried. -/
def settle (m : Machine) : Except BudgetExceeded Execution → Machine
  | .error e => m.abort (.budgetExceeded e)
  | .ok (.error trap m') => m'.abort trap
  | .ok (.ok .next m') => m'.moveOn m.next (m.pc + m.next.size)
  | .ok (.ok (.jump target) m') => m'.moveOn m.next target
  | .ok (.ok (.halt h) m') => { m' with status := .halted h }

/-- One step. A machine that has ended stays as it is. -/
def step (m : Machine) : Machine :=
  match m.status with
  | .running => m.settle m.attempt
  | _ => m

/-- So many steps, none of them after the end. -/
def advance : Nat → Machine → Machine
  | 0, m => m
  | n + 1, m => match m.step.status with
    | .running => m.step.advance n
    | _ => m.step

/-- The machine after each of so many steps, up to the one that ends it. -/
def trace : Nat → Machine → List Machine
  | 0, _ => []
  | n + 1, m => m.step :: match m.step.status with
    | .running => m.step.trace n
    | _ => []

/-- Runs to the end, if the fuel lasts: a step burns one unit. -/
def run? : Nat → Machine → Option Machine
  | 0, _ => none
  | fuel + 1, m => match m.step.status with
    | .running => m.step.run? fuel
    | _ => some m.step

end Machine

end Gosub
