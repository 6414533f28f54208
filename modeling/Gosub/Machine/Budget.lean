import Gosub.Code.Instruction

/-!
# Budgets

A budget is charged for every instruction that does not halt, before it runs. It admits a number of
instructions, or a total of their costs, or everything, or what a rule of its own admits.
-/

namespace Gosub

inductive BudgetExceeded where
  | steps (limit : Nat)
  | cost (limit required : Nat)
  deriving DecidableEq

/-- What may still be executed. -/
inductive Budget where
  | unlimited
  | steps (limit used : Nat)
  | cost (limit used : Nat)
  /-- What a rule admits, which knows the instructions charged so far, the last one first. -/
  | custom (refusal? : List Instruction → Instruction → Option BudgetExceeded)
      (charged : List Instruction)

def BudgetExceeded.message : BudgetExceeded → String
  | steps limit => "step limit of " ++ toString limit ++ " reached"
  | cost limit required =>
    "cost limit of " ++ toString limit ++ " reached, " ++ toString required ++ " more needed"

namespace Budget

def ofSteps (limit : Nat) : Budget := steps limit 0

def ofCost (limit : Nat) : Budget := cost limit 0

/-- What is left, if there is a limit to tell it by. -/
def remaining? : Budget → Option Nat
  | unlimited => none
  | steps limit used => some (limit - used)
  | cost limit used => some (limit - used)
  | custom _ _ => none

/-- Accounts for an instruction about to run. -/
def charge (i : Instruction) : Budget → Except BudgetExceeded Budget
  | unlimited => .ok unlimited
  | steps limit used => if limit ≤ used then .error (.steps limit) else .ok (steps limit (used + 1))
  | cost limit used =>
    if limit - used < i.cost then .error (.cost limit (i.cost - (limit - used)))
    else .ok (cost limit (used + i.cost))
  | custom refusal? charged => match refusal? charged i with
    | some e => .error e
    | none => .ok (custom refusal? (i :: charged))

end Budget

end Gosub
