import Gosub.Proofs.Budgets
import Gosub.Proofs.Faults

/-!
# The ledger of a run

Two ledgers are kept of a run: the budget is charged before an instruction runs, the counters are moved on after it.
They differ by what was charged for and did not complete, which is one instruction at most, and only after a fault
(`counters_balance`). An instruction that completes has a cost (`cost_pos_of_completed`), so that counting steps and
counting costs come to much the same.
-/

namespace Gosub.Ledger

open Machine
open Gosub.Effects Gosub.Steps Gosub.Budgets Gosub.Faults

variable {m n : Machine} {i : Instruction} {meter : Meter} {limit used : Nat} {executed : List Instruction}

/-! ## Costs -/

theorem cost_le (i : Instruction) : i.cost ≤ 10 := by
  cases i with
  | op o => cases o <;> simp [Instruction.cost, Operation.cost]
  | _ => simp [Instruction.cost]

/-- Only what halts and what is invalid is free. -/
theorem cost_pos (goesOn : i.isHalting = false) (valid : ∀ b, i ≠ .invalid b) : 0 < i.cost := by
  cases i with
  | op o => cases o <;> simp_all [Instruction.cost, Operation.cost, Instruction.isHalting, Operation.isHalting]
  | invalid b => exact absurd rfl (valid b)
  | _ => simp [Instruction.cost]

/-- An instruction that completes ends the execution just when it is one of those that halt. -/
theorem halting_of_completed {flow : Flow} (ran : i.execute m = .ok flow n) :
    i.isHalting = true ↔ ∃ h, flow = .halt h := by
  by_cases call : i = .op .jumpsub
  · have called := ends_call m m (.refl m)
    rw [← call, ran] at called
    obtain ⟨target, returns, rfl, -⟩ := called
    simp [call, Instruction.isHalting, Operation.isHalting]
  by_cases back : i = .op .returnsub
  · rw [back] at ran
    cases ran
    simp [back, Instruction.isHalting, Operation.isHalting]
  · have ended := keeps_execute i call back m (.refl m)
    rw [ran] at ended
    cases ended.1 with
    | next goesOn => simp [goesOn]
    | jump goesOn _ => simp [goesOn]
    | halt h halting => simp [halting]

/-- What is invalid never completes, so whatever completes and goes on has a cost. -/
theorem cost_pos_of_completed {flow : Flow} (ran : i.execute m = .ok flow n) (goesOn : i.isHalting = false) :
    0 < i.cost := by
  refine cost_pos goesOn fun b invalid => ?_
  rw [invalid] at ran
  cases ran

/-! ## What a step spends -/

/-- What a step of a running machine does to its budget and its counters. -/
inductive Spends (m n : Machine) : Prop
  | refused (e : BudgetExceeded) : n = m.abort (.budgetExceeded e) → Spends m n
  /-- The instruction was charged for and aborts the execution. -/
  | traps (trap : Trap) : trap.isRefusal = false → m.chargeFor m.next = .ok n.budget → n.steps = m.steps →
      n.cost = m.cost → n.status = .faulted ⟨m.pc, trap⟩ → n.code = m.code → Spends m n
  | halts (h : Halt) : n.budget = m.budget → n.steps = m.steps → n.cost = m.cost → n.status = .halted h → Spends m n
  | completes : m.next.isHalting = false → 0 < m.next.cost → m.chargeFor m.next = .ok n.budget →
      n.steps = m.steps + 1 → n.cost = m.cost + m.next.cost → n.status = .running → Spends m n

theorem step_spends (running : m.status = .running) : Spends m m.step := by
  cases charged : m.chargeFor m.next with
  | error e => exact .refused e (step_refused running charged)
  | ok budget =>
    rw [step_charged running charged]
    cases ran : m.next.execute (m.withBudget budget) with
    | error trap n =>
      obtain ⟨noRefusal, same⟩ := execute_trapped ran
      have faulted : (m.settle (.ok (.error trap n))).status = .faulted ⟨m.pc, trap⟩ :=
        congrArg (fun pc => Status.faulted ⟨pc, trap⟩) same.pc
      have paid : m.chargeFor m.next = .ok n.budget := charged.trans (congrArg Except.ok same.budget.symm)
      exact .traps trap noRefusal paid same.steps same.cost faulted (congrArg Destinations.code same.destinations)
    | ok flow n =>
      have same := execute_completed ran
      have paid : m.chargeFor m.next = .ok n.budget := charged.trans (congrArg Except.ok same.budget.symm)
      cases halting : m.next.isHalting with
      | true =>
        obtain ⟨h, rfl⟩ := (halting_of_completed ran).1 halting
        rw [chargeFor, halting] at paid
        exact .halts h (Except.ok.inj paid).symm same.steps same.cost rfl
      | false =>
        have goesOn : ¬ ∃ h, flow = .halt h := fun ends => by
          rw [(halting_of_completed ran).2 ends] at halting
          cases halting
        have dear := cost_pos_of_completed ran halting
        have counted := congrArg (· + 1) same.steps
        have added := congrArg (· + m.next.cost) same.cost
        have status : n.status = .running := same.status.trans running
        cases flow with
        | halt h => exact absurd ⟨h, rfl⟩ goesOn
        | next => exact .completes halting dear paid counted added status
        | jump target => exact .completes halting dear paid counted added status

/-! ## Meters -/

/-- What a machine counted so far of what a meter counts. -/
def counted : Meter → Machine → Nat
  | .steps, m => m.steps
  | .cost, m => m.cost

theorem total_steps (executed : List Instruction) : Meter.steps.total executed = executed.length := by
  induction executed with
  | nil => rfl
  | cons i rest ih => simp [Meter.total, Meter.charge, ih, Nat.add_comm]

theorem total_cost_le (executed : List Instruction) : Meter.cost.total executed ≤ 10 * executed.length := by
  induction executed with
  | nil => rfl
  | cons i rest ih =>
    have := cost_le i
    simp only [Meter.total, Meter.charge, List.length_cons]
    omega

/-- What has a cost uses up at least one unit of either budget. -/
theorem charge_pos (meter : Meter) (dear : 0 < i.cost) : 0 < meter.charge i := by
  cases meter with
  | steps => exact Nat.one_pos
  | cost => exact dear

theorem length_le_total (meter : Meter) (dear : ∀ i ∈ executed, 0 < i.cost) :
    executed.length ≤ meter.total executed := by
  induction executed with
  | nil => exact Nat.zero_le _
  | cons i rest ih =>
    have first := charge_pos meter (dear i List.mem_cons_self)
    have others := ih fun j later => dear j (List.mem_cons_of_mem i later)
    simp only [Meter.total, List.length_cons]
    omega

/-- A budget that allows an instruction uses up its charge and stays within its limit. -/
theorem charge_eq_ok {budget : Budget} (within : used ≤ limit)
    (allowed : (meter.budget limit used).charge i = .ok budget) :
    budget = meter.budget limit (used + meter.charge i) ∧ used + meter.charge i ≤ limit := by
  by_cases fits : used + meter.charge i ≤ limit
  · rw [meter.charge_within fits] at allowed
    cases allowed
    exact ⟨rfl, fits⟩
  · rw [meter.charge_exceeding within (Nat.lt_of_not_le fits)] at allowed
    cases allowed

theorem remaining_budget (meter : Meter) (limit used : Nat) :
    (meter.budget limit used).remaining? = some (limit - used) := by
  cases meter <;> rfl

/-! ## The ledger along a run -/

/-- The instruction that was charged for and did not complete, if there is one: it raised the fault that ended
the execution, and is not one of those that halt, which are free. -/
def spoiled (m : Machine) : List Instruction :=
  match m.status with
  | .faulted fault =>
    if fault.trap.isRefusal || (m.code.fetch fault.pc).isHalting then [] else [m.code.fetch fault.pc]
  | _ => []

theorem spoiled_of_running (running : m.status = .running) : spoiled m = [] := by
  rw [spoiled, running]

/-- How the accounts of `n` stand when these instructions were completed since `m`, which had a fresh budget. -/
structure Stands (meter : Meter) (limit : Nat) (m : Machine) (executed : List Instruction) (n : Machine) : Prop where
  steps : n.steps = m.steps + executed.length
  cost : n.cost = m.cost + Meter.cost.total executed
  dear : ∀ i ∈ executed, 0 < i.cost
  budget : n.budget = meter.budget limit (meter.total (executed ++ spoiled n))
  within : meter.total (executed ++ spoiled n) ≤ limit

theorem stands_fresh (running : m.status = .running) (budget : m.budget = meter.budget limit 0) :
    Stands meter limit m [] m := by
  have nothing : spoiled m = [] := spoiled_of_running running
  refine ⟨rfl, rfl, fun i member => absurd member List.not_mem_nil, ?_, ?_⟩
  · rw [nothing, budget]
    rfl
  · rw [nothing]
    exact Nat.zero_le limit

/-- A charge that the budget of a running machine allows is that of the instruction it attempts. -/
theorem chargeFor_eq_ok {budget : Budget} (running : n.status = .running) (spent : n.budget = meter.budget limit used)
    (within : used ≤ limit) (allowed : n.chargeFor n.next = .ok budget) :
    budget = meter.budget limit (used + meter.total (attempts n)) ∧ used + meter.total (attempts n) ≤ limit := by
  unfold chargeFor at allowed
  cases halting : n.next.isHalting with
  | true =>
    have nothing : attempts n = [] := by simp [attempts, halting]
    simp only [halting, if_true, Except.ok.injEq] at allowed
    rw [nothing, ← allowed]
    exact ⟨spent, within⟩
  | false =>
    have one : attempts n = [n.next] := by simp [attempts, halting, running]
    simp only [halting, Bool.false_eq_true, if_false, spent] at allowed
    rw [one]
    exact charge_eq_ok within allowed

/-- A step keeps the accounts: what it completes is added to what was completed before. -/
theorem stands_step (stands : Stands meter limit m executed n) :
    Stands meter limit m (executed ++ (completes n).map Prod.snd) n.step := by
  by_cases running : n.status = .running
  · obtain ⟨steps, cost, dear, budget, within⟩ := stands
    have nothing : spoiled n = [] := spoiled_of_running running
    rw [nothing, List.append_nil] at budget within
    cases step_spends running with
    | refused e aborted =>
      have none : completes n = [] := by simp [completes, aborted, Machine.abort]
      have free : spoiled n.step = [] := by simp [spoiled, aborted, Machine.abort, Trap.isRefusal]
      rw [none, List.map_nil, List.append_nil]
      refine ⟨?_, ?_, dear, ?_, ?_⟩
      · rw [aborted]
        exact steps
      · rw [aborted]
        exact cost
      · rw [free, List.append_nil, aborted]
        exact budget
      · rw [free, List.append_nil]
        exact within
    | traps trap noRefusal paid sameSteps sameCost status code =>
      have none : completes n = [] := by simp [completes, status]
      have lost : spoiled n.step = attempts n := by
        have raised : n.step.code.fetch n.pc = n.next := by rw [code]; rfl
        cases halting : n.next.isHalting <;> simp [spoiled, attempts, status, noRefusal, raised, halting, running]
      obtain ⟨spent, fits⟩ := chargeFor_eq_ok running budget within paid
      rw [none, List.map_nil, List.append_nil]
      refine ⟨sameSteps.trans steps, sameCost.trans cost, dear, ?_, ?_⟩
      · rw [lost, meter.total_append]
        exact spent
      · rw [lost, meter.total_append]
        exact fits
    | halts h sameBudget sameSteps sameCost status =>
      have none : completes n = [] := by simp [completes, status]
      have free : spoiled n.step = [] := by simp [spoiled, status]
      rw [none, List.map_nil, List.append_nil]
      refine ⟨sameSteps.trans steps, sameCost.trans cost, dear, ?_, ?_⟩
      · rw [free, List.append_nil]
        exact sameBudget.trans budget
      · rw [free, List.append_nil]
        exact within
    | completes goesOn positive paid counts adds status =>
      have one : (completes n).map Prod.snd = [n.next] := by simp [completes, status]
      have free : spoiled n.step = [] := spoiled_of_running status
      have attempted : attempts n = [n.next] := by simp [attempts, running, goesOn]
      obtain ⟨spent, fits⟩ := chargeFor_eq_ok running budget within paid
      rw [attempted, ← meter.total_append] at spent fits
      rw [one]
      refine ⟨?_, ?_, ?_, ?_, ?_⟩
      · rw [counts, steps, List.length_append, Nat.add_assoc]
        rfl
      · rw [adds, cost, Meter.total_append, Nat.add_assoc]
        rfl
      · intro i member
        rcases List.mem_append.1 member with before | last
        · exact dear i before
        · rw [List.mem_singleton.1 last]
          exact positive
      · rw [free, List.append_nil]
        exact spent
      · rw [free, List.append_nil]
        exact fits
  · have none : completes n = [] := by simp [completes, mt running_of_step running]
    rw [step_ended running, none, List.map_nil, List.append_nil]
    exact stands

/-- The instructions that so many steps complete, without their addresses. -/
def instructionsOf (k : Nat) (m : Machine) : List Instruction := (completed k m).map Prod.snd

theorem stands_advance (stands : Stands meter limit m executed n) (k : Nat) :
    Stands meter limit m (executed ++ instructionsOf k n) (n.advance k) := by
  induction k generalizing executed n with
  | zero =>
    rw [instructionsOf, completed, List.map_nil, List.append_nil]
    exact stands
  | succ k ih =>
    rw [advance_succ, instructionsOf, completed, List.map_append, ← List.append_assoc]
    exact ih (stands_step stands)

theorem stands_run (running : m.status = .running) (budget : m.budget = meter.budget limit 0) (k : Nat) :
    Stands meter limit m (instructionsOf k m) (m.advance k) :=
  stands_advance (stands_fresh running budget) k

/-- A fresh machine is running and has the budget it was given. -/
theorem fresh_running {code : Code} {config : Configuration} {words : List Word} {budget : Budget}
    (made : fresh code config words budget = .ok m) : m.status = .running ∧ m.budget = budget :=
  ⟨(fresh_sameControl made).status, (fresh_sameControl made).budget⟩

/-! ## Balance -/

theorem Stands.total_eq_counted (stands : Stands meter limit m executed n) (meter' : Meter)
    (fresh : counted meter' m = 0) : meter'.total executed = counted meter' n := by
  cases meter' with
  | steps =>
    have none : m.steps = 0 := fresh
    rw [total_steps]
    simp [counted, stands.steps, none]
  | cost =>
    have none : m.cost = 0 := fresh
    simp [counted, stands.cost, none]

/-- How the counters and the budget of a machine stand when these instructions were completed under a limit. -/
structure Balanced (meter : Meter) (limit : Nat) (executed : List Instruction) (n : Machine) : Prop where
  steps : n.steps = executed.length
  cost : n.cost = Meter.cost.total executed
  least : n.steps ≤ n.cost
  most : n.cost ≤ 10 * n.steps
  /-- What is used never exceeds the limit that it is taken from. -/
  used : ∃ used, used ≤ limit ∧ n.budget = meter.budget limit used
  within : counted meter n ≤ limit
  /-- What is left and what was counted make up the limit, except after a fault that an instruction raised
  which is not free. -/
  remaining : (∀ fault, n.status = .faulted fault →
      fault.trap.isRefusal = true ∨ (n.code.fetch fault.pc).isHalting = true) →
    ∃ left, n.budget.remaining? = some left ∧ left + counted meter n = limit
  /-- There it is less by the charge for that instruction. -/
  spoiled : ∀ fault, n.status = .faulted fault → fault.trap.isRefusal = false →
    (n.code.fetch fault.pc).isHalting = false →
    ∃ left, n.budget.remaining? = some left ∧
      left + counted meter n + meter.charge (n.code.fetch fault.pc) = limit

/-- The budget and the counters of a fresh machine with a limit on steps or on cost stay in step, whatever the code,
the configuration and the initial stack, after any number of steps. -/
theorem counters_balance {code : Code} {config : Configuration} {words : List Word}
    (made : fresh code config words (meter.budget limit 0) = .ok m) (k : Nat) :
    Balanced meter limit (instructionsOf k m) (m.advance k) := by
  obtain ⟨running, budget⟩ := fresh_running made
  have none : ∀ meter', counted meter' m = 0 := by
    intro meter'
    cases meter' with
    | steps => exact (fresh_sameControl made).steps
    | cost => exact (fresh_sameControl made).cost
  have stands := stands_run running budget k
  generalize instructionsOf k m = executed at stands
  generalize m.advance k = n at stands
  have steps : executed.length = n.steps := by
    rw [← total_steps]
    exact stands.total_eq_counted .steps (none .steps)
  have cost : Meter.cost.total executed = n.cost := stands.total_eq_counted .cost (none .cost)
  have total : meter.total executed = counted meter n := stands.total_eq_counted meter (none meter)
  have spent := stands.budget
  have within := stands.within
  rw [meter.total_append, total] at spent within
  have left : n.budget.remaining? = some (limit - (counted meter n + meter.total (spoiled n))) := by
    rw [spent, remaining_budget]
  refine ⟨steps.symm, cost.symm, ?_, ?_, ⟨_, within, spent⟩, Nat.le_of_add_right_le within, ?_, ?_⟩
  · rw [← steps, ← cost]
    exact length_le_total .cost stands.dear
  · rw [← steps, ← cost]
    exact total_cost_le executed
  · intro excused
    have nothing : spoiled n = [] := by
      unfold spoiled
      split
      · next fault faulted => rcases excused fault faulted with refusal | halting <;> simp_all
      · rfl
    rw [nothing] at left within
    refine ⟨_, left, ?_⟩
    simp only [Meter.total] at within ⊢
    omega
  · intro fault faulted noRefusal goesOn
    have one : spoiled n = [n.code.fetch fault.pc] := by simp [spoiled, faulted, noRefusal, goesOn]
    rw [one] at left within
    refine ⟨_, left, ?_⟩
    simp only [Meter.total] at within ⊢
    omega

/-- The store that has no room is charged for, and counted neither as a step nor by its cost. -/
theorem storeFar_balance :
    ∃ m, fresh storeFar ⟨.shared, 64⟩ [] (Meter.cost.budget 20 0) = .ok m ∧
      (m.advance 4).fault? = some ⟨6, .invalidMemoryAccess (.limitExceeded 96 64)⟩ ∧
      (m.advance 4).steps = 3 ∧ (m.advance 4).cost = 9 ∧ (m.advance 4).budget.remaining? = some 8 ∧
      Balanced .cost 20 (instructionsOf 4 m) (m.advance 4) := by
  have made : fresh storeFar ⟨.shared, 64⟩ [] (Meter.cost.budget 20 0) =
      .ok ((start storeFar ⟨.shared, 64⟩).withBudget (.ofCost 20)) := rfl
  refine ⟨_, made, ?_, ?_, ?_, ?_, counters_balance made 4⟩
  · decide +kernel
  · decide +kernel
  · decide +kernel
  · decide +kernel

end Gosub.Ledger
