import Gosub.Proofs.Ledger

/-!
# Termination

No loop runs for free: every instruction that completes uses up some of a limit on steps or on cost (`step_consumes`),
and the step that finds nothing left ends the run. So a run under a limit takes at most one step more than the limit
(`limited_run_ends`).
-/

namespace Gosub.Termination

open Machine
open Gosub.Steps Gosub.Budgets Gosub.Ledger

variable {m n : Machine} {meter : Meter} {limit used : Nat}

theorem exists_result (ended : m.status ≠ .running) : ∃ result, m.result? = some result := by
  unfold result?
  cases status : m.status with
  | running => exact absurd status ended
  | halted h => exact ⟨_, rfl⟩
  | faulted fault => exact ⟨_, rfl⟩

/-- Steps that lead to a running machine complete an instruction each. -/
theorem length_instructionsOf {k : Nat} (running : (m.advance k).status = .running) :
    (instructionsOf k m).length = k := by
  induction k generalizing m with
  | zero => rfl
  | succ k ih =>
    rw [advance_succ] at running
    have alive : m.step.status = .running := by
      by_cases first : m.step.status = .running
      · exact first
      · rw [advance_ended k first] at running
        exact running
    have rest := ih running
    simp only [instructionsOf, completed, completes, alive, if_true, List.map_append, List.length_append] at rest ⊢
    rw [rest]
    exact Nat.add_comm 1 k

/-- A step that leads on uses up some of what was left. -/
theorem step_consumes (spent : n.budget = meter.budget limit used) (within : used ≤ limit)
    (goesOn : n.step.status = .running) :
    ∃ left, n.step.budget.remaining? = some left ∧ left < limit - used := by
  have running := running_of_step goesOn
  cases step_spends running with
  | refused e aborted =>
    rw [aborted] at goesOn
    cases goesOn
  | traps _ _ _ _ _ status _ | halts _ _ _ _ status =>
    rw [status] at goesOn
    cases goesOn
  | completes noHalt dear paid _ _ _ =>
    obtain ⟨budget, fits⟩ := chargeFor_eq_ok running spent within paid
    have charge : meter.total (attempts n) = meter.charge n.next := by simp [attempts, running, noHalt, Meter.total]
    have some_unit := charge_pos meter dear
    refine ⟨_, by rw [budget, remaining_budget], ?_⟩
    omega

/-- After as many steps as the limit allows and one more the machine has ended: each of them would have completed an
instruction, and each of these is charged at least one unit. -/
theorem ended_of_limited (running : m.status = .running) (budget : m.budget = meter.budget limit 0) :
    (m.advance (limit + 1)).status ≠ .running := by
  intro goesOn
  have stands := stands_run running budget (limit + 1)
  have many : limit + 1 ≤ meter.total (instructionsOf (limit + 1) m) := by
    have dear := length_le_total meter stands.dear
    rw [length_instructionsOf goesOn] at dear
    exact dear
  have few := stands.within
  rw [meter.total_append] at few
  omega

/-- Under a limit on steps or on cost every run of a fresh machine ends, with a result, after at most one step more
than the limit, because each instruction that completes leaves less of the budget. -/
theorem limited_run_ends {code : Code} {config : Configuration} {words : List Word}
    (made : fresh code config words (meter.budget limit 0) = .ok m) :
    (∃ n result, m.run? (limit + 1) = some n ∧ n.result? = some result) ∧
      ∀ k, (m.advance (k + 1)).status = .running →
        ∃ before after, (m.advance k).budget.remaining? = some before ∧
          (m.advance (k + 1)).budget.remaining? = some after ∧ after < before := by
  obtain ⟨running, budget⟩ := fresh_running made
  constructor
  · have ended := ended_of_limited running budget
    obtain ⟨result, found⟩ := exists_result ended
    exact ⟨m.advance (limit + 1), result, run?_eq_some.2 ⟨Nat.succ_pos limit, rfl, ended⟩, found⟩
  · intro k goesOn
    have stands := stands_run running budget k
    rw [advance_step] at goesOn ⊢
    obtain ⟨left, remains, less⟩ := step_consumes stands.budget stands.within goesOn
    exact ⟨_, left, by rw [stands.budget, remaining_budget], remains, less⟩

/-- A program that jumps back to its start for ever. -/
def spin : Code := .ofList [0x5b, 0x60, 0x00, 0x56]

/-- With a limit of 30 on its cost, `spin` goes round twice and is refused its third jump, although 31 steps were
allowed for. -/
theorem spin_ends :
    ∃ m n, fresh spin ⟨.shared, 0⟩ [] (Meter.cost.budget 30 0) = .ok m ∧ m.run? (30 + 1) = some n ∧
      n.result? = some (.error ⟨3, .budgetExceeded (.cost 30 6)⟩) ∧ n.steps = 8 := by
  have made : fresh spin ⟨.shared, 0⟩ [] (Meter.cost.budget 30 0) =
      .ok ((start spin ⟨.shared, 0⟩).withBudget (.ofCost 30)) := rfl
  obtain ⟨⟨n, result, ran, found⟩, -⟩ := limited_run_ends made
  obtain ⟨-, arrives, -⟩ := run?_eq_some.1 ran
  refine ⟨_, n, made, ran, ?_, ?_⟩
  · rw [← arrives]
    decide +kernel
  · rw [← arrives]
    decide +kernel

end Gosub.Termination
