import Gosub.Proofs.Steps

/-!
# Budgets

A limit on steps or on cost changes nothing until the first instruction that it refuses. A machine
without a limit tells which one that is: the first with which the demand of the instructions it
attempted exceeds the limit (`budget_transparent`).
-/

namespace Gosub.Budgets

open Machine
open Gosub.Effects Gosub.Steps

variable {m : Machine} {limit : Nat}

/-! ## Meters -/

/-- What a limit counts. -/
inductive Meter where
  | steps
  | cost
  deriving DecidableEq

namespace Meter

/-- What one instruction counts for. -/
def charge : Meter → Instruction → Nat
  | steps, _ => 1
  | cost, i => i.cost

def total (meter : Meter) : List Instruction → Nat
  | [] => 0
  | i :: rest => meter.charge i + meter.total rest

theorem total_append (meter : Meter) (first second : List Instruction) :
    meter.total (first ++ second) = meter.total first + meter.total second := by
  induction first with
  | nil => simp [total]
  | cons i rest ih => simp [total, ih, Nat.add_assoc]

/-- The budget with this limit, of which so much is used. -/
def budget : Meter → (limit used : Nat) → Budget
  | steps, limit, used => .steps limit used
  | cost, limit, used => .cost limit used

/-- The refusal of what exceeds the limit by so much. -/
def refusal : Meter → (limit excess : Nat) → BudgetExceeded
  | steps, limit, _ => .steps limit
  | cost, limit, excess => .cost limit excess

/-- A budget allows what stays within its limit. -/
theorem charge_within (meter : Meter) {used : Nat} {i : Instruction} (within : used + meter.charge i ≤ limit) :
    (meter.budget limit used).charge i = .ok (meter.budget limit (used + meter.charge i)) := by
  cases meter with
  | steps =>
    have room : ¬ limit ≤ used := Nat.not_le.2 within
    exact if_neg room
  | cost =>
    have room : ¬ limit - used < i.cost := Nat.not_lt.2 (Nat.le_sub_of_add_le' within)
    exact if_neg room

/-- It refuses what exceeds it, and says by how much. -/
theorem charge_exceeding (meter : Meter) {used : Nat} {i : Instruction} (within : used ≤ limit)
    (exceeds : limit < used + meter.charge i) :
    (meter.budget limit used).charge i = .error (meter.refusal limit (used + meter.charge i - limit)) := by
  cases meter with
  | steps => exact if_pos (Nat.lt_succ_iff.1 exceeds)
  | cost =>
    have short : limit - used < i.cost := Nat.sub_lt_left_of_lt_add within exceeds
    have excess : i.cost - (limit - used) = used + i.cost - limit := by omega
    rw [budget, Budget.charge, if_pos short, excess]
    rfl

end Meter

/-! ## One step under another budget -/

theorem unseen_withBudget (budget : Budget) : Unseen (·.withBudget budget) :=
  ⟨fun _ => rfl, fun _ => rfl, fun _ => rfl, fun _ _ => rfl, fun _ _ => rfl, fun _ _ => rfl⟩

/-- No instruction sees the budget. -/
theorem commutes_withBudget (budget : Budget) (i : Instruction) : Commutes (·.withBudget budget) i.execute := by
  have unseen := unseen_withBudget budget
  by_cases call : i = .op .jumpsub
  · subst call
    exact commutes_call unseen (fun _ _ => rfl) (commutes_saveCall (fun _ => rfl) (fun _ => rfl) fun _ _ => rfl)
  by_cases back : i = .op .returnsub
  · subst back
    exact fun m => rfl
  by_cases entry : i = .op .beginsub
  · subst entry
    exact commutes_entry fun _ => rfl
  · exact commutes_execute unseen i call back entry

theorem chargeFor_unlimited (unlimited : m.budget = .unlimited) (i : Instruction) :
    m.chargeFor i = .ok .unlimited := by
  unfold chargeFor
  rw [unlimited]
  split <;> rfl

theorem withBudget_unlimited (unlimited : m.budget = .unlimited) : m.withBudget .unlimited = m := by
  rw [← unlimited]
  rfl

/-- A step that the budget allows does what it does without a limit, but for the budget. -/
theorem step_withBudget {budget left : Budget} (running : m.status = .running)
    (charged : (m.withBudget budget).chargeFor m.next = .ok left) :
    (m.withBudget budget).step = (m.withBudget .unlimited).step.withBudget left := by
  have free : (m.withBudget .unlimited).chargeFor m.next = .ok .unlimited := chargeFor_unlimited rfl _
  have commutes : m.next.execute (m.withBudget left) = mapState _ (m.next.execute (m.withBudget .unlimited)) :=
    commutes_withBudget left m.next (m.withBudget .unlimited)
  rw [step_charged (m := m.withBudget budget) running charged, step_charged (m := m.withBudget .unlimited) running free]
  show (m.withBudget budget).settle (.ok (m.next.execute (m.withBudget left))) =
    ((m.withBudget .unlimited).settle (.ok (m.next.execute (m.withBudget .unlimited)))).withBudget left
  rw [commutes]
  cases m.next.execute (m.withBudget .unlimited) with
  | error trap n => rfl
  | ok flow n => cases flow <;> rfl

/-- Without a limit no step is refused. -/
theorem step_unrefused (running : m.status = .running) (unlimited : m.budget = .unlimited) (pc : Nat)
    (e : BudgetExceeded) : m.step.status ≠ .faulted ⟨pc, .budgetExceeded e⟩ := by
  intro faulted
  cases (step_moves running).2 with
  | refused _ refused _ _ _ =>
    rw [chargeFor_unlimited unlimited] at refused
    cases refused
  | traps trap noRefusal status _ _ =>
    rw [status] at faulted
    cases faulted
    cases noRefusal
  | halts _ _ status _ _ | passes _ _ status _ _ | jumps _ _ status _ _ | calls _ status _ _
  | comesBack _ status _ _ =>
    rw [status] at faulted
    cases faulted

/-! ## The demand of a run -/

/-- The instruction that a step attempts, unless it halts. -/
def attempts (m : Machine) : List Instruction :=
  if m.status = .running ∧ m.next.isHalting = false then [m.next] else []

/-- The instructions that so many steps attempt, in order, but for those that halt. -/
def attempted : Nat → Machine → List Instruction
  | 0, _ => []
  | k + 1, m => attempted k m ++ attempts (m.advance k)

/-- The machine without a limit. -/
def free (m : Machine) : Machine := m.withBudget .unlimited

namespace Meter

/-- The machine with a fresh budget. -/
def limited (meter : Meter) (limit : Nat) (m : Machine) : Machine := m.withBudget (meter.budget limit 0)

/-- What the machine would use up in so many steps. -/
def demand (meter : Meter) (m : Machine) (k : Nat) : Nat := meter.total (attempted k (free m))

theorem demand_succ (meter : Meter) (m : Machine) (k : Nat) :
    meter.demand m (k + 1) = meter.demand m k + meter.total (attempts ((free m).advance k)) :=
  meter.total_append _ _

end Meter

/-- A machine without a limit stays without one, and none of its steps is refused. -/
theorem free_advance (running : m.status = .running) (k : Nat) :
    ((free m).advance k).budget = .unlimited ∧
      ∀ pc e, ((free m).advance k).status ≠ .faulted ⟨pc, .budgetExceeded e⟩ := by
  induction k with
  | zero =>
    refine ⟨rfl, fun pc e faulted => ?_⟩
    cases running.symm.trans faulted
  | succ k ih =>
    rw [advance_step]
    obtain ⟨unlimited, unrefused⟩ := ih
    generalize (free m).advance k = n at unlimited unrefused
    by_cases goesOn : n.status = .running
    · have stepped : (n.withBudget .unlimited).step = (n.withBudget .unlimited).step.withBudget .unlimited :=
        step_withBudget goesOn (chargeFor_unlimited rfl _)
      rw [withBudget_unlimited unlimited] at stepped
      exact ⟨congrArg Machine.budget stepped, step_unrefused goesOn unlimited⟩
    · rw [step_ended goesOn]
      exact ⟨unlimited, unrefused⟩

/-- One step under a limit whose use so far is known, beside one without a limit. -/
theorem step_limited (meter : Meter) {n : Machine} {used : Nat} (unlimited : n.budget = .unlimited)
    (within : used + meter.total (attempts n) ≤ limit) :
    (n.withBudget (meter.budget limit used)).step =
      n.step.withBudget (meter.budget limit (used + meter.total (attempts n))) := by
  by_cases running : n.status = .running
  · have charged : (n.withBudget (meter.budget limit used)).chargeFor n.next =
        .ok (meter.budget limit (used + meter.total (attempts n))) := by
      unfold chargeFor
      cases halting : n.next.isHalting with
      | true => simp [attempts, halting, Meter.total, withBudget]
      | false =>
        simp only [attempts, running, halting, and_self, if_true, Meter.total, Nat.add_zero] at within ⊢
        exact meter.charge_within within
    rw [step_withBudget running charged, withBudget_unlimited unlimited]
  · have nothing : attempts n = [] := by simp [attempts, running]
    have stays : (n.withBudget (meter.budget limit used)).step = n.withBudget (meter.budget limit used) :=
      step_ended running
    rw [nothing, step_ended running, stays]
    rfl

/-- The step that the limit refuses. -/
theorem step_exceeding (meter : Meter) {n : Machine} {used : Nat} (within : used ≤ limit)
    (exceeds : limit < used + meter.total (attempts n)) :
    n.status = .running ∧ n.next.isHalting = false ∧ (n.withBudget (meter.budget limit used)).step =
      (n.withBudget (meter.budget limit used)).abort
        (.budgetExceeded (meter.refusal limit (used + meter.total (attempts n) - limit))) := by
  by_cases attempting : n.status = .running ∧ n.next.isHalting = false
  · obtain ⟨running, halting⟩ := attempting
    refine ⟨running, halting, step_refused (m := n.withBudget _) running ?_⟩
    simp only [attempts, running, halting, and_self, if_true, Meter.total, Nat.add_zero] at exceeds ⊢
    have goesOn : (n.withBudget (meter.budget limit used)).next.isHalting = false := halting
    rw [chargeFor, goesOn]
    exact meter.charge_exceeding within exceeds
  · simp only [attempts, attempting, if_false, Meter.total] at exceeds
    omega

/-! ## Runs under a limit -/

section Runs

variable (meter : Meter) {k : Nat}

/-- Up to the limit a run is the one without a limit. -/
theorem limited_within (running : m.status = .running) (within : meter.demand m k ≤ limit) :
    (meter.limited limit m).advance k =
      ((free m).advance k).withBudget (meter.budget limit (meter.demand m k)) := by
  induction k with
  | zero => rfl
  | succ k ih =>
    rw [meter.demand_succ] at within ⊢
    rw [advance_step, advance_step, ih (Nat.le_of_add_right_le within)]
    exact step_limited meter (free_advance running k).1 within

/-- The step that exceeds the limit. -/
theorem limited_exceeding (running : m.status = .running) (within : meter.demand m k ≤ limit)
    (exceeds : limit < meter.demand m (k + 1)) :
    ((free m).advance k).status = .running ∧ ((free m).advance k).next.isHalting = false ∧
      (meter.limited limit m).advance (k + 1) = ((meter.limited limit m).advance k).abort
        (.budgetExceeded (meter.refusal limit (meter.demand m (k + 1) - limit))) := by
  rw [meter.demand_succ] at exceeds ⊢
  rw [advance_step, limited_within meter running within]
  exact step_exceeding meter within exceeds

/-- Beyond it the machine stays refused. -/
theorem limited_beyond (running : m.status = .running) (exceeds : limit < meter.demand m k) :
    ∃ pc e, ((meter.limited limit m).advance k).status = .faulted ⟨pc, .budgetExceeded e⟩ := by
  induction k with
  | zero => exact absurd exceeds (Nat.not_lt_zero limit)
  | succ k ih =>
    by_cases before : limit < meter.demand m k
    · obtain ⟨pc, e, faulted⟩ := ih before
      rw [advance_step, step_ended (by rw [faulted]; exact Status.noConfusion)]
      exact ⟨pc, e, faulted⟩
    · obtain ⟨-, -, aborted⟩ := limited_exceeding meter running (Nat.le_of_not_lt before) exceeds
      rw [aborted]
      exact ⟨_, _, rfl⟩

theorem refused_iff (running : m.status = .running) :
    (∃ pc e, ((meter.limited limit m).advance k).status = .faulted ⟨pc, .budgetExceeded e⟩) ↔
      limit < meter.demand m k := by
  refine ⟨?_, limited_beyond meter running⟩
  rintro ⟨pc, e, faulted⟩
  by_cases within : meter.demand m k ≤ limit
  · rw [limited_within meter running within] at faulted
    exact absurd faulted ((free_advance running k).2 pc e)
  · exact Nat.lt_of_not_le within

/-- A limit that is never exceeded leaves the result as it is. -/
theorem finishes_limited (running : m.status = .running) (within : ∀ k, meter.demand m k ≤ limit)
    (r : Except Fault Outcome) : Finishes (meter.limited limit m) r ↔ Finishes (free m) r := by
  rw [finishes_iff, finishes_iff]
  have same (k : Nat) : ((meter.limited limit m).advance k).result? = ((free m).advance k).result? := by
    rw [limited_within meter running (within k)]
    rfl
  simp only [same]

/-- A run that is not refused stays within its limit. -/
theorem within_of_unrefused (running : m.status = .running)
    (unrefused : ¬ ∃ pc e, Finishes (meter.limited limit m) (.error ⟨pc, .budgetExceeded e⟩)) (k : Nat) :
    meter.demand m k ≤ limit := by
  by_cases exceeds : limit < meter.demand m k
  · obtain ⟨pc, e, faulted⟩ := limited_beyond meter running exceeds
    refine absurd ⟨pc, e, finishes_iff.2 ⟨k, ?_⟩⟩ unrefused
    rw [result?, faulted]
  · exact Nat.le_of_not_lt exceeds

end Runs

/-! ## Transparency -/

/-- How a machine runs under a fresh limit, beside the same machine without one. -/
structure Transparent (meter : Meter) (limit : Nat) (m : Machine) : Prop where
  /-- As long as the demand stays within the limit, the two agree in everything but the budget. -/
  agrees : ∀ k, meter.demand m k ≤ limit →
    (meter.limited limit m).advance k =
      ((free m).advance k).withBudget (meter.budget limit (meter.demand m k))
  /-- The first instruction with which the demand exceeds the limit is refused, and the refusal changes
  nothing else. -/
  refuses : ∀ k, meter.demand m k ≤ limit → limit < meter.demand m (k + 1) →
    ((free m).advance k).status = .running ∧ ((free m).advance k).next.isHalting = false ∧
      (meter.limited limit m).advance (k + 1) = ((meter.limited limit m).advance k).abort
        (.budgetExceeded (meter.refusal limit (meter.demand m (k + 1) - limit)))
  /-- Nothing else is refused. -/
  only : ∀ k, (∃ pc e, ((meter.limited limit m).advance k).status = .faulted ⟨pc, .budgetExceeded e⟩) ↔
    limit < meter.demand m k
  result : (∀ k, meter.demand m k ≤ limit) →
    ∀ r, Finishes (meter.limited limit m) r ↔ Finishes (free m) r
  /-- A higher limit changes no result but a refusal. -/
  raised : ∀ higher, limit ≤ higher →
    (¬ ∃ pc e, Finishes (meter.limited limit m) (.error ⟨pc, .budgetExceeded e⟩)) →
      ∀ r, Finishes (meter.limited limit m) r ↔ Finishes (meter.limited higher m) r

/-- Limits on steps and on cost are transparent up to the one instruction that they refuse, whatever the
running machine they are put on. -/
theorem budget_transparent (meter : Meter) (limit : Nat) (running : m.status = .running) :
    Transparent meter limit m := by
  refine ⟨fun k => limited_within meter running, fun k => limited_exceeding meter running,
    fun k => refused_iff meter running, finishes_limited meter running, ?_⟩
  intro higher raised unrefused r
  have within := within_of_unrefused meter running unrefused
  have withinHigher (k : Nat) : meter.demand m k ≤ higher := Nat.le_trans (within k) raised
  rw [finishes_limited meter running within, finishes_limited meter running withinHigher]

/-- The subroutine of `callOnce` is entered with the first two of its five instructions. -/
theorem callOnce_transparent :
    (start callOnce ⟨.shared, 0⟩).status = .running ∧ Meter.steps.demand (start callOnce ⟨.shared, 0⟩) 9 = 5 ∧
      ((Meter.steps.limited 2 (start callOnce ⟨.shared, 0⟩)).advance 3).fault? =
        some ⟨5, .budgetExceeded (.steps 2)⟩ ∧
      Transparent .steps 2 (start callOnce ⟨.shared, 0⟩) :=
  ⟨rfl, by decide +kernel, by decide +kernel, budget_transparent .steps 2 rfl⟩

end Gosub.Budgets
