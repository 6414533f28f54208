import Gosub.Proofs.Effects

/-!
# Steps and runs

What one step may do to the control of a machine (`Moves`, `step_moves`), where any number of steps
may lead from a fresh machine (`Reachable`), and how a machine advances: step by step, and no further
once it has ended.
-/

namespace Gosub.Steps

open Machine
open Gosub.Effects

variable {m : Machine}

/-! ## One step -/

/-- What a step of a running machine does to its control. -/
inductive Moves (m n : Machine) : Prop
  | refused (e : BudgetExceeded) : m.chargeFor m.next = .error e → n.status = .faulted ⟨m.pc, .budgetExceeded e⟩ →
      n.pc = m.pc → n.returns = m.returns → Moves m n
  /-- The instruction itself aborts the execution. -/
  | traps (trap : Trap) : trap.isRefusal = false → n.status = .faulted ⟨m.pc, trap⟩ → n.pc = m.pc →
      n.returns = m.returns → Moves m n
  | halts (h : Halt) : m.next.isHalting = true → n.status = .halted h → n.pc = m.pc → n.returns = m.returns →
      Moves m n
  /-- The instruction leads to the next one behind it. -/
  | passes : m.next ≠ .op .jumpsub → m.next ≠ .op .returnsub → n.status = .running →
      n.pc = m.pc + m.next.size → n.returns = m.returns → Moves m n
  | jumps : m.next ≠ .op .jumpsub → m.next ≠ .op .returnsub → n.status = .running →
      m.destinations.isValid .jump n.pc = true → n.returns = m.returns → Moves m n
  | calls : m.next = .op .jumpsub → n.status = .running → m.destinations.isValid .subroutine n.pc = true →
      m.returns.push m.pc = .ok n.returns → Moves m n
  | comesBack : m.next = .op .returnsub → n.status = .running → n.pc = m.returns.pop.1 + 1 →
      n.returns = m.returns.pop.2 → Moves m n

theorem step_running (running : m.status = .running) : m.step = m.settle m.attempt := by
  unfold step
  rw [running]

theorem step_refused {e : BudgetExceeded} (running : m.status = .running) (refused : m.chargeFor m.next = .error e) :
    m.step = m.abort (.budgetExceeded e) := by
  rw [step_running running, attempt, refused]
  rfl

theorem step_charged {budget : Budget} (running : m.status = .running) (charged : m.chargeFor m.next = .ok budget) :
    m.step = m.settle (.ok (m.next.execute (m.withBudget budget))) := by
  rw [step_running running, attempt, charged]
  rfl

/-! What an instruction leaves of the stack and the memory stays, wherever it leads. -/

theorem settle_stack (flow : Flow) (n : Machine) : (m.settle (.ok (.ok flow n))).stack = n.stack := by
  cases flow <;> rfl

/-- What does not fault was charged for and ran to its end. -/
theorem step_completed (running : m.status = .running) (faultless : ∀ fault, m.step.status ≠ .faulted fault) :
    ∃ budget flow n, m.chargeFor m.next = .ok budget ∧ m.next.execute (m.withBudget budget) = .ok flow n ∧
      m.step = m.settle (.ok (.ok flow n)) := by
  cases charged : m.chargeFor m.next with
  | error e =>
    rw [step_refused running charged] at faultless
    exact absurd rfl (faultless _)
  | ok budget =>
    rw [step_charged running charged] at faultless ⊢
    cases ran : m.next.execute (m.withBudget budget) with
    | error trap n =>
      rw [ran] at faultless
      exact absurd rfl (faultless _)
    | ok flow n => exact ⟨budget, flow, n, rfl, ran, rfl⟩

/-- A return that is not refused takes what it finds on the return stack and leads behind it. -/
theorem step_back {budget : Budget} (running : m.status = .running) (charged : m.chargeFor m.next = .ok budget)
    (back : m.next = .op .returnsub) :
    m.step = { m.withBudget budget with returns := m.returns.pop.2 }.moveOn m.next (m.returns.pop.1 + 1) := by
  rw [step_charged running charged, back]
  show { m.withBudget budget with returns := m.returns.pop.2 }.moveOn m.next _ = _
  rw [back]
  rfl

/-- A step keeps the destinations and moves the control in one of seven ways. -/
theorem step_moves (running : m.status = .running) : m.step.destinations = m.destinations ∧ Moves m m.step := by
  cases charged : m.chargeFor m.next with
  | error e =>
    rw [step_refused running charged]
    exact ⟨rfl, .refused e charged rfl rfl rfl⟩
  | ok budget =>
    rw [step_charged running charged]
    cases ran : m.next.execute (m.withBudget budget) with
    | error trap n =>
      obtain ⟨noRefusal, same⟩ := execute_trapped ran
      have status : (m.settle (.ok (.error trap n))).status = .faulted ⟨m.pc, trap⟩ :=
        congrArg (fun pc => Status.faulted ⟨pc, trap⟩) same.pc
      exact ⟨same.destinations, .traps trap noRefusal status same.pc same.returns⟩
    | ok flow n =>
      by_cases call : m.next = .op .jumpsub
      · have called := ends_call (m.withBudget budget) _ (.refl _)
        rw [← call, ran] at called
        obtain ⟨target, returns, rfl, valid, pushed, same⟩ := called
        refine ⟨same.destinations, .calls call (same.status.trans running) valid ?_⟩
        exact pushed.trans (congrArg Except.ok same.returns.symm)
      by_cases back : m.next = .op .returnsub
      · rw [back] at ran
        cases ran
        exact ⟨rfl, .comesBack back running rfl rfl⟩
      · have ended := keeps_execute m.next call back (m.withBudget budget) (.refl _)
        rw [ran] at ended
        obtain ⟨leads, same⟩ := ended
        cases leads with
        | next _ => exact ⟨same.destinations, .passes call back (same.status.trans running) rfl same.returns⟩
        | jump _ valid => exact ⟨same.destinations, .jumps call back (same.status.trans running) valid same.returns⟩
        | halt h halting => exact ⟨same.destinations, .halts h halting rfl same.pc same.returns⟩

theorem step_ended (ended : m.status ≠ .running) : m.step = m := by
  unfold step
  cases status : m.status with
  | running => exact absurd status ended
  | halted h => rfl
  | faulted f => rfl

theorem step_destinations (m : Machine) : m.step.destinations = m.destinations := by
  by_cases running : m.status = .running
  · exact (step_moves running).1
  · rw [step_ended running]

theorem step_code (m : Machine) : m.step.code = m.code := congrArg Destinations.code (step_destinations m)

/-- Halting is free: `stop` changes nothing but the status. -/
theorem step_stop (running : m.status = .running) (stop : m.next = .op .stop) :
    m.step = { m with status := .halted .stop } := by
  unfold step attempt chargeFor
  rw [running, stop]
  rfl

/-- Running is the only status that a step can change. -/
theorem running_of_step (running : m.step.status = .running) : m.status = .running := by
  by_cases ended : m.status = .running
  · exact ended
  · rw [step_ended ended] at running
    exact running

/-! ## Steps of a changed machine -/

/-- The change leaves alone what a step looks at and does besides executing an instruction. -/
structure Aside (f : Machine → Machine) : Prop where
  pc : ∀ m, (f m).pc = m.pc
  next : ∀ m, (f m).next = m.next
  status : ∀ m, (f m).status = m.status
  budget : ∀ m, (f m).budget = m.budget
  setBudget : ∀ m budget, f { m with budget } = { f m with budget }
  setStatus : ∀ m status, f { m with status } = { f m with status }
  moveOn : ∀ m i target, f (m.moveOn i target) = (f m).moveOn i target

theorem Aside.abort {f : Machine → Machine} (aside : Aside f) (m : Machine) (trap : Trap) :
    (f m).abort trap = f (m.abort trap) := by
  have here : (f m).abort trap = { f m with status := .faulted ⟨m.pc, trap⟩ } :=
    congrArg (fun pc => { f m with status := .faulted ⟨pc, trap⟩ }) (aside.pc m)
  exact here.trans (aside.setStatus m _).symm

/-- What becomes of an instruction of the changed machine, once it was executed as if there were no change. -/
theorem Aside.settle {f : Machine → Machine} (aside : Aside f) (m : Machine) (r : Execution) :
    (f m).settle (.ok (mapState f r)) = f (m.settle (.ok r)) := by
  cases r with
  | error trap n => exact aside.abort n trap
  | ok flow n =>
    cases flow with
    | halt h => exact (aside.setStatus n _).symm
    | next =>
      show (f n).moveOn (f m).next ((f m).pc + (f m).next.size) = _
      rw [aside.next, aside.pc, ← aside.moveOn]
      rfl
    | jump target =>
      show (f n).moveOn (f m).next target = _
      rw [aside.next, ← aside.moveOn]
      rfl

/-- A step does not see the change, if its instruction does not. -/
theorem Aside.step {f : Machine → Machine} (aside : Aside f)
    (executes : ∀ budget, m.status = .running → m.chargeFor m.next = .ok budget →
      m.next.execute (f (m.withBudget budget)) = mapState f (m.next.execute (m.withBudget budget))) :
    (f m).step = f m.step := by
  have charge : (f m).chargeFor (f m).next = m.chargeFor m.next := by
    rw [chargeFor, chargeFor, aside.next, aside.budget]
  by_cases running : m.status = .running
  · have runningToo : (f m).status = .running := (aside.status m).trans running
    cases charged : m.chargeFor m.next with
    | error e =>
      rw [step_refused running charged, step_refused runningToo (charge.trans charged)]
      exact aside.abort m _
    | ok budget =>
      have executed := executes budget running charged
      rw [Machine.withBudget, aside.setBudget] at executed
      rw [step_charged running charged, step_charged runningToo (charge.trans charged), aside.next]
      show (f m).settle (.ok (m.next.execute { f m with budget })) = _
      rw [executed, aside.settle]
      rfl
  · have endedToo : (f m).status ≠ .running := fun running' => running ((aside.status m).symm.trans running')
    rw [step_ended running, step_ended endedToo]

/-! ## Advancing -/

theorem advance_ended (k : Nat) (ended : m.status ≠ .running) : m.advance k = m := by
  induction k with
  | zero => rfl
  | succ k ih =>
    unfold advance
    rw [step_ended ended]
    cases status : m.status with
    | running => exact absurd status ended
    | halted h => rfl
    | faulted f => rfl

/-- Advancing takes one step and goes on from there. -/
theorem advance_succ (k : Nat) (m : Machine) : m.advance (k + 1) = m.step.advance k := by
  by_cases ended : m.step.status = .running
  · rw [advance, ended]
  · rw [advance_ended k ended]
    unfold advance
    cases status : m.step.status with
    | running => exact absurd status ended
    | halted h => rfl
    | faulted f => rfl

/-- Advancing goes on and takes one step from there. -/
theorem advance_step (k : Nat) (m : Machine) : m.advance (k + 1) = (m.advance k).step := by
  induction k generalizing m with
  | zero => rw [advance_succ, advance, advance]
  | succ k ih => rw [advance_succ, ih, ← advance_succ]

theorem advance_advance (j k : Nat) (m : Machine) : (m.advance j).advance k = m.advance (j + k) := by
  induction j generalizing m with
  | zero => rw [Nat.zero_add, advance]
  | succ j ih => rw [advance_succ, ih, Nat.succ_add, advance_succ]

/-- A run that comes to an end within its fuel got where so many steps lead. -/
theorem run?_eq_some {n : Machine} {fuel : Nat} :
    m.run? fuel = some n ↔ 0 < fuel ∧ m.advance fuel = n ∧ n.status ≠ .running := by
  induction fuel generalizing m with
  | zero => simp [run?]
  | succ fuel ih =>
    rw [advance_succ]
    by_cases running : m.step.status = .running
    · have goesOn : m.run? (fuel + 1) = m.step.run? fuel := by
        rw [run?, running]
      rw [goesOn, ih]
      constructor
      · rintro ⟨-, arrives, ended⟩
        exact ⟨Nat.succ_pos fuel, arrives, ended⟩
      · rintro ⟨-, arrives, ended⟩
        refine ⟨Nat.pos_of_ne_zero fun none => ?_, arrives, ended⟩
        rw [none] at arrives
        exact ended (arrives ▸ running)
    · have ends : m.run? (fuel + 1) = some m.step := by
        unfold run?
        cases status : m.step.status with
        | running => exact absurd status running
        | halted h => rfl
        | faulted f => rfl
      rw [ends, advance_ended fuel running, Option.some.injEq]
      constructor
      · rintro rfl
        exact ⟨Nat.succ_pos fuel, rfl, running⟩
      · exact fun reached => reached.2.1

theorem run?_eq_ite (m : Machine) (fuel : Nat) :
    m.run? fuel = if 0 < fuel ∧ (m.advance fuel).status ≠ .running then some (m.advance fuel) else none := by
  by_cases ends : 0 < fuel ∧ (m.advance fuel).status ≠ .running
  · rw [if_pos ends, run?_eq_some.2 ⟨ends.1, rfl, ends.2⟩]
  · rw [if_neg ends, Option.eq_none_iff_forall_ne_some]
    intro n ran
    obtain ⟨fuelled, rfl, ended⟩ := run?_eq_some.1 ran
    exact ends ⟨fuelled, ended⟩

/-- The run of the machine comes to an end, with this result. -/
def Finishes (m : Machine) (r : Except Fault Outcome) : Prop :=
  ∃ fuel n, m.run? fuel = some n ∧ n.result? = some r

theorem ended_of_result {r : Except Fault Outcome} (result : m.result? = some r) : m.status ≠ .running := by
  intro running
  rw [result?, running] at result
  cases result

theorem finishes_iff {r : Except Fault Outcome} : Finishes m r ↔ ∃ k, (m.advance k).result? = some r := by
  constructor
  · rintro ⟨fuel, n, ran, result⟩
    obtain ⟨-, rfl, -⟩ := run?_eq_some.1 ran
    exact ⟨fuel, result⟩
  · rintro ⟨k, result⟩
    have ended := ended_of_result result
    -- One more unit of fuel, because a run always takes a step.
    refine ⟨k + 1, m.advance k, run?_eq_some.2 ⟨Nat.succ_pos k, ?_, ended⟩, result⟩
    rw [advance_step, step_ended ended]

/-- The instruction that a step completes, with its address: the machine runs on behind it. -/
def completes (m : Machine) : List (Nat × Instruction) :=
  if m.step.status = .running then [(m.pc, m.next)] else []

/-- The instructions that so many steps complete, in order. -/
def completed : Nat → Machine → List (Nat × Instruction)
  | 0, _ => []
  | k + 1, m => completes m ++ completed k m.step

/-! ## Runs from the start -/

/-- A machine before its first step, with words on its stack, the last on top, and a budget. -/
def fresh (code : Code) (config : Configuration) (words : List Word) (budget : Budget) : Except Trap Machine := do
  return (← (start code config).withStack words).withBudget budget

/-- The states that a machine for a code gets into: words may be put on its stack and its budget may
be replaced before it begins and after any step. -/
inductive Reachable (code : Code) (config : Configuration) : Machine → Prop
  | start : Reachable code config (start code config)
  | withStack {m n : Machine} {words : List Word} : Reachable code config m → m.withStack words = .ok n →
      Reachable code config n
  | withBudget {m : Machine} (budget : Budget) : Reachable code config m → Reachable code config (m.withBudget budget)
  | step {m : Machine} : Reachable code config m → Reachable code config m.step

/-- Words on the stack change nothing else. -/
theorem withStack_eq_ok {n : Machine} {words : List Word} (filled : m.withStack words = .ok n) :
    ∃ stack, m.stack.pushAll words = .ok stack ∧ n = { m with stack } := by
  unfold Machine.withStack at filled
  cases pushed : m.stack.pushAll words with
  | error trap =>
    rw [pushed] at filled
    cases filled
  | ok stack =>
    rw [pushed] at filled
    cases filled
    exact ⟨stack, rfl, rfl⟩

theorem withStack_sameControl {n : Machine} {words : List Word} (filled : m.withStack words = .ok n) :
    SameControl m n := by
  obtain ⟨stack, -, rfl⟩ := withStack_eq_ok filled
  exact { SameControl.refl m with }

section

variable {f : Machine → Machine} (stack : ∀ m, (f m).stack = m.stack)
  (setStack : ∀ m stack, f { m with stack } = { f m with stack })

include stack setStack

/-- Words are put on the stack of the changed machine as if there were no change. -/
theorem withStack_map (m : Machine) (words : List Word) : (f m).withStack words = (m.withStack words).map f := by
  unfold Machine.withStack
  rw [stack]
  cases m.stack.pushAll words with
  | error trap => rfl
  | ok pushed => exact congrArg Except.ok (setStack m pushed).symm

theorem fresh_map (setBudget : ∀ m budget, f { m with budget } = { f m with budget }) {code code' : Code}
    {config config' : Configuration} (started : start code' config' = f (start code config)) (words : List Word)
    (budget : Budget) : fresh code' config' words budget = (fresh code config words budget).map f := by
  unfold fresh
  rw [started, withStack_map stack setStack]
  cases (start code config).withStack words with
  | error trap => rfl
  | ok filled => exact congrArg Except.ok (setBudget filled budget).symm

end

theorem fresh_sameControl {code : Code} {config : Configuration} {words : List Word} {budget : Budget}
    (made : fresh code config words budget = .ok m) :
    SameControl ((start code config).withBudget budget) m := by
  unfold fresh at made
  cases filled : (start code config).withStack words with
  | error trap =>
    rw [filled] at made
    cases made
  | ok n =>
    rw [filled] at made
    cases made
    exact { withStack_sameControl filled with budget := rfl }

theorem reachable_fresh {code : Code} {config : Configuration} {words : List Word} {budget : Budget}
    (made : fresh code config words budget = .ok m) : Reachable code config m := by
  unfold fresh at made
  cases filled : (start code config).withStack words with
  | error trap =>
    rw [filled] at made
    cases made
  | ok n =>
    rw [filled] at made
    cases made
    exact .withBudget budget (.withStack .start filled)

theorem Reachable.advance {code : Code} {config : Configuration} (reachable : Reachable code config m) (k : Nat) :
    Reachable code config (m.advance k) := by
  induction k with
  | zero => exact reachable
  | succ k ih =>
    rw [advance_step]
    exact .step ih

theorem reachable_destinations {code : Code} {config : Configuration} (reachable : Reachable code config m) :
    m.destinations = code.destinations config.policy := by
  induction reachable with
  | start => rfl
  | withStack _ filled ih => exact (withStack_sameControl filled).destinations.trans ih
  | withBudget budget _ ih => exact ih
  | step _ ih => exact (step_destinations _).trans ih

/-- A program that calls its subroutine at 5 once, and then returns without a call. -/
def callOnce : Code := .ofList [0x60, 0x05, 0xb3, 0xb7, 0x00, 0x5b, 0xb7]

end Gosub.Steps
