import Gosub.Proofs.ControlFlow

/-!
# Policies

The two policies disagree on what a call may enter and on whether an entry is an instruction, and on nothing
else: where jumps may go is the same under both (`valid_jump`). A code that neither calls nor has entries on its
walk therefore runs the same under both (`policies_agree`), whatever stands in its immediates, because execution
never leaves the walk.
-/

namespace Gosub

/-- The machine under another policy. -/
def Machine.under (m : Machine) (policy : Policy) : Machine :=
  { m with destinations := m.code.destinations policy }

end Gosub

namespace Gosub.Policies

open Machine
open Gosub.Walk Gosub.Effects Gosub.Steps Gosub.ControlFlow

variable {m : Machine} {code : Code} {config : Configuration} {policy : Policy}

/-! ## Where jumps may go -/

/-- Under both policies `jumpdest` marks what jumps may go to. -/
theorem valid_jump {d : Destinations} {a : Nat} :
    d.isValid .jump a = true ↔ (a, .op .jumpdest) ∈ d.code.instructions := by
  have mark : markOf d.policy .jump = .jumpdest := by cases d.policy <;> rfl
  rw [valid_iff_mark, mark]

theorem resolve_under (m : Machine) (policy : Policy) (target : Word) :
    (m.under policy).destinations.resolve? .jump target = m.destinations.resolve? .jump target := by
  have valid : (m.under policy).destinations.isValid .jump = m.destinations.isValid .jump := by
    funext a
    rw [Bool.eq_iff_iff, valid_jump, valid_jump]
    rfl
  rw [Destinations.resolve?, Destinations.resolve?, valid]

/-! ## Two runs -/

theorem unseen_under (policy : Policy) : Unseen (·.under policy) where
  pc _ := rfl
  stack _ := rfl
  memory _ := rfl
  jump m target := resolve_under m policy target
  setStack _ _ := rfl
  setMemory _ _ := rfl

theorem aside_under (policy : Policy) : Aside (·.under policy) where
  pc _ := rfl
  next _ := rfl
  status _ := rfl
  budget _ := rfl
  setBudget _ _ := rfl
  setStatus _ _ := rfl
  moveOn _ _ _ := rfl

/-- No instruction of the walk calls or is the entry of a subroutine. -/
def CallFree (code : Code) : Prop := ∀ p ∈ code.instructions, p.2 ≠ .op .jumpsub ∧ p.2 ≠ .op .beginsub

/-- Execution stays on the walk, so it meets neither a call nor an entry. -/
theorem next_callFree (free : CallFree code) (reachable : Reachable code config m) :
    m.next ≠ .op .jumpsub ∧ m.next ≠ .op .beginsub := by
  obtain ⟨rfl, sound⟩ := reachable_sound reachable
  rcases sound.pc with outside | listed
  · rw [next, fetch_outside outside]
    simp
  · exact free _ listed

theorem step_under (free : CallFree code) (reachable : Reachable code config m) :
    (m.under policy).step = m.step.under policy := by
  obtain ⟨noCall, noEntry⟩ := next_callFree free reachable
  refine (aside_under policy).step fun budget _ _ => ?_
  by_cases back : m.next = .op .returnsub
  · rw [back]
    rfl
  · exact commutes_execute (unseen_under policy) m.next noCall back noEntry (m.withBudget budget)

theorem advance_under (free : CallFree code) (reachable : Reachable code config m) (k : Nat) :
    (m.under policy).advance k = (m.advance k).under policy := by
  induction k with
  | zero => rfl
  | succ k ih => rw [advance_step, advance_step, ih, step_under free (reachable.advance k)]

/-- A code whose walk neither calls nor has entries runs the same under both policies: a fresh machine is made
under both or under neither, and after any number of steps the two machines differ in their destinations alone. -/
theorem policies_agree (free : CallFree code) (limit : Nat) (words : List Word) (budget : Budget) :
    (∃ trap, fresh code ⟨.shared, limit⟩ words budget = .error trap ∧
      fresh code ⟨.distinct, limit⟩ words budget = .error trap) ∨
    ∃ m n, fresh code ⟨.shared, limit⟩ words budget = .ok m ∧ fresh code ⟨.distinct, limit⟩ words budget = .ok n ∧
      ∀ k, n.advance k = (m.advance k).under .distinct := by
  have made : fresh code ⟨.distinct, limit⟩ words budget =
      (fresh code ⟨.shared, limit⟩ words budget).map (·.under .distinct) :=
    fresh_map (f := (·.under .distinct)) (fun _ => rfl) (fun _ _ => rfl) (fun _ _ => rfl) rfl words budget
  rw [made]
  cases shared : fresh code ⟨.shared, limit⟩ words budget with
  | error trap => exact .inl ⟨trap, rfl, rfl⟩
  | ok m => exact .inr ⟨m, m.under .distinct, rfl, rfl, advance_under free (reachable_fresh shared)⟩

/-- A program that puts the byte of an entry on the stack, jumps to 5, and from there to where that byte leads. -/
def entryInPush : Code := .ofList [0x60, 0xb5, 0x60, 0x05, 0x56, 0x5b, 0x56]

theorem entryInPush_agrees : CallFree entryInPush ∧
    ∃ m n, fresh entryInPush ⟨.shared, 0⟩ [] .unlimited = .ok m ∧
      fresh entryInPush ⟨.distinct, 0⟩ [] .unlimited = .ok n ∧
      (n.advance 9).fault? = some ⟨6, .invalidDestination .jump 0xb5⟩ ∧
      ∀ k, n.advance k = (m.advance k).under .distinct := by
  have free : CallFree entryInPush := by
    unfold CallFree
    decide +kernel
  refine ⟨free, ?_⟩
  rcases policies_agree free 0 [] .unlimited with ⟨trap, refused, -⟩ | ⟨m, n, shared, distinct, agree⟩
  · cases refused
  · refine ⟨m, n, shared, distinct, ?_, agree⟩
    cases distinct
    decide +kernel

end Gosub.Policies
