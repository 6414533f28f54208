import Mathlib.Data.Option.Basic
import Gosub.Proofs.ControlFlow
import Gosub.Proofs.Encoding

/-!
# Zeros behind the code

A code reads as if zeros followed it without end, so zeros that do follow it change nothing that an
execution shows in the end (`padding_unobservable`): the same instructions are fetched, the walk finds the
same destinations, and only past the end of the code may the two machines stand at different addresses.
There both do nothing but stop.
-/

namespace Gosub

/-- The code with so many zeros behind it. -/
def Code.padded (code : Code) (zeros : Nat) : Code := ⟨code.bytes ++ Array.replicate zeros 0⟩

/-- The machine with so many zeros behind its code. -/
def Machine.padded (m : Machine) (zeros : Nat) : Machine :=
  { m with
    destinations := (m.code.padded zeros).destinations m.policy
    returns := { m.returns with codeSize := m.returns.codeSize + zeros } }

end Gosub

namespace Gosub.Padding

open Machine
open Gosub.Walk Gosub.Encoding Gosub.Effects Gosub.Steps Gosub.ControlFlow

variable {m n : Machine} {zeros : Nat} {config : Configuration}

/-! ## The code -/

theorem size_padded (code : Code) (zeros : Nat) : (code.padded zeros).size = code.size + zeros := by
  simp [Code.padded, Code.size]

theorem byteAt_padded (code : Code) (zeros a : Nat) : (code.padded zeros).byteAt a = code.byteAt a :=
  getD_append_zeros code.bytes zeros a

theorem fetch_padded (code : Code) (zeros a : Nat) : (code.padded zeros).fetch a = code.fetch a := by
  have immediate : ∀ b width, (code.padded zeros).immediate b width = code.immediate b width := by
    intro b width
    simp only [Code.immediate, byteAt_padded]
  simp only [fetch_eq, byteAt_padded, immediate]

/-- The walk over the zeros finds nothing but `stop`. -/
theorem instructionsFrom_padded (code : Code) (zeros a : Nat) :
    ∃ stops, (code.padded zeros).instructionsFrom a = code.instructionsFrom a ++ stops ∧
      ∀ p ∈ stops, p.2 = .op .stop := by
  induction a using Code.instructionsFrom.induct code with
  | case1 a inside ih =>
    obtain ⟨stops, rest, stop⟩ := ih
    have insidePadded : a < (code.padded zeros).size := by
      rw [size_padded]
      omega
    refine ⟨stops, ?_, stop⟩
    rw [instructionsFrom_inside inside, instructionsFrom_inside insidePadded, fetch_padded, rest, List.cons_append]
  | case2 a outside =>
    rw [instructionsFrom_outside (Nat.not_lt.1 outside)]
    refine ⟨_, rfl, fun p listed => ?_⟩
    obtain ⟨behind, -, fetched⟩ := mem_instructionsFrom listed
    rw [fetched, fetch_padded]
    exact fetch_outside (by omega)

theorem marked_padded (code : Code) (zeros : Nat) (policy : Policy) :
    (code.padded zeros).marked policy = code.marked policy := by
  obtain ⟨stops, walk, stop⟩ := instructionsFrom_padded code zeros 0
  have unmarked : (stops.map fun p => (p.1, policy.markers p.2)).filter (fun p => p.2 ≠ .empty) = [] := by
    rw [List.filter_eq_nil_iff]
    intro marks member
    obtain ⟨p, listed, rfl⟩ := List.mem_map.1 member
    rw [stop p listed]
    cases policy <;> simp [Policy.markers]
  rw [Code.marked, Code.instructions, walk, List.map_append, List.filter_append, unmarked, List.append_nil]
  rfl

theorem resolve_padded (m : Machine) (kind : DestinationKind) (target : Word) :
    (m.padded zeros).destinations.resolve? kind target = m.destinations.resolve? kind target := by
  have marked : (m.padded zeros).destinations.marked = m.destinations.marked :=
    (marked_padded m.code zeros m.policy).trans m.destinations.marked_eq.symm
  have valid : ∀ a, (m.padded zeros).destinations.isValid kind a = m.destinations.isValid kind a := by
    intro a
    rw [Destinations.isValid, Destinations.isValid, Destinations.markersAt, Destinations.markersAt, marked]
  rw [Destinations.resolve?, Destinations.resolve?]
  exact congrArg (fun p => target.address?.filter p) (funext valid)

theorem next_padded (m : Machine) : (m.padded zeros).next = m.next := fetch_padded m.code zeros m.pc

/-! ## One step -/

theorem unseen_padded (zeros : Nat) : Unseen (·.padded zeros) where
  pc _ := rfl
  stack _ := rfl
  memory _ := rfl
  jump m target := resolve_padded m .jump target
  setStack _ _ := rfl
  setMemory _ _ := rfl

theorem saveCall_padded (zeros : Nat) : Commutes (·.padded zeros) saveCall := by
  intro m
  unfold saveCall Machine.padded ReturnStack.push ReturnStack.outstanding
  by_cases room : m.returns.calls.length < ReturnStack.callLimit
  · simp only [if_pos room]
    rfl
  · simp only [if_neg room]
    rfl

/-- No instruction sees the zeros but a return that finds no call. -/
theorem execute_padded {i : Instruction} (found : i = .op .returnsub → m.returns.calls ≠ []) :
    i.execute (m.padded zeros) = mapState (·.padded zeros) (i.execute m) := by
  have unseen := unseen_padded zeros
  by_cases call : i = .op .jumpsub
  · subst call
    exact commutes_call unseen (fun m target => resolve_padded m .subroutine target) (saveCall_padded zeros) m
  by_cases back : i = .op .returnsub
  · subst back
    obtain ⟨site, calls, saved⟩ := List.exists_cons_of_ne_nil (found rfl)
    have popped : m.returns.pop = (site, { m.returns with calls }) := ReturnStack.pop_of_cons saved
    have poppedPadded : (m.padded zeros).returns.pop = (site, { (m.padded zeros).returns with calls }) :=
      ReturnStack.pop_of_cons saved
    show EStateM.Result.ok (Flow.jump ((m.padded zeros).returns.pop.1 + 1)) { m.padded zeros with
      returns := (m.padded zeros).returns.pop.2 } = mapState (·.padded zeros)
        (.ok (.jump (m.returns.pop.1 + 1)) { m with returns := m.returns.pop.2 })
    rw [popped, poppedPadded]
    rfl
  by_cases entry : i = .op .beginsub
  · subst entry
    exact commutes_entry (f := (·.padded zeros)) (fun _ => rfl) m
  · exact commutes_execute unseen i call back entry m

theorem aside_padded (zeros : Nat) : Aside (·.padded zeros) where
  pc _ := rfl
  next m := next_padded m
  status _ := rfl
  budget _ := rfl
  setBudget _ _ := rfl
  setStatus _ _ := rfl
  moveOn _ _ _ := rfl

/-! ## Two runs side by side -/

/-- The same machine with zeros behind its code. The two may stand at different addresses past the end. -/
structure Alike (zeros : Nat) (m n : Machine) : Prop where
  same : n = { m.padded zeros with pc := n.pc }
  pc : n.pc = m.pc ∨ m.code.size ≤ m.pc ∧ m.code.size ≤ n.pc

theorem alike_padded (m : Machine) (zeros : Nat) : Alike zeros m (m.padded zeros) := ⟨rfl, .inl rfl⟩

/-- From the same address, the two get to the same address, or past the end by a return without a call. -/
theorem alike_step_padded (codeSize : m.returns.codeSize = m.code.size) :
    Alike zeros m.step (m.padded zeros).step := by
  by_cases lost : ∃ budget, m.status = .running ∧ m.chargeFor m.next = .ok budget ∧ m.next = .op .returnsub ∧
      m.returns.calls = []
  · obtain ⟨budget, running, charged, back, none⟩ := lost
    have runningPadded : (m.padded zeros).status = .running := running
    have chargedPadded : (m.padded zeros).chargeFor (m.padded zeros).next = .ok budget := by
      rw [next_padded]
      exact charged
    have popped : m.returns.pop = (m.returns.codeSize, _) := ReturnStack.pop_of_nil none
    have poppedPadded : (m.padded zeros).returns.pop = (m.returns.codeSize + zeros, _) :=
      ReturnStack.pop_of_nil none
    rw [step_back running charged back, step_back runningPadded chargedPadded ((next_padded m).trans back),
      popped, poppedPadded, next_padded]
    refine ⟨rfl, .inr ⟨?_, ?_⟩⟩
    · show m.code.size ≤ m.returns.codeSize + 1
      omega
    · show m.code.size ≤ m.returns.codeSize + zeros + 1
      omega
  · have same : (m.padded zeros).step = m.step.padded zeros := by
      refine (aside_padded zeros).step fun budget running charged => ?_
      exact execute_padded (m := m.withBudget budget) fun back none => lost ⟨budget, running, charged, back, none⟩
    rw [same]
    exact alike_padded _ zeros

theorem alike_step (codeSize : m.returns.codeSize = m.code.size) (alike : Alike zeros m n) :
    Alike zeros m.step n.step := by
  obtain ⟨same, pc | ⟨outside, outsidePadded⟩⟩ := alike
  · obtain rfl : n = m.padded zeros := by
      rw [same, pc]
      rfl
    exact alike_step_padded codeSize
  · have status : n.status = m.status := by rw [same]; rfl
    by_cases running : m.status = .running
    · -- Past the end both machines stop where they are.
      have stop : m.next = .op .stop := fetch_outside outside
      have stopPadded : n.next = .op .stop := by
        have code : n.code = m.code.padded zeros := by rw [same]; rfl
        rw [next, code, fetch_padded]
        exact fetch_outside outsidePadded
      rw [step_stop running stop, step_stop (status.trans running) stopPadded]
      refine ⟨?_, .inr ⟨outside, outsidePadded⟩⟩
      rw [same]
      rfl
    · rw [step_ended running, step_ended (status ▸ running)]
      exact ⟨same, .inr ⟨outside, outsidePadded⟩⟩

theorem alike_advance {code : Code} (reachable : Reachable code config m) (alike : Alike zeros m n) (k : Nat) :
    Alike zeros (m.advance k) (n.advance k) := by
  induction k with
  | zero => exact alike
  | succ k ih =>
    rw [advance_step, advance_step]
    exact alike_step (reachable_sound (reachable.advance k)).2.codeSize ih

/-! ## What shows in the end -/

/-- Two machines that ended alike, wherever they stand. -/
structure SameEnd (m n : Machine) : Prop where
  result : n.result? = m.result?
  memory : n.memory = m.memory
  outstanding : n.returns.outstanding = m.returns.outstanding
  depth : n.returns.depth = m.returns.depth

theorem Alike.status (alike : Alike zeros m n) : n.status = m.status := by
  rw [alike.same]
  rfl

theorem Alike.sameEnd (alike : Alike zeros m n) : SameEnd m n := by
  have depth : ∀ r : ReturnStack, r.depth = r.calls.length + if r.hasSentinel then 1 else 0 := by
    intro r
    cases sentinel : r.hasSentinel <;> simp [ReturnStack.depth, ReturnStack.entries, ReturnStack.sentinel, sentinel]
  rw [alike.same]
  refine ⟨rfl, rfl, rfl, ?_⟩
  rw [depth, depth]
  rfl

/-- With the same fuel both runs end alike, or neither ends. -/
theorem run?_alike {code : Code} (reachable : Reachable code config m) (alike : Alike zeros m n) (fuel : Nat) :
    Option.Rel SameEnd (m.run? fuel) (n.run? fuel) := by
  have later := alike_advance reachable alike fuel
  rw [run?_eq_ite, run?_eq_ite, later.status]
  split
  · exact .some later.sameEnd
  · exact .none

theorem finishes_alike {code : Code} (reachable : Reachable code config m) (alike : Alike zeros m n)
    (r : Except Fault Outcome) : Finishes m r ↔ Finishes n r := by
  have same (k : Nat) : (n.advance k).result? = (m.advance k).result? :=
    (alike_advance reachable alike k).sameEnd.result
  simp only [finishes_iff, same]

theorem fresh_padded (code : Code) (config : Configuration) (words : List Word) (budget : Budget) (zeros : Nat) :
    fresh (code.padded zeros) config words budget =
      (fresh code config words budget).map (·.padded zeros) := by
  have started : start (code.padded zeros) config = (start code config).padded zeros := by
    unfold Machine.start
    rw [size_padded]
    rfl
  exact fresh_map (f := (·.padded zeros)) (fun _ => rfl) (fun _ _ => rfl) (fun _ _ => rfl) started words budget

/-- Zeros behind a code change nothing that shows in the end. A fresh machine is made for both codes or for
neither; with the same fuel both runs end, with the same result, memory and number of calls and entries on the
return stack, or neither does. -/
theorem padding_unobservable (code : Code) (zeros : Nat) (config : Configuration) (words : List Word)
    (budget : Budget) :
    (∃ trap, fresh code config words budget = .error trap ∧
      fresh (code.padded zeros) config words budget = .error trap) ∨
    ∃ m n, fresh code config words budget = .ok m ∧ fresh (code.padded zeros) config words budget = .ok n ∧
      (∀ fuel, Option.Rel SameEnd (m.run? fuel) (n.run? fuel)) ∧ ∀ r, Finishes m r ↔ Finishes n r := by
  rw [fresh_padded]
  cases made : fresh code config words budget with
  | error trap => exact .inl ⟨trap, rfl, rfl⟩
  | ok m =>
    have reachable := reachable_fresh made
    have alike := alike_padded m zeros
    exact .inr ⟨m, m.padded zeros, rfl, rfl, run?_alike reachable alike, finishes_alike reachable alike⟩

end Gosub.Padding
