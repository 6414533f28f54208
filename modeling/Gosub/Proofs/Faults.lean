import Gosub.Proofs.Accesses
import Gosub.Proofs.Results
import Gosub.Proofs.Steps

/-!
# Faults

What a fault leaves behind: all of the machine as it was before the step, but for at most two operands
that are gone from the stack (`fault_spares`). Each part of an instruction that may trap comes before
those that change anything else. The one exception is the word that a load puts on the stack once the
memory has grown, and there is room for it, because the stack never holds more than its limit.
-/

namespace Gosub.Faults

open Machine
open Gosub.Effects Gosub.Steps Gosub.Results Gosub.Accesses

variable {m n : Machine} {code : Code} {config : Configuration}

/-! ## Room on the stack -/

/-- The stack holds no more than its limit. -/
def Bounded (s : Stack) : Prop := s.size ≤ s.limit

theorem bounded_pushAll {s pushed : Stack} {words : List Word} (bounded : Bounded s)
    (done : s.pushAll words = .ok pushed) : Bounded pushed ∧ pushed.limit = s.limit := by
  unfold Stack.pushAll at done
  induction words generalizing s with
  | nil =>
    cases done
    exact ⟨bounded, rfl⟩
  | cons w words ih =>
    rw [List.foldlM_cons] at done
    cases first : s.push w with
    | error trap =>
      rw [first] at done
      cases done
    | ok next =>
      rw [first] at done
      obtain ⟨room, rfl⟩ := Stack.eq_of_push first
      exact ih (s := { s with words := w :: s.words }) room done

/-- What an instruction keeps of the stack and the memory, besides what it works on. -/
structure Within (m n : Machine) : Prop where
  bounded : Bounded n.stack
  stackLimit : n.stack.limit = m.stack.limit
  memoryLimit : n.memory.limit = m.memory.limit

/-- At most the two top words are gone from the stack. -/
def Spent (m n : Machine) : Prop :=
  ∃ taken kept, taken.length ≤ 2 ∧ m.stack.words = taken ++ kept ∧ n = m.holding kept

theorem Spent.refl (m : Machine) : Spent m m := ⟨[], m.stack.words, by simp, rfl, rfl⟩

theorem spent_one {a : Word} {rest : List Word} (held : m.stack.words = a :: rest) : Spent m (m.holding rest) :=
  ⟨[a], rest, by simp, held, rfl⟩

theorem spent_two {a b : Word} {rest : List Word} (held : m.stack.words = a :: b :: rest) :
    Spent m (m.holding rest) :=
  ⟨[a, b], rest, by simp, held, rfl⟩

/-- Words that are taken leave room. -/
theorem Spent.within (spent : Spent m n) (bounded : Bounded m.stack) : Within m n := by
  obtain ⟨taken, kept, -, held, rfl⟩ := spent
  refine ⟨?_, rfl, rfl⟩
  unfold Bounded Stack.size at bounded ⊢
  rw [held, List.length_append] at bounded
  exact Nat.le_trans (Nat.le_add_left _ _) bounded

/-! ## Instructions -/

/-- Run on `m`, the effect keeps the limits and the bound on the stack, or traps with at most two words
gone. -/
def Confined (m : Machine) (x : Effect α) : Prop := Yields m x (fun _ n => Within m n) fun _ n => Spent m n

theorem confined_binary (f : Word → Word → Word) : Confined m (binary f) := by
  refine yields_words (fun _ => .refl m) (fun a held => spent_one held) fun a b rest held => ?_
  exact yields_putNext (fun _ => spent_two held) fun room => ⟨room, rfl, rfl⟩

theorem confined_putNext (w : Word) : Confined m (putWord w >>= fun _ => pure Flow.next) :=
  yields_putNext (fun _ => .refl m) fun room => ⟨room, rfl, rfl⟩

/-- Storing comes last, so that nothing is changed when it is refused. -/
theorem confined_store (bounded : Bounded m.stack) {f : Word → Word → Memory → Except MemoryError Memory}
    (limit : ∀ a b memory, f a b m.memory = .ok memory → memory.limit = m.memory.limit) :
    Confined m (do
      let offset ← takeWord
      let value ← takeWord
      changeMemory (f offset value)
      return Flow.next) := by
  refine yields_words (fun _ => .refl m) (fun a held => spent_one held) fun a b rest held => ?_
  refine yields_bind (yields_changeMemory (fun _ _ => spent_two held) fun memory done => ?_)
  obtain ⟨bound, stackLimit, -⟩ := (spent_two held).within bounded
  exact ⟨bound, stackLimit, limit a b memory done⟩

theorem confined_output (bounded : Bounded m.stack) (halt : List UInt8 → Halt) :
    Confined m (do
      let offset ← takeWord
      let length ← takeWord
      return Flow.halt (halt (← access (·.read offset length)))) := by
  refine yields_words (fun _ => .refl m) (fun a held => spent_one held) fun a b rest held => ?_
  refine yields_output (fun _ _ => spent_two held) fun output memory done => ?_
  obtain ⟨bound, stackLimit, -⟩ := (spent_two held).within bounded
  exact ⟨bound, stackLimit, (read_eq_ok done).2.2.1⟩

theorem confined_operation (bounded : Bounded m.stack) (o : Operation) : Confined m o.execute := by
  have unchanged : Within m m := (Spent.refl m).within bounded
  cases o with
  | stop | jumpdest => exact unchanged
  | add | sub | lt | gt | eq => exact confined_binary _
  | isZero =>
    refine yields_word (fun _ => .refl m) fun a rest held => ?_
    exact yields_putNext (fun _ => spent_one held) fun room => ⟨room, rfl, rfl⟩
  | pop => exact yields_dropNext (fun _ => .refl m) fun a rest held => (spent_one held).within bounded
  | mload =>
    refine yields_word (fun _ => .refl m) fun offset rest held => ?_
    refine yields_bind (yields_access (fun _ _ => spent_one held) fun w memory loaded => ?_)
    -- The word that was taken leaves room for the one that was loaded.
    have room : rest.length < m.stack.limit := by
      unfold Bounded Stack.size at bounded
      rw [held] at bounded
      exact bounded
    refine yields_putNext (fun full => absurd room (Nat.not_lt.2 full)) fun _ => ⟨room, rfl, ?_⟩
    exact (load_eq_ok loaded).2.1.limit
  | mstore => exact confined_store bounded fun _ _ _ done => (store_eq_ok done).1.limit
  | mstore8 => exact confined_store bounded fun _ _ _ done => (store8_eq_ok done).1.limit
  | jump =>
    refine yields_word (fun _ => .refl m) fun target rest held => ?_
    exact yields_bind (yields_resolve (fun _ => spent_one held) fun a _ => (spent_one held).within bounded)
  | jumpi =>
    refine yields_words (fun _ => .refl m) (fun a held => spent_one held) fun target condition rest held => ?_
    by_cases zero : condition = 0
    · rw [if_pos zero]
      exact (spent_two held).within bounded
    · rw [if_neg zero]
      exact yields_bind (yields_resolve (fun _ => spent_two held) fun a _ => (spent_two held).within bounded)
  | pc => exact yields_bind (yields_get (confined_putNext _))
  | msize => exact yields_bind (yields_get (confined_putNext _))
  | jumpsub =>
    refine yields_word (fun _ => .refl m) fun target rest held => ?_
    refine yields_bind (yields_resolve (fun _ => spent_one held) fun entry _ => ?_)
    refine yields_bind (yields_saveCall (fun _ _ => spent_one held) fun returns _ => ?_)
    obtain ⟨bound, -, -⟩ := (spent_one held).within bounded
    exact ⟨bound, rfl, rfl⟩
  | beginsub =>
    refine yields_bind (yields_get ?_)
    cases m.policy with
    | shared => exact yields_throw (.refl m)
    | distinct => exact yields_pure unchanged
  | returnsub => exact yields_bind (yields_takeCall ⟨bounded, rfl, rfl⟩)
  | ret => exact confined_output bounded .ret
  | revert => exact confined_output bounded .revert

theorem confined_execute (bounded : Bounded m.stack) (i : Instruction) : Confined m i.execute := by
  cases i with
  | op o => exact confined_operation bounded o
  | push width value => exact confined_putNext value
  | dup k =>
    refine yields_bind (yields_changeStack (fun _ _ => .refl m) fun stack copied => ?_)
    obtain ⟨w, -, room, rfl⟩ := Stack.eq_of_dup copied
    exact ⟨room, rfl, rfl⟩
  | swap k =>
    refine yields_bind (yields_changeStack (fun _ _ => .refl m) fun stack exchanged => ?_)
    obtain ⟨top, words, w, held, -, rfl⟩ := Stack.eq_of_swap exchanged
    refine ⟨?_, rfl, rfl⟩
    unfold Bounded Stack.size at bounded ⊢
    rw [held] at bounded
    simpa using bounded
  | invalid b => exact yields_throw (.refl m)

/-! ## Every reachable machine -/

/-- A step keeps the limits and the bound on the stack. -/
theorem within_step (bounded : Bounded m.stack) : Within m m.step := by
  have unchanged : Within m m := (Spent.refl m).within bounded
  by_cases running : m.status = .running
  · cases charged : m.chargeFor m.next with
    | error e =>
      rw [step_refused running charged]
      exact { unchanged with }
    | ok budget =>
      have confined : Confined (m.withBudget budget) m.next.execute :=
        confined_execute (m := m.withBudget budget) bounded m.next
      rw [step_charged running charged]
      cases ran : m.next.execute (m.withBudget budget) with
      | error trap n => exact { (confined.of_error ran).within bounded with }
      | ok flow n =>
        cases flow with
        | next | jump _ | halt _ => exact { confined.of_ok ran with }
  · rw [step_ended running]
    exact unchanged

/-- The limits are those that the machine began with. -/
structure Limited (limit : Nat) (m : Machine) : Prop where
  bounded : Bounded m.stack
  stack : m.stack.limit = Stack.machineLimit
  memory : m.memory.limit = limit

theorem reachable_limited (reachable : Reachable code config m) : Limited config.memoryLimit m := by
  induction reachable with
  | start => exact ⟨Nat.zero_le _, rfl, rfl⟩
  | withStack _ filled ih =>
    obtain ⟨stack, pushed, rfl⟩ := withStack_eq_ok filled
    obtain ⟨bounded, limit⟩ := bounded_pushAll ih.bounded pushed
    exact ⟨bounded, limit.trans ih.stack, ih.memory⟩
  | withBudget budget _ ih => exact { ih with }
  | step _ ih =>
    have within := within_step ih.bounded
    exact ⟨within.bounded, within.stackLimit.trans ih.stack, within.memoryLimit.trans ih.memory⟩

theorem reachable_bounded (reachable : Reachable code config m) : Bounded m.stack :=
  (reachable_limited reachable).bounded

/-! ## What a fault leaves -/

/-- A machine after a fault, beside the machine before the step. -/
structure Spared (m n : Machine) (fault : Fault) : Prop where
  raisedAt : fault.pc = m.pc
  destinations : n.destinations = m.destinations
  pc : n.pc = m.pc
  memory : n.memory = m.memory
  returns : n.returns = m.returns
  steps : n.steps = m.steps
  cost : n.cost = m.cost
  /-- At most the two top words are gone. -/
  stack : ∃ taken, taken.length ≤ 2 ∧ m.stack = { n.stack with words := taken ++ n.stack.words }
  refusal : fault.trap.isRefusal = true → n.stack = m.stack ∧ n.budget = m.budget

/-- A step of a reachable machine that faults leaves everything as it was but for at most two words that it
took from the stack, and a refusal leaves these and the budget too. -/
theorem fault_spares {fault : Fault} (reachable : Reachable code config m) (running : m.status = .running)
    (faulted : m.step.status = .faulted fault) : Spared m m.step fault := by
  have bounded := reachable_bounded reachable
  cases charged : m.chargeFor m.next with
  | error e =>
    rw [step_refused running charged] at faulted ⊢
    cases faulted
    exact ⟨rfl, rfl, rfl, rfl, rfl, rfl, rfl, ⟨[], Nat.zero_le 2, rfl⟩, fun _ => ⟨rfl, rfl⟩⟩
  | ok budget =>
    have confined : Confined (m.withBudget budget) m.next.execute :=
      confined_execute (m := m.withBudget budget) bounded m.next
    rw [step_charged running charged] at faulted ⊢
    cases ran : m.next.execute (m.withBudget budget) with
    | error trap n =>
      rw [ran] at faulted
      obtain ⟨noRefusal, -⟩ := execute_trapped ran
      obtain ⟨taken, kept, few, held, rfl⟩ := confined.of_error ran
      cases faulted
      refine ⟨rfl, rfl, rfl, rfl, rfl, rfl, rfl, ⟨taken, few, ?_⟩, fun refusal => ?_⟩
      · exact congrArg (fun words => { m.stack with words }) held
      · rw [noRefusal] at refusal
        cases refusal
    | ok flow n =>
      -- What completes goes on or halts, which is no fault.
      rw [ran] at faulted
      have status : n.status = m.status := (execute_completed ran).status
      cases flow with
      | next | jump _ => cases faulted.symm.trans (status.trans running)
      | halt h => cases faulted

/-- A program that puts 7, 1 and 64 on the stack and stores the 1 from 64 on. -/
def storeFar : Code := .ofList [0x60, 0x07, 0x60, 0x01, 0x60, 0x40, 0x52]

/-- With 64 bytes of memory there is no room for what `storeFar` stores; its operands are gone. -/
theorem storeFar_spared :
    ∃ m, Reachable storeFar ⟨.shared, 64⟩ m ∧ m.status = .running ∧ m.stack.toList = [7, 1, 64] ∧
      m.step.status = .faulted ⟨6, .invalidMemoryAccess (.limitExceeded 96 64)⟩ ∧ m.step.stack.toList = [7] ∧
      Spared m m.step ⟨6, .invalidMemoryAccess (.limitExceeded 96 64)⟩ := by
  have reachable : Reachable storeFar ⟨.shared, 64⟩ (start storeFar ⟨.shared, 64⟩).step.step.step :=
    .step (.step (.step .start))
  have running : (start storeFar ⟨.shared, 64⟩).step.step.step.status = .running := by decide +kernel
  have faulted : (start storeFar ⟨.shared, 64⟩).step.step.step.step.status =
      .faulted ⟨6, .invalidMemoryAccess (.limitExceeded 96 64)⟩ := by
    decide +kernel
  exact ⟨_, reachable, running, by decide +kernel, faulted, by decide +kernel, fault_spares reachable running faulted⟩

end Gosub.Faults
