import Gosub.Proofs.Decoding
import Gosub.Proofs.Failures
import Gosub.Proofs.Faults

/-!
# Why instructions fault

The exact conditions under which an instruction aborts the execution, and in which way (`Raises`): they are told by the
words on the stack, the outstanding calls, the destinations, the limit of the memory and the policy. An instruction that
has an encoding traps just as they say (`fails_iff`), and so does every step of a reachable machine that the budget
admits (`faults_exactly`). What takes a word before it puts one never lacks room, because no reachable machine holds
more than 1024 words.
-/

namespace Gosub

/-- How many words an operation takes from the stack. -/
def Operation.operands : Operation → Nat
  | .stop | .pc | .msize | .jumpdest | .beginsub | .returnsub => 0
  | .isZero | .pop | .mload | .jump | .jumpsub => 1
  | .add | .sub | .lt | .gt | .eq | .mstore | .mstore8 | .jumpi | .ret | .revert => 2

/-- Whether an operation neither jumps nor calls nor uses the memory, and is one under both policies. -/
def Operation.isQuiet : Operation → Bool
  | .mload | .mstore | .mstore8 | .jump | .jumpi | .jumpsub | .beginsub | .ret | .revert => false
  | _ => true

namespace Instruction

/-- How many words an instruction needs on the stack. -/
def operands : Instruction → Nat
  | op o => o.operands
  | push _ _ => 0
  | dup n => n
  | swap n => n + 1
  | invalid _ => 0

/-- Whether an instruction puts a word on the stack without taking one. -/
def grows : Instruction → Bool
  | push _ _ | dup _ | op .pc | op .msize => true
  | _ => false

/-- Where an instruction goes that jumps or calls with these words on the stack, top first. A jump whose condition is
zero is not taken. -/
def target? (i : Instruction) (words : List Word) : Option (DestinationKind × Word) :=
  match i with
  | op .jump => words.head?.map (.jump, ·)
  | op .jumpi => match words with
    | target :: condition :: _ => if condition = 0 then none else some (.jump, target)
    | _ => none
  | op .jumpsub => words.head?.map (.subroutine, ·)
  | _ => none

/-- The offset and the length of what an instruction accesses with these words on the stack, top first. -/
def range? (i : Instruction) (words : List Word) : Option (Word × Word) :=
  match i with
  | op .mload => words.head?.map (·, 32)
  | op .mstore => match words with
    | offset :: _ :: _ => some (offset, 32)
    | _ => none
  | op .mstore8 => match words with
    | offset :: _ :: _ => some (offset, 1)
    | _ => none
  | op .ret | op .revert => match words with
    | offset :: length :: _ => some (offset, length)
    | _ => none
  | _ => none

end Instruction

end Gosub

namespace Gosub.Causes

open Machine
open Gosub.Walk Gosub.Encoding Gosub.Decoding Gosub.Effects Gosub.Failures Gosub.Steps Gosub.Faults

variable {m : Machine} {i : Instruction} {trap : Trap} {code : Code} {config : Configuration}

/-- Why an instruction aborts the execution of a machine, and in which way. -/
@[mk_iff]
inductive Raises (m : Machine) (i : Instruction) : Trap → Prop
  | underflow : m.stack.size < i.operands → Raises m i .stackUnderflow
  | overflow : i.operands ≤ m.stack.size → i.grows = true → m.stack.size = 1024 → Raises m i .stackOverflow
  | destination (kind : DestinationKind) (target : Word) : i.target? m.stack.words = some (kind, target) →
      ¬ Names m.destinations kind target → Raises m i (.invalidDestination kind target)
  | returns (target : Word) : i.target? m.stack.words = some (.subroutine, target) →
      Names m.destinations .subroutine target → m.returns.outstanding = 1023 → Raises m i .returnStackOverflow
  /-- An empty range is always there. -/
  | access (offset length : Word) (e : MemoryError) : i.range? m.stack.words = some (offset, length) → length ≠ 0 →
      OutOfReach m.memory.limit offset length e → Raises m i (.invalidMemoryAccess e)
  | invalid (b : UInt8) : i = .invalid b → Raises m i (.invalidInstruction b)
  | entry : i = .op .beginsub → m.policy = .shared → Raises m i (.invalidInstruction 0xb5)

theorem raises_withBudget (budget : Budget) : Raises (m.withBudget budget) i trap ↔ Raises m i trap := by
  rw [raises_iff, raises_iff]
  rfl

/-! ## What an instruction can raise -/

/-- The instruction goes nowhere and leaves the memory alone, and both policies have it. -/
structure Quiet (i : Instruction) : Prop where
  stays : ∀ words, i.target? words = none
  untouched : ∀ words, i.range? words = none
  valid : ∀ b, i ≠ .invalid b
  entry : i ≠ .op .beginsub

theorem quiet_op {o : Operation} (quiet : o.isQuiet = true) : Quiet (.op o) := by
  cases o with
  | mload | mstore | mstore8 | jump | jumpi | jumpsub | beginsub | ret | revert => cases quiet
  | _ => exact ⟨fun _ => rfl, fun _ => rfl, by simp, by decide⟩

theorem raises_quiet (quiet : Quiet i) : Raises m i trap ↔ (m.stack.size < i.operands ∧ trap = .stackUnderflow) ∨
    (i.operands ≤ m.stack.size ∧ i.grows = true ∧ m.stack.size = 1024 ∧ trap = .stackOverflow) := by
  obtain ⟨stays, untouched, valid, entry⟩ := quiet
  simp [raises_iff, stays, untouched, valid, entry]

section

variable {x : Effect Flow}

/-- What only takes words, or puts one in the place of those it took, can only lack operands. -/
theorem fails_plain (quiet : Quiet i) (plain : i.grows = false)
    (fails : Fails m x trap ↔ m.stack.size < i.operands ∧ trap = .stackUnderflow) :
    Fails m x trap ↔ Raises m i trap := by
  rw [fails, raises_quiet quiet]
  simp [plain]

/-- What puts a word on the stack without an operand can only lack room. -/
theorem fails_free (quiet : Quiet i) (puts : i.grows = true) (free : i.operands = 0)
    (fails : Fails m x trap ↔ m.stack.size = 1024 ∧ trap = .stackOverflow) : Fails m x trap ↔ Raises m i trap := by
  rw [fails, raises_quiet quiet]
  simp [puts, free]

/-- What uses the memory can only lack operands or reach too far. -/
theorem fails_using {o : Operation} (plain : (Instruction.op o).grows = false)
    (stays : ∀ words, (Instruction.op o).target? words = none) (entry : o ≠ .beginsub)
    (fails : Fails m x trap ↔ m.stack.size < o.operands ∧ trap = .stackUnderflow ∨
      ∃ offset length, (Instruction.op o).range? m.stack.words = some (offset, length) ∧ length ≠ 0 ∧
        ∃ e, OutOfReach m.memory.limit offset length e ∧ trap = .invalidMemoryAccess e) :
    Fails m x trap ↔ Raises m (.op o) trap := by
  rw [fails, raises_iff]
  simp [Instruction.operands, plain, stays, entry]

/-- What jumps or calls can only lack operands, miss its destination, or lack room for a call. -/
theorem fails_going {o : Operation} (plain : (Instruction.op o).grows = false)
    (untouched : ∀ words, (Instruction.op o).range? words = none) (entry : o ≠ .beginsub)
    (fails : Fails m x trap ↔ m.stack.size < o.operands ∧ trap = .stackUnderflow ∨
      ∃ kind target, (Instruction.op o).target? m.stack.words = some (kind, target) ∧
        (¬ Names m.destinations kind target ∧ trap = .invalidDestination kind target ∨
          kind = .subroutine ∧ Names m.destinations kind target ∧ m.returns.outstanding = 1023 ∧
            trap = .returnStackOverflow)) :
    Fails m x trap ↔ Raises m (.op o) trap := by
  rw [fails, raises_iff]
  simp [Instruction.operands, plain, untouched, entry, and_or_left, exists_or]

end

/-! ## Instructions -/

/-- How many words and calls a machine holds at most. -/
structure Roomed (m : Machine) : Prop where
  size : m.stack.size ≤ 1024
  limit : m.stack.limit = 1024
  calls : m.returns.outstanding ≤ 1023

section

variable (roomed : Roomed m)

include roomed

theorem push_eq_error {w : Word} : m.stack.push w = .error trap ↔ m.stack.size = 1024 ∧ trap = .stackOverflow := by
  have size := roomed.size
  unfold Stack.push
  rw [roomed.limit]
  by_cases room : m.stack.size < 1024
  · have full : m.stack.size ≠ 1024 := Nat.ne_of_lt room
    simp [room, full]
  · have full : m.stack.size = 1024 := Nat.le_antisymm size (Nat.not_lt.1 room)
    simp [full, eq_comm]

theorem fails_putNext {w : Word} :
    Fails m (putWord w >>= fun _ => pure Flow.next) trap ↔ m.stack.size = 1024 ∧ trap = .stackOverflow :=
  fails_changeStack.trans (push_eq_error roomed)

/-- Where a word was taken there is room for one. -/
theorem fails_putBack {w : Word} {rest : List Word} {memory : Memory} (taken : rest.length < m.stack.size) :
    ¬ Fails { m.holding rest with memory } (putWord w >>= fun _ => pure Flow.next) trap := by
  have room : rest.length < 1024 := Nat.lt_of_lt_of_le taken roomed.size
  have still : Roomed { m.holding rest with memory } := ⟨Nat.le_of_lt room, roomed.limit, roomed.calls⟩
  rw [fails_putNext still]
  exact fun ⟨full, _⟩ => Nat.ne_of_lt room full

theorem fails_binary {f : Word → Word → Word} :
    Fails m (binary f) trap ↔ m.stack.size < 2 ∧ trap = .stackUnderflow := by
  refine fails_words.trans (or_iff_left ?_)
  rintro ⟨a, b, rest, held, full⟩
  exact fails_putBack roomed (by simp [Stack.size, held]) full

theorem fails_load : Fails m (Operation.execute .mload) trap ↔ (m.stack.size < 1 ∧ trap = .stackUnderflow) ∨
    ∃ offset rest, m.stack.words = offset :: rest ∧
      ∃ e, OutOfReach m.memory.limit offset 32 e ∧ trap = .invalidMemoryAccess e := by
  refine fails_word.trans (or_congr_right (exists₂_congr fun offset rest => and_congr_right fun held => ?_))
  refine fails_access.trans ((or_iff_left ?_).trans ?_)
  · rintro ⟨w, memory, -, full⟩
    exact fails_putBack roomed (by simp [Stack.size, held]) full
  · exact exists_congr fun e => and_congr_left fun _ => load_eq_error

end

theorem fails_store {store : Memory → Word → Word → Except MemoryError Memory} {length : Word}
    (refuses : ∀ {memory offset value e},
      store memory offset value = .error e ↔ OutOfReach memory.limit offset length e) :
    Fails m (do
      let offset ← takeWord
      let value ← takeWord
      changeMemory (store · offset value)
      return Flow.next) trap ↔ (m.stack.size < 2 ∧ trap = .stackUnderflow) ∨
        ∃ offset value rest, m.stack.words = offset :: value :: rest ∧
          ∃ e, OutOfReach m.memory.limit offset length e ∧ trap = .invalidMemoryAccess e := by
  simp only [fails_words, fails_changeMemory, refuses]
  rfl

theorem fails_output {halt : List UInt8 → Halt} :
    Fails m (do
      let offset ← takeWord
      let length ← takeWord
      return Flow.halt (halt (← access (·.read offset length)))) trap ↔
        (m.stack.size < 2 ∧ trap = .stackUnderflow) ∨
          ∃ offset length rest, m.stack.words = offset :: length :: rest ∧
            ∃ e, (length ≠ 0 ∧ OutOfReach m.memory.limit offset length e) ∧ trap = .invalidMemoryAccess e := by
  simp only [fails_words, fails_access, read_eq_error, fails_pure, and_false, exists_false, or_false]
  rfl

theorem fails_jump {target : Word} : Fails m (resolve .jump target >>= fun a => pure (Flow.jump a)) trap ↔
    ¬ Names m.destinations .jump target ∧ trap = .invalidDestination .jump target := by
  simp only [fails_resolve, fails_pure, and_false, exists_false, or_false]

theorem fails_branch {target condition : Word} :
    Fails m (if condition = 0 then pure Flow.next else resolve .jump target >>= fun a => pure (Flow.jump a)) trap ↔
      condition ≠ 0 ∧ ¬ Names m.destinations .jump target ∧ trap = .invalidDestination .jump target := by
  by_cases zero : condition = 0
  · simp [zero, fails_pure]
  · rw [if_neg zero, fails_jump]
    exact (and_iff_right zero).symm

theorem fails_call (calls : m.returns.outstanding ≤ 1023) {target : Word} :
    Fails m (do
      let entry ← resolve .subroutine target
      saveCall
      return Flow.jump entry) trap ↔
        (¬ Names m.destinations .subroutine target ∧ trap = .invalidDestination .subroutine target) ∨
          (Names m.destinations .subroutine target ∧ m.returns.outstanding = 1023 ∧ trap = .returnStackOverflow) := by
  have full : ReturnStack.callLimit ≤ m.returns.outstanding ↔ m.returns.outstanding = 1023 := by
    rw [ReturnStack.callLimit]
    omega
  have named : (∃ a, m.destinations.resolve? .subroutine target = some a) ↔
      Names m.destinations .subroutine target := by
    rw [← Option.ne_none_iff_exists', Ne, resolve?_eq_none, Classical.not_not]
  simp only [fails_resolve, fails_saveCall, full]
  rw [exists_and_right, named]

theorem fails_operation (roomed : Roomed m) (o : Operation) : Fails m o.execute trap ↔ Raises m (.op o) trap := by
  cases o with
  | add | sub | lt | gt | eq =>
    exact fails_plain (quiet_op rfl) rfl (fails_binary roomed)
  | stop | jumpdest =>
    exact fails_plain (quiet_op rfl) rfl (iff_of_false fails_pure fun short => Nat.not_lt_zero _ short.1)
  | returnsub =>
    refine fails_plain (quiet_op rfl) rfl (iff_of_false ?_ fun short => Nat.not_lt_zero _ short.1)
    rintro ⟨n, failed⟩
    cases failed
  | isZero =>
    refine fails_plain (quiet_op rfl) rfl (fails_word.trans (or_iff_left ?_))
    rintro ⟨a, rest, held, full⟩
    exact fails_putBack roomed (by simp [Stack.size, held]) full
  | pop =>
    rw [Operation.execute, discard_bind]
    refine fails_plain (quiet_op rfl) rfl (fails_word.trans (or_iff_left ?_))
    rintro ⟨a, rest, held, failed⟩
    exact fails_pure failed
  | pc | msize =>
    exact fails_free (quiet_op rfl) rfl rfl (fails_get.trans (fails_putNext roomed))
  | mload =>
    refine fails_using rfl (fun _ => rfl) (by decide) ((fails_load roomed).trans (or_congr_right ?_))
    rcases m.stack.words with _ | ⟨a, rest⟩ <;> simp [Instruction.range?]
  | mstore =>
    refine fails_using rfl (fun _ => rfl) (by decide) ((fails_store store_eq_error).trans (or_congr_right ?_))
    rcases m.stack.words with _ | ⟨a, _ | ⟨b, rest⟩⟩ <;> simp [Instruction.range?]
  | mstore8 =>
    refine fails_using rfl (fun _ => rfl) (by decide) ((fails_store store8_eq_error).trans (or_congr_right ?_))
    rcases m.stack.words with _ | ⟨a, _ | ⟨b, rest⟩⟩ <;> simp [Instruction.range?]
  | ret | revert =>
    refine fails_using rfl (fun _ => rfl) (by decide) (fails_output.trans (or_congr_right ?_))
    rcases m.stack.words with _ | ⟨a, _ | ⟨b, rest⟩⟩ <;> simp [Instruction.range?, and_assoc]
  | jump =>
    refine fails_going rfl (fun _ => rfl) (by decide) (fails_word.trans (or_congr_right ?_))
    simp only [fails_jump]
    rcases m.stack.words with _ | ⟨a, rest⟩ <;> simp [Instruction.target?, Machine.holding]
  | jumpi =>
    refine fails_going rfl (fun _ => rfl) (by decide) (fails_words.trans (or_congr_right ?_))
    simp only [fails_branch]
    rcases m.stack.words with _ | ⟨a, _ | ⟨b, rest⟩⟩ <;> simp [Instruction.target?, Machine.holding]
  | jumpsub =>
    refine fails_going rfl (fun _ => rfl) (by decide) (fails_word.trans (or_congr_right ?_))
    have calls (rest : List Word) : (m.holding rest).returns.outstanding ≤ 1023 := roomed.calls
    simp only [fails_call (calls _)]
    rcases m.stack.words with _ | ⟨a, rest⟩ <;> simp [Instruction.target?, Machine.holding]
  | beginsub =>
    refine fails_get.trans ?_
    cases policy : m.policy with
    | shared =>
      simp [fails_throw, raises_iff, policy, Instruction.operands, Operation.operands, Instruction.grows,
        Instruction.target?, Instruction.range?, Operation.byte]
    | distinct =>
      simp [fails_pure, raises_iff, policy, Instruction.operands, Operation.operands, Instruction.grows,
        Instruction.target?, Instruction.range?]

theorem swap_eq_error {s : Stack} {k : Nat} : s.swap k = .error trap ↔ s.size < k + 1 ∧ trap = .stackUnderflow := by
  obtain ⟨words, limit⟩ := s
  unfold Stack.swap Stack.peek? Stack.size
  cases words with
  | nil => simp [eq_comm]
  | cons top words =>
    cases found : (top :: words)[k]? with
    | none =>
      have short : (top :: words).length < k + 1 := Nat.lt_succ_iff.2 (List.getElem?_eq_none_iff.1 found)
      simp only [short, true_and, Except.error.injEq, eq_comm]
    | some w =>
      have enough : ¬ (top :: words).length < k + 1 := Nat.not_lt.2 (List.getElem?_eq_some_iff.1 found).1
      simp only [enough, false_and, reduceCtorEq]

theorem dup_eq_error (roomed : Roomed m) {k : Nat} (counted : 0 < k) : m.stack.dup k = .error trap ↔
    (m.stack.size < k ∧ trap = .stackUnderflow) ∨
      (k ≤ m.stack.size ∧ m.stack.size = 1024 ∧ trap = .stackOverflow) := by
  unfold Stack.dup Stack.peek?
  cases found : m.stack.words[k - 1]? with
  | none =>
    have short : m.stack.size < k := Nat.lt_of_le_sub_one counted (List.getElem?_eq_none_iff.1 found)
    have few : ¬ k ≤ m.stack.size := Nat.not_le.2 short
    simp [short, few, eq_comm]
  | some w =>
    have enough : k ≤ m.stack.size := Nat.le_of_pred_lt (List.getElem?_eq_some_iff.1 found).1
    have few : ¬ m.stack.size < k := Nat.not_lt.2 enough
    simp [enough, few, push_eq_error roomed]

/-- An instruction that has an encoding traps exactly as told. -/
theorem fails_iff (roomed : Roomed m) (encodable : Encodable i) : Fails m i.execute trap ↔ Raises m i trap := by
  cases i with
  | op o => exact fails_operation roomed o
  | push width value =>
    exact fails_free ⟨fun _ => rfl, fun _ => rfl, nofun, nofun⟩ rfl rfl (fails_putNext roomed)
  | dup k =>
    have quiet : Quiet (.dup k) := ⟨fun _ => rfl, fun _ => rfl, nofun, nofun⟩
    refine fails_changeStack.trans ((dup_eq_error roomed encodable.1).trans ?_)
    simp [raises_quiet quiet, Instruction.operands, Instruction.grows]
  | swap k =>
    exact fails_plain ⟨fun _ => rfl, fun _ => rfl, nofun, nofun⟩ rfl (fails_changeStack.trans swap_eq_error)
  | invalid b =>
    refine fails_throw.trans ?_
    simp [raises_iff, Instruction.operands, Instruction.grows, Instruction.target?, Instruction.range?]

/-! ## Steps -/

theorem outstanding_push {r pushed : ReturnStack} {callSite : Nat} (done : r.push callSite = .ok pushed) :
    pushed.outstanding ≤ ReturnStack.callLimit := by
  unfold ReturnStack.push at done
  split at done
  · next room =>
    cases done
    exact room
  · cases done

theorem calls_step (calls : m.returns.outstanding ≤ 1023) : m.step.returns.outstanding ≤ 1023 := by
  by_cases running : m.status = .running
  · cases (step_moves running).2 with
    | refused _ _ _ _ same | traps _ _ _ _ same | halts _ _ _ _ same | passes _ _ _ _ same | jumps _ _ _ _ same =>
      rw [same]
      exact calls
    | calls _ _ _ pushed => exact outstanding_push pushed
    | comesBack _ _ _ taken =>
      rw [taken, ReturnStack.outstanding, ReturnStack.calls_pop, List.length_tail]
      exact Nat.le_trans (Nat.sub_le _ _) calls
  · rw [step_ended running]
    exact calls

theorem reachable_calls (reachable : Reachable code config m) : m.returns.outstanding ≤ 1023 := by
  induction reachable with
  | start => exact Nat.zero_le 1023
  | withStack _ filled ih =>
    rw [(withStack_sameControl filled).returns]
    exact ih
  | withBudget _ _ ih => exact ih
  | step _ ih => exact calls_step ih

theorem reachable_roomed (reachable : Reachable code config m) : Roomed m := by
  obtain ⟨bounded, limit, -⟩ := reachable_limited reachable
  exact ⟨bounded.trans_eq limit, limit, reachable_calls reachable⟩

theorem fetch_eq_invalid {a : Nat} {b : UInt8} :
    code.fetch a = .invalid b ↔ code.byteAt a = b ∧ (Opcode.ofByte? b = none ∨ b = 0xfe) := by
  constructor
  · intro found
    have bytes := encode_fetch code a
    have encodable := encodable_fetch code a
    rw [found] at bytes encodable
    exact ⟨(List.head_eq_of_cons_eq bytes).symm, Or.symm encodable⟩
  · rintro ⟨rfl, unassigned | apart⟩
    · rw [fetch_eq, unassigned]
    · rw [fetch_eq, apart]
      rfl

/-- Once it is paid for, an instruction aborts the execution exactly if it traps. -/
theorem faulted_iff {budget : Budget} {fault : Fault} (running : m.status = .running)
    (charged : m.chargeFor m.next = .ok budget) :
    m.step.status = .faulted fault ↔ fault.pc = m.pc ∧ Fails (m.withBudget budget) m.next.execute fault.trap := by
  rw [step_charged running charged]
  unfold Fails
  cases ran : m.next.execute (m.withBudget budget) with
  | error trap n =>
    have pc : n.pc = m.pc := (execute_trapped ran).2.pc
    obtain ⟨address, cause⟩ := fault
    simp [settle, abort, pc, eq_comm]
  | ok flow n =>
    -- What completes goes on or halts, which is no fault.
    have status : n.status = .running := (execute_completed ran).status.trans running
    cases flow <;> simp [settle, moveOn, status]

/-- When and how the steps of a machine fault. -/
structure Exact (code : Code) (config : Configuration) (m : Machine) : Prop where
  words : m.stack.size ≤ 1024
  calls : m.returns.outstanding ≤ 1023
  limit : m.memory.limit = config.memoryLimit
  policy : m.policy = config.policy
  named : ∀ kind target, Names m.destinations kind target ↔
    target.toNat < addressBound ∧ (target.toNat, .op (markOf config.policy kind)) ∈ code.instructions
  /-- Bytes without an instruction are the unassigned ones and the one set apart. -/
  invalid : ∀ b, m.next = .invalid b ↔ code.byteAt m.pc = b ∧ (Opcode.ofByte? b = none ∨ b = 0xfe)
  faults : ∀ budget, m.status = .running → m.chargeFor m.next = .ok budget →
    ∀ fault, m.step.status = .faulted fault ↔ fault.pc = m.pc ∧ Raises m m.next fault.trap
  /-- A return never faults. -/
  returns : ∀ budget, m.status = .running → m.chargeFor m.next = .ok budget → m.next = .op .returnsub →
    m.step.status = .running

/-- In every reachable state the next instruction faults for the causes that are told, and for no other, once the budget
admits it. -/
theorem faults_exactly (reachable : Reachable code config m) : Exact code config m := by
  have roomed := reachable_roomed reachable
  have destinations := reachable_destinations reachable
  have program : m.code = code := congrArg Destinations.code destinations
  refine ⟨roomed.size, roomed.calls, (reachable_limited reachable).memory, ?_, ?_, ?_, ?_, ?_⟩
  · exact congrArg Destinations.policy destinations
  · intro kind target
    rw [Names, valid_iff_mark, destinations]
    rfl
  · intro b
    rw [Machine.next, program, fetch_eq_invalid]
  · intro budget running charged fault
    have encodable : Encodable m.next := encodable_fetch m.code m.pc
    have same : Roomed (m.withBudget budget) := { roomed with }
    rw [faulted_iff running charged, fails_iff same encodable, raises_withBudget]
  · intro budget running charged back
    rw [step_back running charged back]
    exact running

/-- With 64 bytes of memory, what `storeFar` stores would end 32 bytes beyond the limit, which is the one cause. -/
theorem storeFar_raises :
    ∃ m, Reachable storeFar ⟨.shared, 64⟩ m ∧ m.status = .running ∧ m.chargeFor m.next = .ok .unlimited ∧
      m.step.status = .faulted ⟨6, .invalidMemoryAccess (.limitExceeded 96 64)⟩ ∧
      Raises m (.op .mstore) (.invalidMemoryAccess (.limitExceeded 96 64)) := by
  have reachable : Reachable storeFar ⟨.shared, 64⟩ (start storeFar ⟨.shared, 64⟩).step.step.step :=
    .step (.step (.step .start))
  have running : (start storeFar ⟨.shared, 64⟩).step.step.step.status = .running := by decide +kernel
  have next : (start storeFar ⟨.shared, 64⟩).step.step.step.next = .op .mstore := by decide +kernel
  have charged : (start storeFar ⟨.shared, 64⟩).step.step.step.chargeFor (.op .mstore) = .ok .unlimited := by rfl
  have faulted : (start storeFar ⟨.shared, 64⟩).step.step.step.step.status =
      .faulted ⟨6, .invalidMemoryAccess (.limitExceeded 96 64)⟩ := by
    decide +kernel
  have told := faults_exactly reachable
  obtain ⟨-, raised⟩ := (told.faults .unlimited running (next ▸ charged) _).1 faulted
  rw [next] at raised
  exact ⟨_, reachable, running, next ▸ charged, faulted, raised⟩

end Gosub.Causes
