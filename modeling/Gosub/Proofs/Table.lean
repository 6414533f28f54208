import Gosub.Proofs.ControlFlow
import Gosub.Proofs.Faults

/-!
# The instruction table

What each instruction is for, row by row, in terms of a byte and of plain numbers (`Row`), and that a
step does nothing but what the row of its byte prescribes (`step_follows_table`).
-/

namespace Gosub

/-- What the rows of the table speak of. -/
structure View where
  pc : Nat
  /-- The data stack, top first, as numbers below `2 ^ 256`. -/
  stack : List Nat
  /-- The return stack, top first. -/
  returns : List Nat
  /-- The bytes of the memory, zero where nothing was stored. -/
  memory : Nat → UInt8
  size : Nat

namespace View

/-- The next instruction in line, with this stack. -/
def pass (v : View) (stack : List Nat) : View := { v with pc := v.pc + 1, stack }

/-- Some bytes of the memory. -/
def bytes (v : View) (start length : Nat) : List UInt8 := (List.range length).map fun i => v.memory (start + i)

/-- The size of the memory after an access that ends at `stop`: it grows to whole words, if it must. -/
def reach (v : View) (stop : Nat) : Nat := max v.size ((stop + 31) / 32 * 32)

end View

def Machine.view (m : Machine) : View where
  pc := m.pc
  stack := m.stack.words.map BitVec.toNat
  returns := m.returns.entries
  memory := m.memory.byteAt
  size := m.memory.size

end Gosub

namespace Gosub.Table

open Machine
open Gosub.Walk Gosub.Encoding Gosub.Effects Gosub.Steps Gosub.Results Gosub.Accesses Gosub.Faults Gosub.ControlFlow

variable {m n : Machine} {code : Code} {config : Configuration}

/-- The number whose bytes these are, the highest first. -/
def bigEndian (bytes : List UInt8) : Nat := Nat.ofDigits 256 (bytes.map UInt8.toNat).reverse

/-- What an instruction does that begins with a byte: what it leaves, and how it halts, if it does. What a
row does not name stays as it is. -/
inductive Row (d : Destinations) (v : View) : Nat → View → Option Halt → Prop
  | stop : Row d v 0x00 v (some .stop)
  | add {a b : Nat} {rest : List Nat} : v.stack = a :: b :: rest →
      Row d v 0x01 (v.pass ((a + b) % 2 ^ 256 :: rest)) none
  | sub {a b : Nat} {rest : List Nat} : v.stack = a :: b :: rest →
      Row d v 0x03 (v.pass ((2 ^ 256 - b + a) % 2 ^ 256 :: rest)) none
  | lt {a b : Nat} {rest : List Nat} : v.stack = a :: b :: rest →
      Row d v 0x10 (v.pass ((if a < b then 1 else 0) :: rest)) none
  | gt {a b : Nat} {rest : List Nat} : v.stack = a :: b :: rest →
      Row d v 0x11 (v.pass ((if a > b then 1 else 0) :: rest)) none
  | eq {a b : Nat} {rest : List Nat} : v.stack = a :: b :: rest →
      Row d v 0x14 (v.pass ((if a = b then 1 else 0) :: rest)) none
  | isZero {a : Nat} {rest : List Nat} : v.stack = a :: rest →
      Row d v 0x15 (v.pass ((if a = 0 then 1 else 0) :: rest)) none
  | pop {a : Nat} {rest : List Nat} : v.stack = a :: rest → Row d v 0x50 (v.pass rest) none
  | mload {offset : Nat} {rest : List Nat} : v.stack = offset :: rest →
      Row d v 0x51 { v.pass (bigEndian (v.bytes offset 32) :: rest) with size := v.reach (offset + 32) } none
  /-- The bytes of the value are stored, the highest first. -/
  | mstore {offset value : Nat} {rest : List Nat} : v.stack = offset :: value :: rest →
      Row d v 0x52 { v.pass rest with
        memory := fun a =>
          if offset ≤ a ∧ a < offset + 32 then UInt8.ofNat (value / 256 ^ (31 - (a - offset))) else v.memory a
        size := v.reach (offset + 32) } none
  | mstore8 {offset value : Nat} {rest : List Nat} : v.stack = offset :: value :: rest →
      Row d v 0x53 { v.pass rest with
        memory := fun a => if a = offset then UInt8.ofNat value else v.memory a
        size := v.reach (offset + 1) } none
  | jump {target : Nat} {rest : List Nat} : v.stack = target :: rest → d.isValid .jump target = true →
      Row d v 0x56 { v with pc := target, stack := rest } none
  | jumpi {target condition : Nat} {rest : List Nat} : v.stack = target :: condition :: rest → condition ≠ 0 →
      d.isValid .jump target = true → Row d v 0x57 { v with pc := target, stack := rest } none
  /-- Where it is not taken, the target may be anything. -/
  | jumpiNot {target : Nat} {rest : List Nat} : v.stack = target :: 0 :: rest → Row d v 0x57 (v.pass rest) none
  | pc : Row d v 0x58 (v.pass (v.pc % 2 ^ 256 :: v.stack)) none
  | msize : Row d v 0x59 (v.pass (v.size % 2 ^ 256 :: v.stack)) none
  | jumpdest : Row d v 0x5b (v.pass v.stack) none
  /-- The bytes behind the first, zero past the end of the code. -/
  | push {k : Nat} : 1 ≤ k → k ≤ 32 →
      Row d v (0x5f + k) { v with
        pc := v.pc + (k + 1)
        stack := bigEndian ((List.range k).map fun i => d.code.byteAt (v.pc + 1 + i)) :: v.stack } none
  | dup {k w : Nat} : 1 ≤ k → k ≤ 16 → v.stack[k - 1]? = some w → Row d v (0x7f + k) (v.pass (w :: v.stack)) none
  | swap {top w : Nat} {between rest : List Nat} : between.length < 16 → v.stack = top :: between ++ w :: rest →
      Row d v (0x90 + between.length) (v.pass (w :: between ++ top :: rest)) none
  | jumpsub {target : Nat} {rest : List Nat} : v.stack = target :: rest → d.isValid .subroutine target = true →
      Row d v 0xb3 { v with pc := target, stack := rest, returns := v.pc :: v.returns } none
  | beginsub : d.policy = .distinct → Row d v 0xb5 (v.pass v.stack) none
  | returnsub {site : Nat} {rest : List Nat} : v.returns = site :: rest →
      Row d v 0xb7 { v with pc := site + 1, returns := rest } none
  /-- An empty output touches no memory. -/
  | ret {offset length : Nat} {rest : List Nat} : v.stack = offset :: length :: rest →
      Row d v 0xf3 { v with stack := rest, size := if length = 0 then v.size else v.reach (offset + length) }
        (some (.ret (v.bytes offset length)))
  | revert {offset length : Nat} {rest : List Nat} : v.stack = offset :: length :: rest →
      Row d v 0xfd { v with stack := rest, size := if length = 0 then v.size else v.reach (offset + length) }
        (some (.revert (v.bytes offset length)))

/-! ## Bytes of instructions -/

/-- The instruction that begins with a byte at an address. -/
inductive Decodes (code : Code) (a : Nat) : Nat → Instruction → Prop
  | op (o : Operation) : Decodes code a o.byte.toNat (.op o)
  | push {k : Nat} : 1 ≤ k → k ≤ 32 → Decodes code a (0x5f + k) (.push k (code.immediate (a + 1) k))
  | dup {k : Nat} : 1 ≤ k → k ≤ 16 → Decodes code a (0x7f + k) (.dup k)
  | swap {k : Nat} : 1 ≤ k → k ≤ 16 → Decodes code a (0x8f + k) (.swap k)
  | invalid (b : UInt8) : Decodes code a b.toNat (.invalid b)

theorem decodes_fetch (code : Code) (a : Nat) : Decodes code a (code.byteAt a).toNat (code.fetch a) := by
  rw [fetch_eq]
  cases assigned : Opcode.ofByte? (code.byteAt a) with
  | none => exact .invalid _
  | some o =>
    rw [← byte_of_ofByte? assigned]
    have small {first k : Nat} (bound : first + k < 256) : (UInt8.ofNat (first + k)).toNat = first + k :=
      UInt8.toNat_ofNat_of_lt bound
    cases o with
    | op o => exact .op o
    | invalid => exact .invalid _
    | push k =>
      have byte : (Opcode.push k).byte.toNat = 0x5f + (k.val + 1) := by
        rw [Opcode.byte, small] <;> simp only [Opcode.firstPush] <;> omega
      rw [byte]
      exact .push (Nat.le_add_left 1 k.val) k.isLt
    | dup k =>
      have byte : (Opcode.dup k).byte.toNat = 0x7f + (k.val + 1) := by
        rw [Opcode.byte, small] <;> simp only [Opcode.firstDup] <;> omega
      rw [byte]
      exact .dup (Nat.le_add_left 1 k.val) k.isLt
    | swap k =>
      have byte : (Opcode.swap k).byte.toNat = 0x8f + (k.val + 1) := by
        rw [Opcode.byte, small] <;> simp only [Opcode.firstSwap] <;> omega
      rw [byte]
      exact .swap (Nat.le_add_left 1 k.val) k.isLt

/-! ## Instructions by their rows -/

/-- Where a flow leads from a machine that an instruction of this size left, and how it halts, if it does. -/
def landing (m : Machine) (size : Nat) (n : Machine) : Flow → View × Option Halt
  | .next => ({ n.view with pc := m.pc + size }, none)
  | .jump target => ({ n.view with pc := target }, none)
  | .halt h => (n.view, some h)

/-- Run on `m`, the effect does what a row prescribes, unless it traps. -/
def Follows (m : Machine) (byte size : Nat) (x : Effect Flow) : Prop :=
  Yields m x (fun flow n => Row m.destinations m.view byte (landing m size n flow).1 (landing m size n flow).2)
    fun _ _ => True

theorem toNat_ofBool (p : Prop) [Decidable p] : (Word.ofBool (decide p)).toNat = if p then 1 else 0 := by
  by_cases holds : p <;> simp [Word.ofBool, holds]

theorem view_stack {words : List Word} (held : m.stack.words = words) : m.view.stack = words.map BitVec.toNat :=
  congrArg (List.map BitVec.toNat) held

theorem follows_binary {byte : Nat} {f : Word → Word → Word}
    (row : ∀ a b : Word, ∀ rest, m.view.stack = a.toNat :: b.toNat :: rest →
      Row m.destinations m.view byte (m.view.pass ((f a b).toNat :: rest)) none) :
    Follows m byte 1 (binary f) := by
  refine yields_words (fun _ => trivial) (fun _ _ => trivial) fun a b rest held => ?_
  exact yields_putNext (fun _ => trivial) fun _ => row a b _ (view_stack held)

theorem follows_put {byte size : Nat} {w : Word}
    (row : Row m.destinations m.view byte
      { m.view with pc := m.pc + size, stack := w.toNat :: m.view.stack } none) :
    Follows m byte size (putWord w >>= fun _ => pure .next) :=
  yields_putNext (fun _ => trivial) fun _ => row

theorem resolve_eq_some {d : Destinations} {kind : DestinationKind} {target : Word} {a : Nat}
    (resolved : d.resolve? kind target = some a) : a = target.toNat ∧ d.isValid kind target.toNat = true := by
  obtain ⟨address, valid⟩ := Option.filter_eq_some_iff.1 resolved
  unfold Word.address? at address
  split at address
  · cases address
    exact ⟨rfl, valid⟩
  · cases address

theorem follows_output {byte : Nat} {halt : List UInt8 → Halt}
    (row : ∀ (offset length : Nat) (rest : List Nat), m.view.stack = offset :: length :: rest →
      Row m.destinations m.view byte
        { m.view with stack := rest, size := if length = 0 then m.view.size else m.view.reach (offset + length) }
        (some (halt (m.view.bytes offset length)))) :
    Follows m byte 1 (do
      let offset ← takeWord
      let length ← takeWord
      return Flow.halt (halt (← access (·.read offset length)))) := by
  refine yields_words (fun _ => trivial) (fun _ _ => trivial) fun offset length rest held => ?_
  refine yields_output (fun _ _ => trivial) fun output memory done => ?_
  obtain ⟨rfl, reads, -, size⟩ := read_eq_ok done
  show Row _ _ _ { m.view with stack := rest.map BitVec.toNat, memory := memory.byteAt, size := memory.size } _
  rw [reads, size]
  exact row offset.toNat length.toNat _ (view_stack held)

theorem follows_operation (o : Operation) (standing : o = .returnsub → m.returns.entries ≠ []) :
    Follows m o.byte.toNat 1 o.execute := by
  cases o with
  | stop => exact yields_pure .stop
  | add =>
    refine follows_binary fun a b rest held => ?_
    rw [BitVec.toNat_add]
    exact .add held
  | sub =>
    refine follows_binary fun a b rest held => ?_
    rw [BitVec.toNat_sub]
    exact .sub held
  | lt =>
    refine follows_binary fun a b rest held => ?_
    rw [toNat_ofBool]
    exact .lt held
  | gt =>
    refine follows_binary fun a b rest held => ?_
    rw [toNat_ofBool]
    exact .gt held
  | eq =>
    refine follows_binary fun a b rest held => ?_
    rw [toNat_ofBool]
    simp only [← BitVec.toNat_inj]
    exact .eq held
  | isZero =>
    refine yields_word (fun _ => trivial) fun a rest held => ?_
    refine yields_putNext (fun _ => trivial) fun _ => ?_
    have pushed : (Word.ofBool (decide (a = 0))).toNat = if a.toNat = 0 then 1 else 0 := by
      simp only [toNat_ofBool, ← BitVec.toNat_inj, BitVec.ofNat_eq_ofNat, BitVec.toNat_ofNat, Nat.zero_mod]
    show Row _ _ _ (m.view.pass ((Word.ofBool (decide (a = 0))).toNat :: rest.map BitVec.toNat)) none
    rw [pushed]
    exact .isZero (view_stack held)
  | pop =>
    exact yields_dropNext (fun _ => trivial) fun a rest held => .pop (view_stack held)
  | mload =>
    refine yields_word (fun _ => trivial) fun offset rest held => ?_
    refine yields_bind (yields_access (fun _ _ => trivial) fun w memory loaded => ?_)
    refine yields_putNext (fun _ => trivial) fun _ => ?_
    obtain ⟨value, touches, reads⟩ := load_eq_ok loaded
    show Row _ _ _ { m.view with
      pc := m.pc + 1, stack := w.toNat :: rest.map BitVec.toNat, memory := memory.byteAt, size := memory.size } _
    rw [value, reads, touches.size, natOfBytes_eq_ofDigits]
    exact .mload (view_stack held)
  | mstore =>
    refine yields_words (fun _ => trivial) (fun _ _ => trivial) fun offset value rest held => ?_
    refine yields_bind (yields_changeMemory (fun _ _ => trivial) fun memory stored => ?_)
    obtain ⟨touches, bytes⟩ := store_eq_ok stored
    show Row _ _ _ { m.view with
      pc := m.pc + 1, stack := rest.map BitVec.toNat, memory := memory.byteAt, size := memory.size } _
    rw [funext bytes, touches.size]
    exact .mstore (view_stack held)
  | mstore8 =>
    refine yields_words (fun _ => trivial) (fun _ _ => trivial) fun offset value rest held => ?_
    refine yields_bind (yields_changeMemory (fun _ _ => trivial) fun memory stored => ?_)
    obtain ⟨touches, bytes⟩ := store8_eq_ok stored
    show Row _ _ _ { m.view with
      pc := m.pc + 1, stack := rest.map BitVec.toNat, memory := memory.byteAt, size := memory.size } _
    rw [funext bytes, touches.size]
    exact .mstore8 (view_stack held)
  | jump =>
    refine yields_word (fun _ => trivial) fun target rest held => ?_
    refine yields_bind (yields_resolve (fun _ => trivial) fun a resolved => ?_)
    obtain ⟨rfl, valid⟩ := resolve_eq_some resolved
    exact .jump (view_stack held) valid
  | jumpi =>
    refine yields_words (fun _ => trivial) (fun _ _ => trivial) fun target condition rest held => ?_
    by_cases zero : condition = 0
    · rw [if_pos zero]
      subst zero
      exact .jumpiNot (view_stack held)
    · rw [if_neg zero]
      refine yields_bind (yields_resolve (fun _ => trivial) fun a resolved => ?_)
      obtain ⟨rfl, valid⟩ := resolve_eq_some resolved
      have taken : condition.toNat ≠ 0 := fun none => zero (BitVec.eq_of_toNat_eq none)
      exact .jumpi (view_stack held) taken valid
  | pc =>
    refine yields_bind (yields_get (follows_put ?_))
    rw [Word.ofNat, BitVec.toNat_ofNat]
    exact .pc
  | msize =>
    refine yields_bind (yields_get (follows_put ?_))
    rw [Word.ofNat, BitVec.toNat_ofNat]
    exact .msize
  | jumpdest => exact yields_pure .jumpdest
  | jumpsub =>
    refine yields_word (fun _ => trivial) fun target rest held => ?_
    refine yields_bind (yields_resolve (fun _ => trivial) fun entry resolved => ?_)
    refine yields_bind (yields_saveCall (fun _ _ => trivial) fun returns saved => ?_)
    obtain ⟨rfl, valid⟩ := resolve_eq_some resolved
    obtain rfl := ReturnStack.eq_of_push saved
    exact .jumpsub (view_stack held) valid
  | beginsub =>
    refine yields_bind (yields_get ?_)
    cases policy : m.policy with
    | shared => exact yields_throw trivial
    | distinct => exact yields_pure (.beginsub policy)
  | returnsub =>
    exact yields_bind (yields_takeCall (.returnsub (ReturnStack.entries_of_pop (standing rfl))))
  | ret => exact follows_output fun _ _ _ => .ret
  | revert => exact follows_output fun _ _ _ => .revert

theorem follows_push {k : Nat} (least : 1 ≤ k) (most : k ≤ 32) :
    Follows m (0x5f + k) (k + 1) (Instruction.push k (m.code.immediate (m.pc + 1) k)).execute := by
  refine follows_put ?_
  have value : (m.code.immediate (m.pc + 1) k).toNat =
      bigEndian ((List.range k).map fun i => m.code.byteAt (m.pc + 1 + i)) := by
    have small := natOfBytes_lt ((List.range k).map fun i => m.code.byteAt (m.pc + 1 + i))
    rw [List.length_map, List.length_range] at small
    rw [bigEndian, ← natOfBytes_eq_ofDigits, Code.immediate, Word.ofNat, BitVec.toNat_ofNat]
    exact Nat.mod_eq_of_lt (small.trans_le (Nat.pow_le_pow_right (by decide) most))
  rw [value]
  exact .push least most

theorem follows_dup {k : Nat} (least : 1 ≤ k) (most : k ≤ 16) :
    Follows m (0x7f + k) 1 (Instruction.dup k).execute := by
  refine yields_bind (yields_changeStack (fun _ _ => trivial) fun stack copied => ?_)
  obtain ⟨w, found, -, rfl⟩ := Stack.eq_of_dup copied
  have found : m.view.stack[k - 1]? = some w.toNat := by
    show (m.stack.words.map BitVec.toNat)[k - 1]? = _
    rw [List.getElem?_map, found, Option.map_some]
  exact .dup least most found

theorem follows_swap {k : Nat} (least : 1 ≤ k) (most : k ≤ 16) :
    Follows m (0x8f + k) 1 (Instruction.swap k).execute := by
  refine yields_bind (yields_changeStack (fun _ _ => trivial) fun stack exchanged => ?_)
  obtain ⟨top, words, w, held, found, rfl⟩ := Stack.eq_of_swap exchanged
  obtain ⟨k, rfl⟩ := Nat.exists_eq_add_of_le' least
  rw [held, List.getElem?_cons_succ] at found
  obtain ⟨inside, rfl⟩ := List.getElem?_eq_some_iff.1 found
  obtain ⟨between, rest, split, rfl, set⟩ :
      ∃ between rest, words = between ++ words[k] :: rest ∧ between.length = k ∧
        words.set k top = between ++ top :: rest :=
    List.exists_of_set inside
  generalize words[between.length] = w at split set
  have stack : m.view.stack = top.toNat :: between.map BitVec.toNat ++ w.toNat :: rest.map BitVec.toNat := by
    rw [view_stack held, split]
    simp
  have exchanged : ((w :: words).set (between.length + 1) top).map BitVec.toNat =
      w.toNat :: between.map BitVec.toNat ++ top.toNat :: rest.map BitVec.toNat := by
    rw [List.set_cons_succ, set]
    simp
  have byte : 0x8f + (between.length + 1) = 0x90 + (between.map BitVec.toNat).length := by
    rw [List.length_map, Nat.add_comm between.length 1, ← Nat.add_assoc]
  show Row _ _ _ (m.view.pass (((w :: words).set (between.length + 1) top).map BitVec.toNat)) none
  rw [exchanged, byte]
  refine .swap ?_ stack
  rw [List.length_map]
  omega

/-- Every instruction does what the row of its byte prescribes, unless it traps. -/
theorem follows_execute {byte : Nat} {i : Instruction} (decodes : Decodes m.code m.pc byte i)
    (standing : i = .op .returnsub → m.returns.entries ≠ []) : Follows m byte i.size i.execute := by
  cases decodes with
  | op o => exact follows_operation o fun back => standing (congrArg Instruction.op back)
  | push least most => exact follows_push least most
  | dup least most => exact follows_dup least most
  | swap least most => exact follows_swap least most
  | invalid b => exact yields_throw trivial

/-! ## Steps by their rows -/

/-- What a step without a fault does besides: it keeps the rest of the machine, and it counts what it
executed unless that halts. -/
structure Accounts (m n : Machine) : Prop where
  destinations : n.destinations = m.destinations
  stackLimit : n.stack.limit = m.stack.limit
  memoryLimit : n.memory.limit = m.memory.limit
  codeSize : n.returns.codeSize = m.returns.codeSize
  budget : m.chargeFor m.next = .ok n.budget
  counted : n.status = .running → n.steps = m.steps + 1 ∧ n.cost = m.cost + m.next.cost
  uncounted : n.status ≠ .running → n.steps = m.steps ∧ n.cost = m.cost

/-- A return finds something on the return stack: where that is empty, execution is past the end. -/
theorem reachable_standing (reachable : Reachable code config m) (back : m.next = .op .returnsub) :
    m.returns.entries ≠ [] := by
  intro empty
  obtain ⟨-, noSentinel⟩ := List.append_eq_nil_iff.1 empty
  rcases reachable_sentinel reachable with sentinel | outside
  · rw [ReturnStack.sentinel, if_pos sentinel] at noSentinel
    cases noSentinel
  · rw [next, fetch_outside outside] at back
    cases back

/-- A step of a reachable machine that does not fault does what the row of its byte prescribes, and nothing
else: bytes past the end of the code are zero. -/
theorem step_follows_table (reachable : Reachable code config m) (running : m.status = .running)
    (faultless : ∀ fault, m.step.status ≠ .faulted fault) :
    Row (code.destinations config.policy) m.view (code.byteAt m.pc).toNat m.step.view m.step.halt? ∧
      Accounts m m.step := by
  obtain ⟨budget, flow, n, charged, ran, step⟩ := step_completed running faultless
  obtain ⟨rfl, sound⟩ := reachable_sound reachable
  have codeSize : m.step.returns.codeSize = m.returns.codeSize := by
    rw [(step_sound sound).codeSize, step_code, sound.codeSize]
  have row : Row m.destinations m.view (m.code.byteAt m.pc).toNat (landing m m.next.size n flow).1
      (landing m m.next.size n flow).2 :=
    (follows_execute (m := m.withBudget budget) (decodes_fetch m.code m.pc) (reachable_standing reachable)).of_ok ran
  have bounded := reachable_bounded reachable
  have within := (confined_execute (m := m.withBudget budget) bounded m.next).of_ok ran
  have same := execute_completed ran
  have status : n.status = .running := same.status.trans running
  have spent : m.chargeFor m.next = .ok n.budget := charged.trans (congrArg Except.ok same.budget.symm)
  -- The budget is no part of what is seen of `m`, so its own row is that of the machine with the budget charged.
  rw [← reachable_destinations reachable]
  rw [step] at codeSize ⊢
  cases flow with
  | next | jump _ =>
    have goesOn (a : Nat) : (n.moveOn m.next a).halt? = none := by
      unfold halt?
      rw [show (n.moveOn m.next a).status = .running from status]
    refine ⟨?_, same.destinations, within.stackLimit, within.memoryLimit, codeSize, spent, fun _ => ?_, ?_⟩
    · exact (goesOn _).symm ▸ row
    · exact ⟨congrArg (· + 1) same.steps, congrArg (· + m.next.cost) same.cost⟩
    · exact fun ended => absurd status ended
  | halt h =>
    refine ⟨row, same.destinations, within.stackLimit, within.memoryLimit, codeSize, spent, fun ended => ?_, ?_⟩
    · cases ended
    · exact fun _ => ⟨same.steps, same.cost⟩

/-- With room enough, `storeFar` stores its word in the 32 bytes before 96. -/
theorem storeFar_row :
    ∃ m, Reachable storeFar ⟨.shared, 128⟩ m ∧ m.view.stack = [64, 1, 7] ∧ m.view.size = 0 ∧
      m.step.view.stack = [7] ∧ m.step.view.size = 96 ∧ m.step.view.bytes 93 4 = [0, 0, 1, 0] ∧
      Row (storeFar.destinations .shared) m.view 0x52 m.step.view none ∧ Accounts m m.step := by
  have reachable : Reachable storeFar ⟨.shared, 128⟩ (start storeFar ⟨.shared, 128⟩).step.step.step :=
    .step (.step (.step .start))
  have running : (start storeFar ⟨.shared, 128⟩).step.step.step.status = .running := by decide +kernel
  have goesOn : (start storeFar ⟨.shared, 128⟩).step.step.step.step.status = .running := by decide +kernel
  have byte : (storeFar.byteAt (start storeFar ⟨.shared, 128⟩).step.step.step.pc).toNat = 0x52 := by decide +kernel
  have halt : (start storeFar ⟨.shared, 128⟩).step.step.step.step.halt? = none := by decide +kernel
  have follows := step_follows_table reachable running fun fault faulted => by
    rw [goesOn] at faulted
    cases faulted
  rw [byte, halt] at follows
  refine ⟨_, reachable, ?_, ?_, ?_, ?_, ?_, follows⟩
  · decide +kernel
  · decide +kernel
  · decide +kernel
  · decide +kernel
  · decide +kernel

end Gosub.Table
