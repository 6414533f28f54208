import Mathlib.Tactic.Positivity
import Gosub.Proofs.Disassembly
import Gosub.Proofs.Problems
import Gosub.Proofs.Results
import Gosub.Proofs.Steps

/-!
# Widths of pushes

A push of a number has the last bytes of the word, and a bare push has just as many as the number needs. Whatever
program the push stands in, the same word is read back from these bytes, and executing them puts it on the stack; a
wider push does the same, and a narrower one is refused (`push_minimal`).
-/

namespace Gosub.Widths

open Machine
open Gosub.Effects Gosub.Walk Gosub.Encoding Gosub.Decoding Gosub.Assembling Gosub.Grammar Gosub.Parsing
  Gosub.Disassembly Gosub.Problems Gosub.Steps

variable {m : Machine} {code : Code} {value : Word} {width k address : Nat} {s : Statement} {literal : NumberLiteral}
  {p : Program} {a : Assembled} {source mnemonic spelling : String}

/-! ## The bytes of a word -/

/-- Fewer bytes of a number are the last ones of more. -/
theorem drop_bytesOfNat (short : k ≤ width) (n : Nat) : (bytesOfNat width n).drop (width - k) = bytesOfNat k n := by
  induction width generalizing k n with
  | zero =>
    obtain rfl : k = 0 := Nat.le_zero.1 short
    rfl
  | succ width ih =>
    cases k with
    | zero => simp [bytesOfNat, length_bytesOfNat]
    | succ k =>
      have inside : width - k ≤ (bytesOfNat width (n / 256)).length := by
        rw [length_bytesOfNat]
        exact Nat.sub_le width k
      rw [bytesOfNat, bytesOfNat, Nat.add_sub_add_right, List.drop_append_of_le_length inside,
        ih (Nat.le_of_succ_le_succ short)]

theorem drop_toBytes (short : k ≤ Word.size) (value : Word) :
    value.toBytes.drop (Word.size - k) = bytesOfNat k value.toNat :=
  drop_bytesOfNat short _

/-- The narrowest push has a byte even for zero, which would need none. -/
theorem byteLength_le_or_zero (value : Word) (k : Nat) :
    value.byteLength ≤ k ∨ value = 0 ↔ value.toNat < 256 ^ k := by
  constructor
  · rintro (wide | rfl)
    · exact byteCount_le_iff.1 ((le_max_right _ _).trans wide)
    · exact Nat.pow_pos (by decide)
  · intro fits
    rcases Nat.eq_zero_or_pos k with rfl | positive
    · exact .inr (BitVec.eq_of_toNat_eq (Nat.lt_one_iff.1 fits))
    · exact .inl ((byteLength_le_iff positive).2 fits)

/-- The last bytes of a word stand for the word as long as the bytes in front are zero. -/
theorem ofBytes?_drop (short : k ≤ Word.size) (value : Word) :
    Word.ofBytes? (value.toBytes.drop (Word.size - k)) = some value ↔ value.byteLength ≤ k ∨ value = 0 := by
  have below : value.toNat % 256 ^ k < 2 ^ 256 := (Nat.mod_le _ _).trans_lt value.isLt
  rw [byteLength_le_or_zero, drop_toBytes short, Word.ofBytes?, length_bytesOfNat, if_pos short,
    natOfBytes_bytesOfNat_mod, Option.some.injEq, ← BitVec.toNat_inj, Word.ofNat, BitVec.toNat_ofNat,
    Nat.mod_eq_of_lt below, Nat.mod_eq_iff_lt (by positivity)]

/-! ## Executing a push -/

/-- A push that the budget allows and that finds room puts its word on the stack and goes on behind its bytes. -/
theorem step_push {budget : Budget} (running : m.status = .running) (next : m.next = .push width value)
    (charged : m.chargeFor m.next = .ok budget) (room : m.stack.size < m.stack.limit) :
    m.step = ((m.withBudget budget).holding (value :: m.stack.words)).moveOn m.next (m.pc + m.next.size) := by
  have pushed : (m.withBudget budget).stack.push value = .ok { m.stack with words := value :: m.stack.words } :=
    if_pos room
  have executed : m.next.execute (m.withBudget budget) =
      .ok .next ((m.withBudget budget).holding (value :: m.stack.words)) := by
    rw [next, Instruction.execute, bind_run, putWord, changeStack, pushed]
    rfl
  rw [step_charged running charged, executed]
  rfl

/-- The code has a push of the word at the address, in so many bytes. -/
structure Puts (code : Code) (address width : Nat) (value : Word) : Prop where
  decoded : (address, .push width value) ∈ code.instructions
  fetched : code.fetch address = .push width value
  bytes : bytesFrom code (address + 1) width = value.toBytes.drop (Word.size - width)
  /-- A machine that gets there puts the word on its stack, if its budget allows that and the stack has room. -/
  executed : ∀ (m : Machine) (budget : Budget), m.code = code → m.pc = address → m.status = .running →
    m.chargeFor (.push width value) = .ok budget → m.stack.size < m.stack.limit →
    m.step.stack.words = value :: m.stack.words ∧ m.step.pc = address + (width + 1) ∧ m.step.status = .running

theorem puts_of_decoded (decoded : (address, .push width value) ∈ code.instructions) :
    Puts code address width value := by
  have fetched : code.fetch address = .push width value := (mem_instructions decoded).2.symm
  have encodable := encodable_fetch code address
  have bytes := encode_fetch code address
  rw [fetched] at encodable bytes
  obtain ⟨positive, most, -⟩ := encodable
  refine ⟨decoded, fetched, ?_, ?_⟩
  · obtain ⟨n, rfl⟩ := exists_index positive most
    rw [encode_push, Instruction.size, bytesFrom_succ] at bytes
    rw [drop_toBytes most]
    exact (List.cons.inj bytes).2.symm
  · rintro m budget rfl rfl running charged room
    have next : m.next = .push width value := fetched
    rw [← next] at charged
    rw [step_push running next charged room, next]
    exact ⟨rfl, rfl, running⟩

/-! ## Statements -/

/-- A push of a number by its width takes the number if it fits, and is too narrow otherwise. -/
theorem instruction_number (given : s.argument = some (.number literal)) (labels : Labels) (n : Fin 32) :
    s.instruction labels (.push n) = if n.val + 1 < literal.value.byteLength
      then .error (.literalTooLarge literal.value (n.val + 1) literal.spelling)
      else .ok (.push (n.val + 1) literal.value) := by
  simp [Statement.instruction, given, Argument.value, Argument.fragment, bind, Except.bind]

/-- The opcode of a push of a number, by the width that its name asks for or that the number needs. -/
theorem opcode_of_push {n : Fin 32} (given : s.argument = some (.number literal))
    (named : Named s (Opcode.push n).mnemonic ∨ Named s "push" ∧ n.val + 1 = literal.value.byteLength) :
    s.opcode = .ok (.push n) := by
  have takes : Takes s (n.val + 1) := by
    rcases named with named | ⟨bare, same⟩
    · exact .push named given
    · exact same ▸ .bareNumber bare given
  obtain ⟨o, chosen, size⟩ := opcode_of_takes takes
  have immediate : 0 < o.immediateSize := by omega
  obtain ⟨j, rfl⟩ := push_of_immediate immediate
  obtain rfl : j = n := Fin.ext (Nat.succ.inj size)
  exact chosen

theorem compiles_push {n : Fin 32} (given : s.argument = some (.number literal))
    (named : Named s (Opcode.push n).mnemonic ∨ Named s "push" ∧ n.val + 1 = literal.value.byteLength)
    (wide : literal.value.byteLength ≤ n.val + 1) : Compiles s (.push (n.val + 1) literal.value) := by
  refine ⟨.push n, opcode_of_push given named, Nat.add_comm _ _, fun labels => ?_⟩
  rw [instruction_number given, if_neg (Nat.not_lt.2 wide)]

theorem compiles_bare (bare : Named s "push") (given : s.argument = some (.number literal)) :
    Compiles s (.push literal.value.byteLength literal.value) := by
  obtain ⟨n, -, size⟩ := push?_byteLength literal.value
  rw [← size]
  exact compiles_push given (.inr ⟨bare, size⟩) size.ge

/-! ## Sources of one statement -/

/-- The source has a lone statement, which is a mnemonic and a number. -/
def Lone (source mnemonic spelling : String) (value : Word) : Prop :=
  ∃ comment, Grammar.Form ⟨[], some (mnemonic, some (.number spelling value)), comment⟩ source.toList

theorem parse_lone (lone : Lone source mnemonic spelling value) : ∃ p s offset, Program.parse source = .ok p ∧
    p.items = [.statement s] ∧ s.mnemonic.text = mnemonic ∧
      s.argument = some (.number ⟨⟨offset, spelling⟩, value⟩) := by
  obtain ⟨comment, form⟩ := lone
  have single : sourceLines source.toList = [source.toList] :=
    sourceLines_last fun feed => (inLine_form form _ feed).1 rfl
  have forms := List.Forall₂.cons form .nil
  rw [← single] at forms
  obtain ⟨⟨lines⟩, read, said⟩ := (parse_iff source _).2 forms
  obtain ⟨⟨labels, statement, remark⟩, rfl, content⟩ := List.map_eq_singleton_iff.1 said
  simp only [Line.content, Line.Content.mk.injEq, List.map_eq_nil_iff, Option.map_eq_some_iff] at content
  obtain ⟨rfl, ⟨⟨name, argument⟩, rfl, statementIs⟩, -⟩ := content
  obtain ⟨named, given⟩ := Prod.mk.inj statementIs
  obtain ⟨argument, rfl, numberIs⟩ := Option.map_eq_some_iff.1 given
  cases argument with
  | label _ => cases numberIs
  | number literal =>
    obtain ⟨rfl, rfl⟩ := Argument.Content.number.inj numberIs
    exact ⟨_, _, _, read, rfl, named, rfl⟩

theorem assemble_of_compiles {i : Instruction} (read : Program.parse source = .ok p) (items : p.items = [.statement s])
    (compiles : Compiles s i) : assemble source = .ok ⟨.ofList i.encode, .empty⟩ := by
  have single : p.items = [s].map .statement := items
  have compiled := compile_of_compiles single (.cons compiles .nil)
  rw [encodeAll, List.flatMap_singleton] at compiled
  simp only [assemble, read, compiled]

theorem assemble_of_refused {o : Opcode} {e : CompileError} (read : Program.parse source = .ok p)
    (items : p.items = [.statement s]) (chosen : s.opcode = .ok o)
    (refused : ∀ labels, s.instruction labels o = .error e) : assemble source = .error (.uncompilable e) := by
  have compiled : p.compile = .error e := by
    simp [Program.compile, Program.compilation, Program.layout, items, placeFrom, chosen, emit, refused,
      Compilation.result]
  simp only [assemble, read, compiled]

/-! ## Programs -/

theorem exists_instruction (faithful : Faithful p a) (stated : (statements p)[k]? = some s) :
    ∃ q, a.code.instructions[k]? = some q ∧ Asks a.labels s q.2 := by
  have asked := faithful.instructions
  have inside := (List.getElem?_eq_some_iff.1 stated).1
  have insideToo : k < (a.code.instructions.map (·.2)).length := asked.length_eq ▸ inside
  have asks := asked.get inside insideToo
  rw [List.length_map] at insideToo
  refine ⟨a.code.instructions[k], List.getElem?_eq_getElem insideToo, ?_⟩
  simpa [(List.getElem?_eq_some_iff.1 stated).2] using asks

/-- The instruction that a statement asks for to push a number has the number, and the width that its name says or
that the number needs. -/
theorem asks_push {labels : Labels} {i : Instruction} (asked : Asks labels s i)
    (given : s.argument = some (.number literal)) : ∃ n : Fin 32, i = .push (n.val + 1) literal.value ∧
      (Named s (Opcode.push n).mnemonic ∨ Named s "push" ∧ n.val + 1 = literal.value.byteLength) := by
  cases asked with
  | plain _ _ none => cases none.symm.trans given
  | @push n argument value named same denotes =>
    cases same.symm.trans given
    cases denotes
    exact ⟨n, rfl, .inl (ofMnemonic?_eq_some.1 named)⟩
  | @bareNumber other bare same =>
    cases same.symm.trans given
    obtain ⟨n, -, size⟩ := push?_byteLength literal.value
    exact ⟨n, by rw [size], .inr ⟨bare, size⟩⟩
  | bareLabel _ same _ => cases same.symm.trans given

/-- A statement of the program, with so many before it, pushes the number under this name. -/
def PushesAt (p : Program) (k : Nat) (name : String) (value : Word) : Prop :=
  ∃ s literal, (statements p)[k]? = some s ∧ Named s name ∧ s.argument = some (.number literal) ∧ literal.value = value

/-- The instruction of the code with so many before it pushes the word, in so many bytes. -/
def PutsAt (code : Code) (k width : Nat) (value : Word) : Prop :=
  ∃ address, code.instructions[k]? = some (address, .push width value) ∧ Puts code address width value

/-- The statement of a program that pushes a number becomes a push of this number, which is wide enough for it. -/
theorem putsAt_of_compile (compiled : p.compile = .ok a) (stated : (statements p)[k]? = some s)
    (given : s.argument = some (.number literal)) : ∃ n : Fin 32, PutsAt a.code k (n.val + 1) literal.value ∧
      literal.value.byteLength ≤ n.val + 1 ∧
      (Named s (Opcode.push n).mnemonic ∨ Named s "push" ∧ n.val + 1 = literal.value.byteLength) := by
  obtain ⟨⟨address, i⟩, found, asked⟩ := exists_instruction (faithful_of_compile compiled) stated
  obtain ⟨n, rfl, named⟩ := asks_push asked given
  have decoded := List.mem_of_getElem? found
  have fits : literal.value.toNat < 256 ^ (n.val + 1) :=
    (encodable_instructions a.code _ (List.mem_map_of_mem decoded)).2.2
  exact ⟨n, ⟨address, found, puts_of_decoded decoded⟩, (byteLength_le_iff (Nat.le_add_left 1 n.val)).2 fits, named⟩

/-- How pushes of a number are encoded, read back and executed. -/
structure Minimal (value : Word) : Prop where
  /-- The number fits in so many bytes as a bare push has, which are at most 32, and in no fewer. -/
  narrowest : 1 ≤ value.byteLength ∧ value.byteLength ≤ 32 ∧
    ∀ width, 1 ≤ width → (value.toNat < 256 ^ width ↔ value.byteLength ≤ width)
  bare : ∀ p a k, PushesAt p k "push" value → Program.compile p = .ok a → PutsAt a.code k value.byteLength value
  /-- A push by its width has just this width, and with a narrower one there is no program. -/
  given : ∀ p a k (n : Fin 32), PushesAt p k (Opcode.push n).mnemonic value → Program.compile p = .ok a →
    value.byteLength ≤ n.val + 1 ∧ PutsAt a.code k (n.val + 1) value
  /-- By itself a bare push is always assembled, -/
  alone : ∀ source mnemonic spelling, Lone source mnemonic spelling value → Opcode.foldCase mnemonic = "push" →
    assemble source = .ok ⟨.ofList (Instruction.push value.byteLength value).encode, .empty⟩
  /-- and so is one by its width that is wide enough. -/
  accepted : ∀ source mnemonic spelling (n : Fin 32), Lone source mnemonic spelling value →
    Opcode.foldCase mnemonic = (Opcode.push n).mnemonic → value.byteLength ≤ n.val + 1 →
    assemble source = .ok ⟨.ofList (Instruction.push (n.val + 1) value).encode, .empty⟩
  rejected : ∀ source mnemonic spelling (n : Fin 32), Lone source mnemonic spelling value →
    Opcode.foldCase mnemonic = (Opcode.push n).mnemonic → n.val + 1 < value.byteLength →
    ∃ offset, assemble source = .error (.uncompilable (.literalTooLarge value (n.val + 1) ⟨offset, spelling⟩))
  /-- What is assembled of it puts the word on an empty stack. -/
  executed : ∀ width config, value.byteLength ≤ width → width ≤ 32 →
    (start (.ofList (Instruction.push width value).encode) config).step.stack.words = [value]
  slices : ∀ k ≤ Word.size, Word.ofBytes? (value.toBytes.drop (Word.size - k)) = some value ↔
    value.byteLength ≤ k ∨ value = 0

theorem step_start {config : Configuration} (wide : value.byteLength ≤ width) (most : width ≤ 32) :
    (start (.ofList (Instruction.push width value).encode) config).step.stack.words = [value] := by
  have positive : 1 ≤ width := (le_max_left _ _).trans wide
  have encodable : Encodable (.push width value) := ⟨positive, most, (byteLength_le_iff positive).1 wide⟩
  have fetched := fetch_encode [] [] encodable
  rw [List.nil_append, List.append_nil] at fetched
  have next : (start (.ofList (Instruction.push width value).encode) config).next = .push width value := fetched
  have free : (start (.ofList (Instruction.push width value).encode) config).chargeFor (.push width value) =
      .ok .unlimited := rfl
  have room : (0 : Nat) < Stack.machineLimit := by decide
  rw [← next] at free
  rw [step_push rfl next free room]
  rfl

/-- Every number is pushed in as few bytes as it needs, at least one, or in as many as the program asks for, as long as
it fits; and it is the same number that is pushed. -/
theorem push_minimal (value : Word) : Minimal value := by
  obtain ⟨widest, -, size⟩ := push?_byteLength value
  refine ⟨⟨le_max_left _ _, size ▸ widest.isLt, fun width positive => (byteLength_le_iff positive).symm⟩,
    ?_, ?_, ?_, ?_, ?_, fun width config => step_start, fun k short => ofBytes?_drop short value⟩
  · rintro p a k ⟨s, literal, stated, bare, given, rfl⟩ compiled
    obtain ⟨n, puts, -, named | ⟨-, same⟩⟩ := putsAt_of_compile compiled stated given
    · exact absurd bare (not_bare_of_named named)
    · exact same ▸ puts
  · rintro p a k n ⟨s, literal, stated, named, given, rfl⟩ compiled
    obtain ⟨j, puts, wide, other | ⟨bare, -⟩⟩ := putsAt_of_compile compiled stated given
    · obtain rfl : j = n := Opcode.push.inj (named_unique named other)
      exact ⟨wide, puts⟩
    · exact absurd bare (not_bare_of_named named)
  · intro source mnemonic spelling lone bare
    obtain ⟨p, s, offset, read, items, rfl, given⟩ := parse_lone lone
    exact assemble_of_compiles read items (compiles_bare bare given)
  · intro source mnemonic spelling n lone named wide
    obtain ⟨p, s, offset, read, items, rfl, given⟩ := parse_lone lone
    exact assemble_of_compiles read items (compiles_push given (.inl named) wide)
  · intro source mnemonic spelling n lone named narrow
    obtain ⟨p, s, offset, read, items, rfl, given⟩ := parse_lone lone
    refine ⟨offset, assemble_of_refused read items (opcode_of_push given (.inl named)) fun labels => ?_⟩
    rw [instruction_number given, if_pos narrow]

example : assemble "push 0x0100 ; two bytes" = .ok ⟨.ofList [0x61, 0x01, 0x00], .empty⟩ := by
  with_unfolding_all rfl

end Gosub.Widths
