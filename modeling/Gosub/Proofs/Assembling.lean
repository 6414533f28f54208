import Mathlib.Data.List.Nodup
import Mathlib.Data.String.Basic
import Gosub.Assembly.Emission
import Gosub.Proofs.Encoding

/-!
# Assembling

What is assembled decodes to what was written: one instruction for each statement, at the address
that the layout gave it (`assembled_faithful`). The two passes agree because an instruction is as long
as the layout took its opcode to be (`instruction_asked`), and decoding agrees with both because the
instructions emitted have encodings of their own.
-/

namespace Gosub.Assembling

open Gosub.Walk Gosub.Encoding

variable {labels : Labels} {s : Statement} {o : Opcode} {i : Instruction}

/-! ## Mnemonics -/

theorem mem_all (o : Opcode) : o ∈ Opcode.all := by
  cases o with
  | op o => cases o <;> decide
  | push k | dup k | swap k => simp [Opcode.all]
  | invalid => simp [Opcode.all]

/-- Every mnemonic is in lower case, is that of one opcode only, and is no bare push. -/
theorem mnemonics : ∀ o ∈ Opcode.all, Opcode.foldCase o.mnemonic = o.mnemonic ∧ o.mnemonic ≠ "push" ∧
    Opcode.all.find? (fun other => other.mnemonic == o.mnemonic) = some o := by
  decide +kernel

theorem ofMnemonic?_eq_some {name : String} : Opcode.ofMnemonic? name = some o ↔ Opcode.foldCase name = o.mnemonic := by
  constructor
  · intro named
    unfold Opcode.ofMnemonic? at named
    have same := List.find?_some named
    exact (beq_iff_eq.1 same).symm
  · intro same
    rw [Opcode.ofMnemonic?, same]
    exact (mnemonics o (mem_all o)).2.2

/-! ## What statements ask for -/

/-- The value that an argument stands for. -/
inductive Denotes (labels : Labels) : Argument → Word → Prop
  | number (literal : NumberLiteral) : Denotes labels (.number literal) literal.value
  | label {name : Fragment} {address : Nat} : labels.address? name.text = some address →
      Denotes labels (.label name) (.ofNat address)

/-- The instruction that a statement asks for, once all labels have their addresses. -/
inductive Asks (labels : Labels) (s : Statement) : Instruction → Prop
  | plain {o : Opcode} : Opcode.ofMnemonic? s.mnemonic.text = some o → o.immediateSize = 0 → s.argument = none →
      Asks labels s (.ofOpcode o)
  | push {k : Fin 32} {a : Argument} {value : Word} : Opcode.ofMnemonic? s.mnemonic.text = some (.push k) →
      s.argument = some a → Denotes labels a value → Asks labels s (.push (k.val + 1) value)
  /-- A bare push of a number takes no more bytes than it needs. -/
  | bareNumber {literal : NumberLiteral} : Opcode.foldCase s.mnemonic.text = "push" →
      s.argument = some (.number literal) → Asks labels s (.push literal.value.byteLength literal.value)
  | bareLabel {name : Fragment} {address : Nat} : Opcode.foldCase s.mnemonic.text = "push" →
      s.argument = some (.label name) → labels.address? name.text = some address →
      Asks labels s (.push labelWidth (.ofNat address))

theorem denotes_of_value {a : Argument} {value : Word} (known : a.value labels = .ok value) :
    Denotes labels a value := by
  cases a with
  | number literal =>
    cases known
    exact .number literal
  | label name =>
    simp only [Argument.value] at known
    split at known
    · next found =>
      cases known
      exact .label found
    · cases known

/-- A push carries the value of its argument, which fits. -/
theorem instruction_push {k : Fin 32} (made : s.instruction labels (.push k) = .ok i) :
    ∃ a value, s.argument = some a ∧ Denotes labels a value ∧ value.toNat < 256 ^ (k.val + 1) ∧
      i = .push (k.val + 1) value := by
  unfold Statement.instruction at made
  cases given : s.argument with
  | none =>
    simp [given] at made
  | some a =>
    cases known : a.value labels with
    | error e => simp [given, known, bind, Except.bind] at made
    | ok value =>
      simp only [given, known, bind, Except.bind] at made
      split at made
      · cases made
      · next short =>
        cases made
        have fits := (byteLength_le_iff (Nat.le_add_left 1 k.val)).1 (Nat.not_lt.1 short)
        exact ⟨a, value, rfl, denotes_of_value known, fits, rfl⟩

theorem instruction_plain (noImmediate : o.immediateSize = 0) :
    s.instruction labels o = .ok (.ofOpcode o) := by
  cases o with
  | push k => cases noImmediate
  | op _ | dup _ | swap _ | invalid => rfl

/-- The opcode of a bare push is told by its width, any other by the mnemonic; all but pushes stand
without an argument. -/
theorem opcode_chosen (chosen : s.opcode = .ok o) :
    (Opcode.foldCase s.mnemonic.text = "push" ∧ ∃ width, s.bareWidth = .ok width ∧ Opcode.push? width = some o) ∨
      (Opcode.ofMnemonic? s.mnemonic.text = some o ∧ (o.immediateSize = 0 → s.argument = none)) := by
  unfold Statement.opcode at chosen
  split at chosen
  · next bare =>
    left
    cases selected : s.bareWidth with
    | error e => simp [selected, bind, Except.bind] at chosen
    | ok width =>
      simp only [selected, bind, Except.bind] at chosen
      split at chosen
      · next found =>
        cases chosen
        exact ⟨bare, width, rfl, found⟩
      · cases chosen
  · right
    split at chosen
    · cases chosen
    · next named =>
      split at chosen
      · next none _ =>
        cases chosen
        exact ⟨named, fun _ => none⟩
      · next immediate =>
        cases chosen
        exact ⟨named, fun noImmediate => by rw [noImmediate] at immediate; cases immediate⟩
      · cases chosen
      · cases chosen

theorem push?_eq_some {width : Nat} (found : Opcode.push? width = some o) :
    ∃ k : Fin 32, o = .push k ∧ k.val + 1 = width := by
  unfold Opcode.push? at found
  split at found
  · next small =>
    cases found
    exact ⟨_, rfl, Nat.sub_add_cancel small.1⟩
  · cases found

/-- Where both passes accept a statement, its instruction is the one asked for, and it is as long as
the layout took it to be. -/
theorem instruction_asked (chosen : s.opcode = .ok o) (made : s.instruction labels o = .ok i) :
    Asks labels s i ∧ Encodable i ∧ i.size = 1 + o.immediateSize := by
  by_cases noImmediate : o.immediateSize = 0
  · rw [instruction_plain noImmediate] at made
    cases made
    obtain ⟨encodable, size⟩ := encodable_ofOpcode noImmediate
    refine ⟨?_, encodable, by rw [size, noImmediate]⟩
    rcases opcode_chosen chosen with ⟨-, width, -, found⟩ | ⟨named, without⟩
    · obtain ⟨k, rfl, -⟩ := push?_eq_some found
      cases noImmediate
    · exact .plain named noImmediate (without noImmediate)
  · obtain ⟨k, rfl⟩ : ∃ k, o = .push k := by
      cases o with
      | push k => exact ⟨k, rfl⟩
      | op _ | dup _ | swap _ | invalid => exact absurd rfl noImmediate
    obtain ⟨a, value, given, denotes, fits, rfl⟩ := instruction_push made
    refine ⟨?_, ⟨Nat.le_add_left 1 k.val, k.isLt, fits⟩, Nat.add_comm _ 1⟩
    rcases opcode_chosen chosen with ⟨bare, width, selected, found⟩ | ⟨named, -⟩
    · obtain ⟨j, same, rfl⟩ := push?_eq_some found
      cases same
      rw [Statement.bareWidth, given] at selected
      cases denotes with
      | number literal =>
        have width : literal.value.byteLength = k.val + 1 := Except.ok.inj selected
        exact width ▸ .bareNumber bare given
      | label known =>
        have width : labelWidth = k.val + 1 := Except.ok.inj selected
        exact width ▸ .bareLabel bare given known
    · exact .push named given denotes

/-! ## The passes -/

/-- The statement of an item that is one. -/
def statementOf? : Item → Option Statement
  | .label _ => none
  | .statement s => some s

/-- The address that the layout gave a statement. -/
def addressOf? : Placed → Option Nat
  | .label _ _ => none
  | .statement address _ _ => some address

def statementsIn (items : List Item) : List Statement := items.filterMap statementOf?

/-- What both passes make of items from an address on, given the labels defined before: the placed
items and the instructions. -/
inductive Passes (labels : Labels) : List Fragment → Nat → List Item → List Placed → List Instruction → Prop
  | nil {defined : List Fragment} {a : Nat} : Passes labels defined a [] [] []
  | label {defined : List Fragment} {a : Nat} {name : Fragment} {items : List Item} {placed : List Placed}
      {row : List Instruction} : (∀ first ∈ defined, first.text ≠ name.text) →
      Passes labels (name :: defined) a items placed row →
      Passes labels defined a (.label name :: items) (.label name a :: placed) row
  | statement {defined : List Fragment} {a : Nat} {s : Statement} {o : Opcode} {i : Instruction}
      {items : List Item} {placed : List Placed} {row : List Instruction} : Asks labels s i → Encodable i →
      Passes labels defined (a + i.size) items placed row →
      Passes labels defined a (.statement s :: items) (.statement a o s :: placed) (i :: row)

variable {defined : List Fragment} {a : Nat} {items : List Item} {placed : List Placed} {row : List Instruction}

/-- Passes that come to their ends without an error. -/
theorem passes_of_emit {emitted : List (Nat × Instruction)} (laid : placeFrom defined a items = (placed, none))
    (done : emit labels placed = (emitted, none)) : Passes labels defined a items placed (emitted.map (·.2)) := by
  induction items generalizing defined a placed emitted with
  | nil =>
    cases laid
    cases done
    exact .nil
  | cons item items ih =>
    cases item with
    | label name =>
      simp only [placeFrom] at laid
      split at laid
      · cases laid
      · next none =>
        have distinct : ∀ first ∈ defined, first.text ≠ name.text := by simpa using none
        cases rest : placeFrom (name :: defined) a items with
        | mk later error =>
          rw [rest] at laid
          cases laid
          exact .label distinct (ih rest done)
    | statement s =>
      simp only [placeFrom] at laid
      split at laid
      · cases laid
      · next o chosen =>
        cases rest : placeFrom defined (a + 1 + o.immediateSize) items with
        | mk later error =>
          rw [rest] at laid
          cases laid
          simp only [emit] at done
          split at done
          · cases done
          · next i made =>
            obtain ⟨asked, encodable, size⟩ := instruction_asked chosen made
            cases behind : emit labels later with
            | mk instructions error =>
              rw [behind] at done
              cases done
              rw [Nat.add_assoc, ← size] at rest
              exact .statement asked encodable (ih rest behind)

theorem Passes.asks (passes : Passes labels defined a items placed row) :
    List.Forall₂ (Asks labels) (statementsIn items) row := by
  induction passes with
  | nil => exact .nil
  | label _ _ ih => exact ih
  | statement asked _ _ ih => exact .cons asked ih

theorem Passes.encodable (passes : Passes labels defined a items placed row) : ∀ i ∈ row, Encodable i := by
  induction passes with
  | nil => simp
  | label _ _ ih => exact ih
  | statement _ encodable _ ih => simpa using ⟨encodable, ih⟩

/-- The layout put each statement where its instruction is. -/
theorem Passes.addresses (passes : Passes labels defined a items placed row) :
    (placedFrom a row).map (·.1) = placed.filterMap addressOf? := by
  induction passes with
  | nil => rfl
  | label _ _ ih => exact ih
  | statement _ _ _ ih => simp [placedFrom, addressOf?, ih]

/-- A label is put behind the instructions of the statements before it. -/
theorem Passes.label_at (passes : Passes labels defined a items placed row) {before after : List Item}
    {name : Fragment} (split : items = before ++ .label name :: after) :
    (name, a + totalSize (row.take (statementsIn before).length)) ∈ placed.filterMap Placed.label? := by
  induction passes generalizing before with
  | nil => simp at split
  | label _ _ ih =>
    cases before with
    | nil =>
      cases split
      simp [statementsIn, totalSize, Placed.label?]
    | cons item before =>
      cases split
      have later := ih rfl
      exact List.mem_cons_of_mem _ later
  | @statement defined a s o i items placed row _ _ _ ih =>
    cases before with
    | nil => cases split
    | cons item before =>
      cases split
      have later := ih rfl
      simp [statementsIn, statementOf?, Placed.label?, totalSize_cons, Nat.add_assoc] at later ⊢
      exact later

/-- And no label is put anywhere else. -/
theorem Passes.label_from (passes : Passes labels defined a items placed row) {name : Fragment} {address : Nat}
    (member : (name, address) ∈ placed.filterMap Placed.label?) :
    ∃ before after, items = before ++ .label name :: after ∧
      address = a + totalSize (row.take (statementsIn before).length) := by
  induction passes with
  | nil => cases member
  | label _ _ ih =>
    rcases List.mem_cons.1 member with same | later
    · cases same
      exact ⟨[], _, rfl, rfl⟩
    · obtain ⟨before, after, rfl, rfl⟩ := ih later
      exact ⟨_ :: before, after, rfl, rfl⟩
  | @statement defined a s o i items placed row _ _ _ ih =>
    obtain ⟨before, after, rfl, rfl⟩ := ih member
    refine ⟨.statement s :: before, after, rfl, ?_⟩
    simp [statementsIn, statementOf?, totalSize_cons, Nat.add_assoc]

/-- No label is defined twice. -/
theorem Passes.distinct (passes : Passes labels defined a items placed row) :
    ((placed.filterMap Placed.label?).map (·.1.text)).Nodup ∧
      ∀ first ∈ defined, first.text ∉ (placed.filterMap Placed.label?).map (·.1.text) := by
  induction passes with
  | nil => simp
  | label new _ ih =>
    obtain ⟨nodup, others⟩ := ih
    refine ⟨List.nodup_cons.2 ⟨others _ List.mem_cons_self, nodup⟩, ?_⟩
    intro first member repeated
    rcases List.mem_cons.1 repeated with same | later
    · exact new first member same
    · exact others first (List.mem_cons_of_mem _ member) later
  | statement _ _ _ ih => exact ih

/-! ## Programs -/

/-- The address of the instruction of a code that has so many before it; its end if there are no more. -/
def startOf (code : Code) (k : Nat) : Nat :=
  match code.instructions[k]? with
  | some p => p.1
  | none => code.size

theorem startOf_encode (encodable : ∀ i ∈ row, Encodable i) (k : Nat) :
    startOf (.ofList (encodeAll row)) k = totalSize (row.take k) := by
  rw [startOf, instructions_encode encodable, getElem?_placedFrom, size_encodeAll encodable]
  by_cases inside : k < row.length
  · simp [inside]
  · simp [inside, List.take_of_length_le (Nat.le_of_not_lt inside)]

/-- The statements of a program, in the order of the source. -/
def statements (p : Program) : List Statement := p.lines.filterMap Line.statement

theorem statements_eq (p : Program) : statements p = statementsIn p.items := by
  unfold statements statementsIn Program.items
  induction p.lines with
  | nil => rfl
  | cons l lines ih =>
    have noLabels : (l.labels.map Item.label).filterMap statementOf? = [] := by
      simp [List.filterMap_map, Function.comp_def, statementOf?]
    rw [List.flatMap_cons, List.filterMap_append, ← ih, Line.items, List.filterMap_append, noLabels]
    cases stated : l.statement with
    | none => simp [stated]
    | some s => simp [stated, statementOf?]

/-- What an assembled program has to do with the program it was assembled from. -/
structure Faithful (p : Program) (a : Assembled) : Prop where
  /-- One instruction for each statement, in order, the one that the statement asks for. -/
  instructions : List.Forall₂ (Asks a.labels) (statements p) (a.code.instructions.map (·.2))
  /-- They are where the layout put the statements. -/
  addresses : ∃ placed, p.layout = (placed, none) ∧ a.code.instructions.map (·.1) = placed.filterMap addressOf?
  distinct : a.labels.names.Nodup
  /-- The labels are those defined, each with the address of the first statement behind its definition,
  or the end of the code. -/
  labels : ∀ name address, a.labels.address? name = some address ↔
    ∃ before f after, p.items = before ++ .label f :: after ∧ f.text = name ∧
      address = startOf a.code (statementsIn before).length
  size : a.code.size = totalSize (a.code.instructions.map (·.2))
  whole : ∀ q ∈ a.code.instructions, q.1 + q.2.size ≤ a.code.size

/-- A program that compiles went through both passes. -/
theorem passes_of_compile {p : Program} {a : Assembled} (compiled : p.compile = .ok a) :
    ∃ placed row, p.layout = (placed, none) ∧ Passes a.labels [] 0 p.items placed row ∧
      a.labels = .ofList ((placed.filterMap Placed.label?).map fun l => (l.1.text, l.2)) ∧
      a.code = .ofList (encodeAll row) := by
  unfold Program.compile Program.compilation at compiled
  cases laid : p.layout with
  | mk placed error =>
    rw [laid] at compiled
    cases error with
    | some e => cases compiled
    | none =>
      dsimp only at compiled
      generalize same : Labels.ofList _ = labels at compiled
      cases emission : emit labels placed with
      | mk emitted error =>
        rw [emission] at compiled
        cases error with
        | some e => cases compiled
        | none =>
          simp only [Compilation.result, Compilation.labels, Compilation.code, same, Except.ok.injEq] at compiled
          subst compiled
          have bytes : emitted.flatMap (fun e => e.2.encode) = encodeAll (emitted.map (·.2)) := by
            simp [encodeAll, List.flatMap_map]
          exact ⟨placed, emitted.map (·.2), rfl, passes_of_emit laid emission, same.symm, congrArg Code.ofList bytes⟩

theorem faithful_of_compile {p : Program} {a : Assembled} (compiled : p.compile = .ok a) : Faithful p a := by
  obtain ⟨placed, row, laid, passes, labels, code⟩ := passes_of_compile compiled
  have encodable := passes.encodable
  have instructions : a.code.instructions = placedFrom 0 row := by rw [code, instructions_encode encodable]
  have distinct : a.labels.names.Nodup := by
    rw [labels, Labels.nodup_names_ofList, List.map_map]
    exact passes.distinct.1
  have known (name : String) (address : Nat) : a.labels.address? name = some address ↔
      ∃ f, (f, address) ∈ placed.filterMap Placed.label? ∧ f.text = name := by
    rw [Labels.address?_eq_some distinct, labels, Labels.mem_ofList]
    simp
  refine ⟨?_, ⟨placed, laid, ?_⟩, distinct, ?_, ?_, ?_⟩
  · rw [instructions, map_placedFrom, statements_eq]
    exact passes.asks
  · rw [instructions, passes.addresses]
  · intro name address
    rw [known]
    constructor
    · rintro ⟨f, member, named⟩
      obtain ⟨before, after, split, rfl⟩ := passes.label_from member
      exact ⟨before, f, after, split, named, by rw [code, startOf_encode encodable, Nat.zero_add]⟩
    · rintro ⟨before, f, after, split, named, rfl⟩
      have placedThere := passes.label_at split
      rw [Nat.zero_add, ← startOf_encode encodable, ← code] at placedThere
      exact ⟨f, placedThere, named⟩
  · rw [instructions, code, size_encodeAll encodable, map_placedFrom]
  · intro q member
    rw [instructions] at member
    have within := mem_placedFrom_le member
    rw [code, size_encodeAll encodable]
    omega

/-! ## Label tables -/

/-- A table is in alphabetical order. -/
theorem sorted_ofList (entries : List (String × Nat)) : (Labels.ofList entries).names.Pairwise (· ≤ ·) := by
  rw [Labels.names, List.pairwise_map]
  refine (List.pairwise_mergeSort ?_ ?_ entries).imp of_decide_eq_true
  · intro e f g first second
    exact decide_eq_true (le_trans (of_decide_eq_true first) (of_decide_eq_true second))
  · intro e f
    simpa using le_total e.1 f.1

/-- A table without repetitions is known by its entries. -/
theorem ofList_eq {entries : List (String × Nat)} (perm : labels.entries.Perm entries)
    (increasing : labels.names.Pairwise (· < ·)) : Labels.ofList entries = labels := by
  have distinct : (labels.entries.map (·.1)).Nodup := increasing.imp ne_of_lt
  have sorted := sorted_ofList entries
  rw [Labels.names, List.pairwise_map] at sorted increasing
  have same : (Labels.ofList entries).entries = labels.entries := by
    have rows : (Labels.ofList entries).entries.Perm labels.entries := (List.mergeSort_perm entries _).trans perm.symm
    refine List.Perm.eq_of_pairwise ?_ sorted (increasing.imp le_of_lt) rows
    intro e f first second below above
    have member : e ∈ labels.entries := perm.mem_iff.2 (Labels.mem_ofList.1 first)
    exact List.inj_on_of_nodup_map distinct member second (le_antisymm below above)
  obtain ⟨rows⟩ := labels
  exact congrArg Labels.mk same

/-! ## Sources -/

/-- What is assembled was read and compiled. -/
theorem compile_of_assemble {source : String} {a : Assembled} (assembled : assemble source = .ok a) :
    ∃ p, Program.parse source = .ok p ∧ p.compile = .ok a := by
  unfold assemble at assembled
  split at assembled
  · cases assembled
  · next p parsed =>
    split at assembled
    · cases assembled
    · next compiled =>
      cases assembled
      exact ⟨p, parsed, compiled⟩

/-- What a layout that went to the end is emitted to, given the table of its labels, is what is assembled. -/
theorem assemble_of_emit {source : String} {a : Assembled} (made : ∃ p ∈ (Program.parse source).toOption,
    p.layout.2 = none ∧ (emit a.labels p.layout.1).2 = none ∧
      a.code = .ofList ((emit a.labels p.layout.1).1.flatMap fun e => e.2.encode) ∧
      a.labels.entries.Perm ((p.layout.1.filterMap Placed.label?).map fun l => (l.1.text, l.2)) ∧
      a.labels.names.Pairwise (· < ·)) : assemble source = .ok a := by
  obtain ⟨p, read, laid, emitted, code, perm, increasing⟩ := made
  have parsed : Program.parse source = .ok p := by
    cases outcome : Program.parse source with
    | error e =>
      rw [outcome] at read
      cases read
    | ok q =>
      rw [outcome] at read
      cases read
      rfl
  have compiled : p.compile = .ok a := by
    simp only [Program.compile, Program.compilation, Compilation.result, Compilation.labels, Compilation.code, laid,
      ofList_eq perm increasing, emitted, ← code]
  simp only [assemble, parsed, compiled]

/-- Whatever source is assembled, the code decodes to the statements of its program, and the labels are
where they were written. -/
theorem assembled_faithful {source : String} {a : Assembled} (assembled : assemble source = .ok a) :
    ∃ p, Program.parse source = .ok p ∧ Faithful p a := by
  obtain ⟨p, parsed, compiled⟩ := compile_of_assemble assembled
  exact ⟨p, parsed, faithful_of_compile compiled⟩

/-- A call of a subroutine that stands behind it, and a label with nothing behind it. -/
def callAhead : String := "push sub\njumpsub\nstop\nsub: jumpdest\nreturnsub\nend:"

def callAheadAssembled : Assembled :=
  ⟨.ofList [0x61, 0x00, 0x05, 0xb3, 0x00, 0x5b, 0xb7], ⟨[("end", 7), ("sub", 5)]⟩⟩

theorem callAhead_faithful :
    assemble callAhead = .ok callAheadAssembled ∧
    ∃ p, Program.parse callAhead = .ok p ∧ Faithful p callAheadAssembled := by
  have assembled : assemble callAhead = .ok callAheadAssembled := assemble_of_emit (by decide +kernel)
  exact ⟨assembled, assembled_faithful assembled⟩

end Gosub.Assembling
