import Mathlib.Data.List.Forall2
import Gosub.Assembly.Listing
import Gosub.Proofs.Assembling
import Gosub.Proofs.Decoding
import Gosub.Proofs.Parsing

/-!
# Disassembled codes

The text of an instruction is a line that asks for this instruction (`form_render`, `compiles_of_written`). So the
texts of a row of instructions, one a line, are the source of its bytes, and a code without invalid instructions
whose last push is whole is assembled again from the texts of its listing (`disassembly_assembles`).
-/

namespace Gosub.Disassembly

open Gosub.Walk Gosub.Encoding Gosub.Decoding Gosub.Assembling Gosub.Grammar Gosub.Parsing

/-! ## The text of an instruction -/

/-- The instruction is no invalid byte. -/
def Valid (i : Instruction) : Prop := ∀ b, i ≠ .invalid b

/-- The source that has the texts of some instructions, one a line. -/
def sourceOf (row : List Instruction) : String := "\n".intercalate (row.map Instruction.render)

theorem ofMnemonic?_mnemonic (o : Opcode) : Opcode.ofMnemonic? o.mnemonic = some o :=
  ofMnemonic?_eq_some.2 (mnemonics o (mem_all o)).1

theorem foldCase_mnemonic_ne (o : Opcode) : Opcode.foldCase o.mnemonic ≠ "push" := by
  obtain ⟨lower, noPush, -⟩ := mnemonics o (mem_all o)
  rw [lower]
  exact noPush

theorem mnemonic_chars : ∀ o ∈ Opcode.all, o.mnemonic.toList.head?.any Cursor.isNameStart ∧
    o.mnemonic.toList.all Cursor.isNameChar := by
  decide +kernel

theorem ident_mnemonic (o : Opcode) : Ident o.mnemonic.toList := by
  obtain ⟨start, chars⟩ := mnemonic_chars o (mem_all o)
  generalize o.mnemonic.toList = text at start chars
  cases text with
  | nil => cases start
  | cons first rest => exact ident_iff.2 ⟨⟨first, rest, rfl, start⟩, List.all_eq_true.1 chars⟩

/-- What the text of an instruction says: a mnemonic, and for a push the word in hexadecimal digits. -/
inductive Written : Instruction → String × Option Argument.Content → Prop
  | plain {o : Opcode} : o ≠ .invalid → o.immediateSize = 0 → Written (.ofOpcode o) (o.mnemonic, none)
  | push (k : Fin 32) {value : Word} : value.toNat < 256 ^ (k.val + 1) →
      Written (.push (k.val + 1) value) ((Opcode.push k).mnemonic, some (.number value.render value))

theorem written_of_valid {i : Instruction} (encodable : Encodable i) (valid : Valid i) :
    ∃ content, Written i content := by
  have form := form_encode encodable
  generalize i.encode = bytes at form
  cases form with
  | plain o noImmediate =>
    have other : o ≠ .invalid := by
      rintro rfl
      exact valid _ rfl
    exact ⟨_, .plain other noImmediate⟩
  | push k value fits => exact ⟨_, .push k fits⟩
  | unassigned b _ => exact absurd rfl (valid b)

theorem render_ofOpcode {o : Opcode} (valid : o ≠ .invalid) (noImmediate : o.immediateSize = 0) :
    (Instruction.ofOpcode o).render = o.mnemonic := by
  cases o with
  | push k => cases noImmediate
  | op _ | dup _ | swap _ => rfl
  | invalid => exact absurd rfl valid

theorem toList_render (w : Word) : w.render.toList = '0' :: 'x' :: Numeral.write 16 w.toNat := by
  simp [Word.render, Word.hex, Numeral.hex]

theorem toList_render_push (k : Fin 32) (value : Word) :
    (Instruction.push (k.val + 1) value).render.toList =
      (Opcode.push k).mnemonic.toList ++ [' '] ++ value.render.toList := by
  simp [Instruction.render, Opcode.mnemonic]

theorem literal_render (w : Word) : Literal w.render.toList w.toNat := by
  rw [toList_render]
  exact .hexadecimal (.inl rfl) (denotes_write (by decide) le_rfl w.toNat)

/-- The text of an instruction is a line of a mnemonic and maybe a number. -/
theorem form_render {i : Instruction} {content : String × Option Argument.Content} (written : Written i content) :
    Grammar.Form ⟨[], some content, none⟩ i.render.toList := by
  have line {text : List Char} (stated : Stated (some content) text) :
      Grammar.Form ⟨[], some content, none⟩ text := by
    have form : Grammar.Form ⟨[], some content, none⟩ ([] ++ [] ++ text ++ [] ++ []) :=
      .intro blanks_nil .none stated blanks_nil .none
    simpa using form
  cases written with
  | plain valid noImmediate =>
    rw [render_ofOpcode valid noImmediate]
    exact line (.bare (ident_mnemonic _))
  | @push k value _ =>
    rw [toList_render_push]
    exact line (.given (ident_mnemonic _) (List.cons_ne_nil _ _) blanks_space (.number (literal_render value)))

/-! ## Lines -/

/-- Texts within a line are the lines of their source. -/
theorem sourceLines_joined {texts : List (List Char)} (nonempty : texts ≠ []) (inLine : ∀ text ∈ texts, InLine text) :
    sourceLines (['\n'].intercalate texts) = texts := by
  have pieces : (['\n'].intercalate texts).splitOn '\n' = texts :=
    List.splitOn_intercalate '\n' (fun text among inside => (inLine text among _ inside).1 rfl) nonempty
  have kept : ∀ text ∈ texts.dropLast, dropCarriageReturn text = id text := by
    intro text among
    exact dropCarriageReturn_inLine (inLine text (List.dropLast_subset texts among))
  rw [sourceLines, pieces, List.map_congr_left kept, List.map_id, List.getLast?_eq_some_getLast nonempty]
  exact List.dropLast_append_getLast nonempty

/-! ## What is assembled -/

/-- Both passes make this instruction of the statement, whatever the labels. -/
def Compiles (s : Statement) (i : Instruction) : Prop :=
  ∃ o, s.opcode = .ok o ∧ i.size = 1 + o.immediateSize ∧ ∀ labels, s.instruction labels o = .ok i

/-- The text of an instruction asks for it. -/
theorem compiles_of_written {s : Statement} {i : Instruction} (written : Written i s.content) : Compiles s i := by
  obtain ⟨⟨offset, mnemonic⟩, argument⟩ := s
  generalize said : Statement.content _ = content at written
  cases written with
  | @plain o valid noImmediate =>
    obtain ⟨rfl, given⟩ := Prod.mk.inj said
    obtain rfl : argument = none := Option.map_eq_none_iff.1 given
    refine ⟨o, ?_, ?_, fun labels => instruction_plain noImmediate⟩
    · simp [Statement.opcode, foldCase_mnemonic_ne, ofMnemonic?_mnemonic, noImmediate]
    · rw [(encodable_ofOpcode noImmediate).2, noImmediate]
  | @push k value fits =>
    obtain ⟨rfl, given⟩ := Prod.mk.inj said
    obtain ⟨argument, rfl, content⟩ := Option.map_eq_some_iff.1 given
    cases argument with
    | label name => cases content
    | number literal =>
      obtain ⟨spelling, rfl⟩ := Argument.Content.number.inj content
      have narrow : ¬ k.val + 1 < literal.value.byteLength :=
        Nat.not_lt.2 ((byteLength_le_iff (Nat.le_add_left 1 k.val)).2 fits)
      refine ⟨.push k, ?_, Nat.add_comm _ _, fun labels => ?_⟩
      · simp [Statement.opcode, foldCase_mnemonic_ne, ofMnemonic?_mnemonic, Opcode.immediateSize]
      · simp [Statement.instruction, Argument.value, bind, Except.bind, narrow]

/-- Statements that compile by themselves go through both passes: no label is placed, and the instructions lie one
behind the other. -/
theorem passes_of_compiles {statements : List Statement} {row : List Instruction}
    (compiles : List.Forall₂ Compiles statements row) (a : Nat) :
    ∃ placed, placeFrom [] a (statements.map .statement) = (placed, none) ∧ placed.filterMap Placed.label? = [] ∧
      ∀ labels, emit labels placed = (placedFrom a row, none) := by
  induction compiles generalizing a with
  | nil => exact ⟨[], rfl, rfl, fun _ => rfl⟩
  | @cons s i statements row here _ ih =>
    obtain ⟨o, chosen, size, made⟩ := here
    obtain ⟨placed, laid, unlabelled, emitted⟩ := ih (a + i.size)
    refine ⟨.statement a o s :: placed, ?_, unlabelled, fun labels => ?_⟩
    · rw [size, ← Nat.add_assoc] at laid
      simp only [List.map_cons, placeFrom, chosen, laid]
    · simp only [emit, made, emitted, placedFrom]

theorem compile_of_compiles {p : Program} {statements : List Statement} {row : List Instruction}
    (items : p.items = statements.map .statement) (compiles : List.Forall₂ Compiles statements row) :
    p.compile = .ok ⟨.ofList (encodeAll row), .empty⟩ := by
  obtain ⟨placed, laid, unlabelled, emitted⟩ := passes_of_compiles compiles 0
  have bytes : (placedFrom 0 row).flatMap (fun e => e.2.encode) = encodeAll row := by
    rw [encodeAll, ← List.flatMap_map, map_placedFrom]
  have noLabels : Labels.ofList [] = .empty := by simp [Labels.ofList, Labels.empty]
  simp only [Program.compile, Program.compilation, Program.layout, items, laid, unlabelled, emitted,
    Compilation.result, Compilation.code, Compilation.labels, bytes, List.map_nil, noLabels]

/-- Lines that say one instruction each, and nothing else. -/
theorem statements_of_contents {lines : List Line} {row : List Instruction}
    {contents : List (String × Option Argument.Content)} (written : List.Forall₂ Written row contents)
    (said : lines.map Line.content = contents.map fun content => ⟨[], some content, none⟩) :
    ∃ statements, lines.flatMap Line.items = statements.map .statement ∧ List.Forall₂ Compiles statements row := by
  induction written generalizing lines with
  | nil =>
    obtain rfl : lines = [] := List.map_eq_nil_iff.1 said
    exact ⟨[], rfl, .nil⟩
  | @cons i content row contents here _ ih =>
    obtain ⟨l, later, rfl, first, others⟩ := List.map_eq_cons_iff.1 said
    obtain ⟨statements, items, compiles⟩ := ih others
    obtain ⟨labels, statement, comment⟩ := l
    simp only [Line.content, Line.Content.mk.injEq, List.map_eq_nil_iff, Option.map_eq_some_iff] at first
    obtain ⟨rfl, ⟨s, rfl, rfl⟩, -⟩ := first
    refine ⟨s :: statements, ?_, .cons (compiles_of_written here) compiles⟩
    rw [List.flatMap_cons, items]
    rfl

theorem all_written {row : List Instruction} (encodable : ∀ i ∈ row, Encodable i) (valid : ∀ i ∈ row, Valid i) :
    ∃ contents, List.Forall₂ Written row contents := by
  induction row with
  | nil => exact ⟨[], .nil⟩
  | cons i row ih =>
    obtain ⟨encodableHere, encodableLater⟩ := List.forall_mem_cons.1 encodable
    obtain ⟨validHere, validLater⟩ := List.forall_mem_cons.1 valid
    obtain ⟨content, here⟩ := written_of_valid encodableHere validHere
    obtain ⟨contents, later⟩ := ih encodableLater validLater
    exact ⟨content :: contents, .cons here later⟩

theorem toList_sourceOf (row : List Instruction) :
    (sourceOf row).toList = ['\n'].intercalate (row.map fun i => i.render.toList) := by
  rw [sourceOf, String.toList_intercalate, List.map_map]
  rfl

theorem inLine_row {row : List Instruction} {contents : List (String × Option Argument.Content)}
    (written : List.Forall₂ Written row contents) : ∀ i ∈ row, InLine i.render.toList := by
  induction written with
  | nil => exact List.forall_mem_nil _
  | cons here _ ih => exact List.forall_mem_cons.2 ⟨inLine_form (form_render here), ih⟩

/-- The texts of instructions are read as lines that say one instruction each. -/
theorem parse_sourceOf {row : List Instruction} {contents : List (String × Option Argument.Content)}
    (nonempty : row ≠ []) (written : List.Forall₂ Written row contents) :
    ∃ lines, Program.parse (sourceOf row) = .ok ⟨lines⟩ ∧
      lines.map Line.content = contents.map fun content => ⟨[], some content, none⟩ := by
  have texts : sourceLines (sourceOf row).toList = row.map fun i => i.render.toList := by
    rw [toList_sourceOf]
    exact sourceLines_joined (by simpa using nonempty) (List.forall_mem_map.2 (inLine_row written))
  have forms : List.Forall₂ Grammar.Form (contents.map fun content => ⟨[], some content, none⟩)
      (row.map fun i => i.render.toList) :=
    List.forall₂_map_left_iff.2 (List.forall₂_map_right_iff.2 (written.flip.imp fun _ _ here => form_render here))
  rw [← texts] at forms
  obtain ⟨⟨lines⟩, read, said⟩ := (parse_iff (sourceOf row) _).2 forms
  exact ⟨lines, read, said⟩

theorem assemble_sourceOf {row : List Instruction} (encodable : ∀ i ∈ row, Encodable i) (valid : ∀ i ∈ row, Valid i) :
    assemble (sourceOf row) = .ok ⟨.ofList (encodeAll row), .empty⟩ := by
  by_cases nonempty : row = []
  · -- No instructions are no lines, but their source is one line that says nothing.
    subst nonempty
    with_unfolding_all rfl
  · obtain ⟨contents, written⟩ := all_written encodable valid
    obtain ⟨lines, parsed, said⟩ := parse_sourceOf nonempty written
    obtain ⟨statements, items, compiles⟩ := statements_of_contents written said
    have compiled : (Program.mk lines).compile = .ok ⟨.ofList (encodeAll row), .empty⟩ :=
      compile_of_compiles items compiles
    simp only [assemble, parsed, compiled]

/-! ## Listings -/

/-- What a listing notes at an address. -/
def kindsOf (destinations : Option Destinations) (address : Nat) : List DestinationKind :=
  match destinations with
  | some d => d.kindsAt address
  | none => []

/-- The lines of some instructions in a listing, each with the labels of its address above it. -/
def block (labels : Labels) (destinations : Option Destinations) (row : List (Nat × Instruction)) : List ListingLine :=
  row.flatMap fun p => (labels.namesAt p.1).map .label ++ [.instruction p.1 p.2 (kindsOf destinations p.1)]

theorem listing_eq (code : Code) (labels : Labels) (destinations : Option Destinations) :
    code.listing labels destinations = block labels destinations code.instructions := by
  cases destinations <;> rfl

theorem mem_names_of_namesAt {labels : Labels} {name : String} {address : Nat}
    (member : name ∈ labels.namesAt address) : name ∈ labels.names := by
  obtain ⟨e, found, rfl⟩ := List.mem_map.1 member
  exact List.mem_map_of_mem (List.mem_of_mem_filter found)

/-- What is found in a listing and in no label is found in the instructions. -/
theorem filterMap_block {α : Type} {f : ListingLine → Option α} {labels : Labels}
    (unlabelled : ∀ name ∈ labels.names, f (.label name) = none) (destinations : Option Destinations)
    (row : List (Nat × Instruction)) :
    (block labels destinations row).filterMap f =
      row.filterMap fun p => f (.instruction p.1 p.2 (kindsOf destinations p.1)) := by
  have nothing (p : Nat × Instruction) : ((labels.namesAt p.1).map ListingLine.label).filterMap f = [] := by
    rw [List.filterMap_map, List.filterMap_eq_nil_iff]
    exact fun name member => unlabelled name (mem_names_of_namesAt member)
  rw [block, List.filterMap_flatMap, List.filterMap_eq_flatMap_toList]
  refine List.flatMap_congr fun p _ => ?_
  rw [List.filterMap_append, nothing, List.nil_append, List.filterMap_eq_flatMap_toList, List.flatMap_singleton]

/-- The text of the instruction in a line of a listing, without its address and its kinds. -/
def instructionText? : ListingLine → Option String
  | .label _ => none
  | .instruction _ i _ => some i.render

theorem instructionText?_listing (code : Code) (labels : Labels) (destinations : Option Destinations) :
    (code.listing labels destinations).filterMap instructionText? =
      (code.instructions.map (·.2)).map Instruction.render := by
  rw [listing_eq, filterMap_block fun _ _ => rfl, List.map_map, ← List.filterMap_eq_map]
  rfl

/-- The texts of instructions that have encodings of their own are assembled to these, with no labels; and so a code
is assembled again from the texts of its listing, if none of its instructions is invalid or runs past its end. -/
theorem disassembly_assembles :
    (∀ row : List Instruction, (∀ i ∈ row, Encodable i ∧ Valid i) →
      assemble ("\n".intercalate (row.map Instruction.render)) = .ok ⟨.ofList (encodeAll row), .empty⟩) ∧
    ∀ (code : Code) (labels : Labels) (destinations : Option Destinations),
      (∀ p ∈ code.instructions, Valid p.2 ∧ p.1 + p.2.size ≤ code.size) →
      assemble ("\n".intercalate ((code.listing labels destinations).filterMap instructionText?)) =
        .ok ⟨code, .empty⟩ := by
  constructor
  · intro row sound
    exact assemble_sourceOf (fun i member => (sound i member).1) fun i member => (sound i member).2
  · intro code labels destinations sound
    have valid : ∀ i ∈ code.instructions.map (·.2), Valid i := by
      intro i member
      obtain ⟨p, listed, rfl⟩ := List.mem_map.1 member
      exact (sound p listed).1
    have nothing : missingAtEnd code = 0 := missingAtEnd_eq_zero fun p listed => (sound p listed).2
    have bytes : encodeAll (code.instructions.map (·.2)) = code.toList := by
      rw [encodeAll_instructions, nothing, List.replicate_zero, List.append_nil]
    have assembled := assemble_sourceOf (encodable_instructions code) valid
    rw [bytes] at assembled
    rw [instructionText?_listing]
    exact assembled

/-- An instruction of each form, with an immediate that has zeros in front and one that is full. -/
def eachForm : List Instruction :=
  [.push 3 0x5b, .dup 16, .swap 1, .op .mstore8, .push 32 (.ofNat (2 ^ 256 - 1)), .op .ret]

/-- A push whose immediate is a mark of a destination, and the destination that it is not. -/
def hiddenMark : Code := .ofList [0x60, 0x5b, 0x56, 0x5b]

theorem disassembly_assembles_eachForm :
    (∀ i ∈ eachForm, Encodable i ∧ Valid i) ∧
    assemble ("\n".intercalate (eachForm.map Instruction.render)) = .ok ⟨.ofList (encodeAll eachForm), .empty⟩ ∧
    (∀ p ∈ hiddenMark.instructions, Valid p.2 ∧ p.1 + p.2.size ≤ hiddenMark.size) ∧
    assemble ("\n".intercalate ((hiddenMark.listing .empty (some (hiddenMark.destinations .shared))).filterMap
      instructionText?)) = .ok ⟨hiddenMark, .empty⟩ := by
  have encodable : ∀ i ∈ eachForm, Encodable i := by decide
  have valid : ∀ i ∈ eachForm, Valid i := by simp [eachForm, Valid]
  have sound : ∀ i ∈ eachForm, Encodable i ∧ Valid i := fun i member => ⟨encodable i member, valid i member⟩
  have walk : hiddenMark.instructions = [(0, .push 1 0x5b), (2, .op .jump), (3, .op .jumpdest)] := by decide +kernel
  have whole : ∀ p ∈ hiddenMark.instructions, Valid p.2 ∧ p.1 + p.2.size ≤ hiddenMark.size := by
    rw [walk]
    simp [Valid, Instruction.size, hiddenMark, Code.ofList, Code.size]
  obtain ⟨rows, codes⟩ := disassembly_assembles
  exact ⟨sound, rows eachForm sound, whole, codes hiddenMark .empty _ whole⟩

end Gosub.Disassembly
