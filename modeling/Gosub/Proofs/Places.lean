import Gosub.Assembly.Emission
import Gosub.Assembly.Printer
import Gosub.Proofs.Grammar

/-!
# Programs without their places

Where the parts of a program stand in its source matters only to the reports of its errors. The program of the same
text with every part at the beginning (`Program.unplaced`) has the same canonical text, and it compiles to the same
code and labels, or fails for the same reason (`compile_unplaced`). So both are told by what the lines say alone
(`unplaced_of_contents`).
-/

namespace Gosub

/-- The same text at the beginning of a source. -/
def Fragment.unplaced (f : Fragment) : Fragment := ⟨0, f.text⟩

def Argument.unplaced : Argument → Argument
  | .number literal => .number ⟨literal.spelling.unplaced, literal.value⟩
  | .label name => .label name.unplaced

def Statement.unplaced (s : Statement) : Statement := ⟨s.mnemonic.unplaced, s.argument.map Argument.unplaced⟩

def Line.unplaced (l : Line) : Line :=
  ⟨l.labels.map Fragment.unplaced, l.statement.map Statement.unplaced, l.comment⟩

def Program.unplaced (p : Program) : Program := ⟨p.lines.map Line.unplaced⟩

def Item.unplaced : Item → Item
  | .label name => .label name.unplaced
  | .statement s => .statement s.unplaced

def Placed.unplaced : Placed → Placed
  | .label name address => .label name.unplaced address
  | .statement address o s => .statement address o s.unplaced

/-- The reason of an error, without the places that its report marks. -/
def CompileError.unplaced : CompileError → CompileError
  | .unknownMnemonic mnemonic => .unknownMnemonic mnemonic.unplaced
  | .duplicateLabel label first => .duplicateLabel label.unplaced first.unplaced
  | .unknownLabel label => .unknownLabel label.unplaced
  | .unexpectedArgument mnemonic argument => .unexpectedArgument mnemonic.unplaced argument.unplaced
  | .missingArgument mnemonic => .missingArgument mnemonic.unplaced
  | .literalTooLarge value width argument => .literalTooLarge value width argument.unplaced

end Gosub

namespace Gosub.Places

variable {labels : Labels} {s : Statement} {l : Line} {p q : Program}

/-! ## What lines say -/

/-- The argument that says this, at the beginning of a source. -/
def argumentOf : Argument.Content → Argument
  | .number spelling value => .number ⟨⟨0, spelling⟩, value⟩
  | .label name => .label ⟨0, name⟩

/-- The line that says this, with all its parts at the beginning of a source. -/
def lineOf (content : Line.Content) : Line :=
  ⟨content.labels.map (Fragment.mk 0), content.statement.map fun said => ⟨⟨0, said.1⟩, said.2.map argumentOf⟩,
    content.comment⟩

theorem argumentOf_content (a : Argument) : argumentOf a.content = a.unplaced := by
  cases a <;> rfl

theorem lineOf_content (l : Line) : lineOf l.content = l.unplaced := by
  obtain ⟨names, statement, comment⟩ := l
  have stated (s : Statement) : Option.map argumentOf (s.argument.map Argument.content) = s.unplaced.argument := by
    rw [Option.map_map]
    exact congrArg (fun f => Option.map f s.argument) (funext argumentOf_content)
  cases statement with
  | none => simp [lineOf, Line.content, Line.unplaced, Fragment.unplaced]
  | some s =>
    simp [lineOf, Line.content, Line.unplaced, Fragment.unplaced, Statement.content, stated, Statement.unplaced]

/-- Lines that say the same are the same but for their places. -/
theorem unplaced_of_contents {lines lines' : List Line} (same : lines.map Line.content = lines'.map Line.content) :
    lines.map Line.unplaced = lines'.map Line.unplaced := by
  have told (lines : List Line) : lines.map Line.unplaced = (lines.map Line.content).map lineOf := by
    rw [List.map_map]
    exact List.map_congr_left fun l _ => (lineOf_content l).symm
  rw [told, told, same]

/-! ## Printing -/

theorem render_line_unplaced (l : Line) : l.unplaced.render = l.render := by
  obtain ⟨names, statement, comment⟩ := l
  have labels : (Line.mk names statement comment).unplaced.renderLabels =
      (Line.mk names statement comment).renderLabels := by
    simp [Line.renderLabels, Line.unplaced, Fragment.unplaced, Function.comp_def]
  have arguments (a : Argument) : a.unplaced.render = a.render := by cases a <;> rfl
  have stated (s : Statement) : s.unplaced.render = s.render := by
    obtain ⟨mnemonic, _ | a⟩ := s
    · rfl
    · simp [Statement.render, Statement.unplaced, Fragment.unplaced, arguments]
  rw [Line.render, Line.render, labels]
  cases statement <;> simp [Line.renderStatement, Line.renderComment, Line.unplaced, stated]

theorem render_unplaced (p : Program) : p.unplaced.render = p.render := by
  simp only [Program.render, Program.unplaced, List.map_map, Function.comp_def, render_line_unplaced]

/-! ## Compiling -/

theorem fragment_unplaced (a : Argument) : a.unplaced.fragment = a.fragment.unplaced := by
  cases a <;> rfl

theorem bareWidth_unplaced (s : Statement) : s.unplaced.bareWidth = s.bareWidth.mapError CompileError.unplaced := by
  obtain ⟨mnemonic, _ | _ | _⟩ := s <;> rfl

theorem opcode_unplaced (s : Statement) : s.unplaced.opcode = s.opcode.mapError CompileError.unplaced := by
  have text : s.unplaced.mnemonic.text = s.mnemonic.text := rfl
  unfold Statement.opcode
  rw [text, bareWidth_unplaced]
  by_cases bare : Opcode.foldCase s.mnemonic.text = "push"
  · simp only [if_pos bare]
    cases s.bareWidth with
    | error e => rfl
    | ok width =>
      simp only [Except.mapError, bind, Except.bind]
      cases Opcode.push? width <;> rfl
  · simp only [if_neg bare]
    cases Opcode.ofMnemonic? s.mnemonic.text with
    | none => rfl
    | some o =>
      obtain ⟨mnemonic, _ | a⟩ := s
      · cases immediate : o.immediateSize <;>
          simp [Statement.unplaced, immediate, Except.mapError, CompileError.unplaced]
      · cases immediate : o.immediateSize <;>
          simp [Statement.unplaced, immediate, Except.mapError, CompileError.unplaced, fragment_unplaced]

theorem value_unplaced (labels : Labels) (a : Argument) :
    a.unplaced.value labels = (a.value labels).mapError CompileError.unplaced := by
  cases a with
  | number literal => rfl
  | label name =>
    have text : name.unplaced.text = name.text := rfl
    simp only [Argument.value, Argument.unplaced, text]
    cases labels.address? name.text <;> rfl

theorem instruction_unplaced (labels : Labels) (s : Statement) (o : Opcode) :
    s.unplaced.instruction labels o = (s.instruction labels o).mapError CompileError.unplaced := by
  cases o with
  | op _ | dup _ | swap _ | invalid => rfl
  | push k =>
    obtain ⟨mnemonic, _ | a⟩ := s
    · rfl
    · show (a.unplaced.value labels >>= fun value => _) = Except.mapError _ (a.value labels >>= fun value => _)
      rw [value_unplaced, fragment_unplaced]
      cases a.value labels with
      | error e => rfl
      | ok value =>
        show (if k.val + 1 < value.byteLength then _ else _) =
          Except.mapError _ (if k.val + 1 < value.byteLength then _ else _)
        split <;> rfl

/-- Both passes go as far as they do without the places, and end for the same reason. -/
theorem placeFrom_unplaced (defined : List Fragment) (a : Nat) (items : List Item) :
    placeFrom (defined.map Fragment.unplaced) a (items.map Item.unplaced) =
      ((placeFrom defined a items).1.map Placed.unplaced, (placeFrom defined a items).2.map CompileError.unplaced) := by
  induction items generalizing defined a with
  | nil => rfl
  | cons item items ih =>
    cases item with
    | label name =>
      have found : (defined.map Fragment.unplaced).find? (fun first => first.text = name.unplaced.text) =
          (defined.find? fun first => first.text = name.text).map Fragment.unplaced := by
        rw [List.find?_map]
        rfl
      simp only [List.map_cons, Item.unplaced, placeFrom, found]
      cases defined.find? fun first => first.text = name.text with
      | some first => rfl
      | none => simp only [Option.map_none, ← List.map_cons, ih]; rfl
    | statement s =>
      simp only [List.map_cons, Item.unplaced, placeFrom, opcode_unplaced]
      cases s.opcode with
      | error e => rfl
      | ok o => simp only [Except.mapError, ih]; rfl

theorem emit_unplaced (labels : Labels) (placed : List Placed) :
    emit labels (placed.map Placed.unplaced) =
      ((emit labels placed).1, (emit labels placed).2.map CompileError.unplaced) := by
  induction placed with
  | nil => rfl
  | cons first placed ih =>
    cases first with
    | label name address => exact ih
    | statement address o s =>
      simp only [List.map_cons, Placed.unplaced, emit, instruction_unplaced]
      cases s.instruction labels o with
      | error e => rfl
      | ok i => simp only [Except.mapError, ih]

theorem items_unplaced (p : Program) : p.unplaced.items = p.items.map Item.unplaced := by
  have line (l : Line) : l.unplaced.items = l.items.map Item.unplaced := by
    obtain ⟨names, _ | s, comment⟩ := l <;> simp [Line.items, Line.unplaced, Item.unplaced]
  simp [Program.items, Program.unplaced, List.flatMap_map, List.map_flatMap, line]

theorem label?_unplaced (placed : List Placed) :
    ((placed.map Placed.unplaced).filterMap Placed.label?).map (fun l => (l.1.text, l.2)) =
      (placed.filterMap Placed.label?).map fun l => (l.1.text, l.2) := by
  induction placed with
  | nil => rfl
  | cons first placed ih =>
    cases first with
    | label name address => exact congrArg (List.cons (name.text, address)) ih
    | statement address o s => exact ih

/-- Without its places a program compiles to the same, or fails for the same reason. -/
theorem compile_unplaced (p : Program) : p.unplaced.compile = p.compile.mapError CompileError.unplaced := by
  -- The table of labels that the second pass uses is made of their texts.
  have laid := placeFrom_unplaced [] 0 p.items
  rw [List.map_nil, ← items_unplaced] at laid
  unfold Program.compile Program.compilation Program.layout
  rw [laid]
  cases placeFrom [] 0 p.items with
  | mk placed error =>
    cases error with
    | some e => rfl
    | none =>
      simp only [Option.map_none, label?_unplaced, emit_unplaced, Compilation.result, Compilation.labels]
      cases (emit _ placed).2 with
      | some e => rfl
      | none => rfl

end Gosub.Places
