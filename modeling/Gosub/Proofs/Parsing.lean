import Gosub.Proofs.Parsing.Complete
import Gosub.Proofs.Parsing.Lines

/-!
# Reading a source

The reader accepts exactly the sources of the grammar, and tells what their lines say (`parse_grammar`).
-/

namespace Gosub.Parsing

open Gosub.Grammar

variable {c : Cursor}

/-! ## Texts within a line -/

/-- No character ends a line, or would be dropped before the end of one. -/
def InLine (text : List Char) : Prop := ∀ ch ∈ text, ch ≠ '\n' ∧ ch ≠ '\r'

theorem inLine_append {front back : List Char} : InLine (front ++ back) ↔ InLine front ∧ InLine back :=
  List.forall_mem_append

theorem inLine_of_all {p : Char → Bool} (feed : p '\n' = false) (carriageReturn : p '\r' = false) {text : List Char}
    (chars : ∀ ch ∈ text, p ch = true) : InLine text := by
  intro ch among
  have member := chars ch among
  constructor
  · rintro rfl
    simp [feed] at member
  · rintro rfl
    simp [carriageReturn] at member

theorem dropCarriageReturn_inLine {text : List Char} (inLine : InLine text) : dropCarriageReturn text = text :=
  dropCarriageReturn_of_ne fun last => (inLine _ (List.mem_of_getLast? last)).2 rfl

theorem inLine_blanks {text : List Char} (blanks : Blanks text) : InLine text :=
  inLine_of_all (by decide) (by decide) blanks.all

theorem inLine_ident {text : List Char} (ident : Ident text) : InLine text :=
  inLine_of_all (by decide) (by decide) (ident_iff.1 ident).2

theorem inLine_literal {text : List Char} {n : Nat} (spelled : Literal text n) : InLine text := by
  cases spelled with
  | decimal denotes => exact inLine_of_all (by decide) (by decide) (denotes.digits (by decide)).2
  | hexadecimal marker denotes =>
    have digits : InLine _ := inLine_of_all (by decide) (by decide) (denotes.digits le_rfl).2
    refine List.forall_mem_cons.2 ⟨by decide, List.forall_mem_cons.2 ⟨?_, digits⟩⟩
    rcases marker with rfl | rfl <;> decide

theorem inLine_defined {names : List String} {text : List Char} (defined : Defined names text) : InLine text := by
  induction defined with
  | none => exact List.forall_mem_nil _
  | one ident before after _ ih =>
    simp only [inLine_append]
    refine ⟨⟨inLine_ident ident, inLine_blanks before⟩, List.forall_mem_cons.2 ⟨by decide, ?_⟩⟩
    exact inLine_append.2 ⟨inLine_blanks after, ih⟩

theorem inLine_stated {statement : Option (String × Option Argument.Content)} {text : List Char}
    (stated : Stated statement text) : InLine text := by
  cases stated with
  | none => exact List.forall_mem_nil _
  | bare ident => exact inLine_ident ident
  | given ident _ between given =>
    refine inLine_append.2 ⟨inLine_append.2 ⟨inLine_ident ident, inLine_blanks between⟩, ?_⟩
    cases given with
    | number spelled => exact inLine_literal spelled
    | label ident => exact inLine_ident ident

theorem inLine_commented {comment : Option String} {text : List Char} (commented : Commented comment text) :
    InLine text := by
  cases commented with
  | none => exact List.forall_mem_nil _
  | some marked mark rest =>
    rw [marked]
    refine List.forall_mem_cons.2 ⟨?_, fun ch among => (rest ch among).symm⟩
    rcases mark with rfl | rfl <;> decide

theorem inLine_form {content : Line.Content} {text : List Char} (form : Form content text) : InLine text := by
  obtain ⟨indent, labels, statement, gap, comment⟩ := form
  simp only [inLine_append]
  exact ⟨⟨⟨⟨inLine_blanks indent, inLine_defined labels⟩, inLine_stated statement⟩, inLine_blanks gap⟩,
    inLine_commented comment⟩

/-! ## The lines of a source -/

theorem no_separator {text : List Char} (inLine : '\n' ∉ text) : ∀ ch ∈ text, (ch == '\n') = false := by
  intro ch among
  refine beq_eq_false_iff_ne.2 ?_
  rintro rfl
  exact inLine among

theorem sourceLines_last {text : List Char} (inLine : '\n' ∉ text) : sourceLines text = [text] := by
  rw [sourceLines, List.splitOn, List.splitOnP_eq_singleton (no_separator inLine)]
  rfl

theorem sourceLines_append {line rest : List Char} (inLine : '\n' ∉ line) :
    sourceLines (line ++ '\n' :: rest) = dropCarriageReturn line :: sourceLines rest := by
  have pieces : (line ++ '\n' :: rest).splitOn '\n' = line :: rest.splitOn '\n' :=
    List.splitOnP_append_cons_of_forall_mem (no_separator inLine) '\n' rfl rest
  have more : rest.splitOn '\n' ≠ [] := List.splitOnP_ne_nil _ rest
  simp only [sourceLines]
  rw [pieces, List.dropLast_cons_of_ne_nil more, List.getLast?_cons_of_ne_nil more]
  rfl

/-- The lines that are read are those of the source, and none has a line feed. -/
theorem linesFrom_sourceLines (offset : Nat) (text : List Char) :
    (linesFrom offset text).map Cursor.rest = sourceLines text ∧ ∀ c ∈ linesFrom offset text, '\n' ∉ c.rest := by
  induction text using lines_induction generalizing offset with
  | last text inLine =>
    rw [linesFrom_last inLine, sourceLines_last inLine]
    exact ⟨rfl, List.forall_mem_singleton.2 inLine⟩
  | more line rest inLine ih =>
    obtain ⟨texts, others⟩ := ih (offset + Text.byteLength line + 1)
    rw [linesFrom_append inLine, sourceLines_append inLine, List.map_cons, texts]
    exact ⟨rfl, List.forall_mem_cons.2 ⟨not_mem_dropCarriageReturn inLine, others⟩⟩

theorem line_iff {content : Line.Content} (inLine : '\n' ∉ c.rest) :
    (∃ l, c.line = .ok l ∧ l.content = content) ↔ Form content c.rest := by
  constructor
  · rintro ⟨l, read, rfl⟩
    exact line_sound inLine read
  · exact fun form => line_complete form rfl

/-- All lines are read where each of them is. -/
theorem mapM_line_eq_ok {cursors : List Cursor} {lines : List Line} :
    cursors.mapM Cursor.line = .ok lines ↔ List.Forall₂ (fun c l => c.line = .ok l) cursors lines := by
  induction cursors generalizing lines with
  | nil => cases lines <;> simp [pure, Except.pure]
  | cons c cursors ih =>
    rw [List.mapM_cons]
    cases first : c.line with
    | error tree => cases lines <;> simp [bind, Except.bind, first]
    | ok l =>
      cases others : cursors.mapM Cursor.line with
      | error tree => cases lines <;> simp [bind, Except.bind, ← ih, first, others]
      | ok ls => cases lines <;> simp [bind, Except.bind, pure, Except.pure, ← ih, first, others]

/-- The first line that cannot be read is the one that is reported. -/
theorem mapM_line_eq_error {cursors : List Cursor} {tree : ErrorTree} :
    cursors.mapM Cursor.line = .error tree ↔ ∃ front c back, cursors = front ++ c :: back ∧
      (∀ d ∈ front, ∃ l, d.line = .ok l) ∧ c.line = .error tree := by
  induction cursors with
  | nil =>
    refine iff_of_false nofun ?_
    rintro ⟨front, c, back, split, -⟩
    simp at split
  | cons c cursors ih =>
    rw [List.mapM_cons]
    constructor
    · intro failed
      cases first : c.line with
      | error cause =>
        rw [first] at failed
        cases failed
        exact ⟨[], c, cursors, rfl, List.forall_mem_nil _, first⟩
      | ok l =>
        cases others : cursors.mapM Cursor.line with
        | ok ls =>
          rw [first, others] at failed
          cases failed
        | error cause =>
          rw [first, others] at failed
          cases failed
          obtain ⟨front, d, back, rfl, read, last⟩ := ih.1 others
          exact ⟨c :: front, d, back, rfl, List.forall_mem_cons.2 ⟨⟨l, first⟩, read⟩, last⟩
    · rintro ⟨front, d, back, split, read, last⟩
      cases front with
      | nil =>
        cases split
        rw [last]
        rfl
      | cons first front =>
        cases split
        obtain ⟨⟨l, here⟩, later⟩ := List.forall_mem_cons.1 read
        rw [here, ih.2 ⟨front, d, back, rfl, later, last⟩]
        rfl

theorem lines_iff {cursors : List Cursor} (inLine : ∀ c ∈ cursors, '\n' ∉ c.rest) (contents : List Line.Content) :
    (∃ lines, cursors.mapM Cursor.line = .ok lines ∧ lines.map Line.content = contents) ↔
      List.Forall₂ Form contents (cursors.map Cursor.rest) := by
  simp only [mapM_line_eq_ok]
  induction cursors generalizing contents with
  | nil =>
    rw [List.map_nil, List.forall₂_nil_right_iff]
    constructor
    · rintro ⟨_, ⟨⟩, rfl⟩
      rfl
    · rintro rfl
      exact ⟨[], .nil, rfl⟩
  | cons c cursors ih =>
    obtain ⟨here, later⟩ := List.forall_mem_cons.1 inLine
    rw [List.map_cons, List.forall₂_cons_right_iff]
    constructor
    · rintro ⟨lines, read, rfl⟩
      obtain ⟨l, ls, first, others, rfl⟩ := List.forall₂_cons_left_iff.1 read
      exact ⟨_, _, (line_iff here).1 ⟨l, first, rfl⟩, (ih later _).1 ⟨ls, others, rfl⟩, rfl⟩
    · rintro ⟨content, contents, form, forms, rfl⟩
      obtain ⟨l, first, rfl⟩ := (line_iff here).2 form
      obtain ⟨ls, others, rfl⟩ := (ih later contents).2 forms
      exact ⟨l :: ls, .cons first others, rfl⟩

theorem parse_eq_ok {source : String} {program : Program} :
    Program.parse source = .ok program ↔ (linesFrom 0 source.toList).mapM Cursor.line = .ok program.lines := by
  unfold Program.parse
  cases (linesFrom 0 source.toList).mapM Cursor.line with
  | error tree => simp
  | ok lines =>
    constructor
    · rintro ⟨⟩
      rfl
    · rintro ⟨⟩
      rfl

theorem exists_forall₂ {α β : Type} {R : α → β → Prop} {bs : List β} :
    (∃ as, List.Forall₂ R as bs) ↔ ∀ b ∈ bs, ∃ a, R a b := by
  induction bs with
  | nil => simp
  | cons b bs ih =>
    rw [List.forall_mem_cons, ← ih]
    constructor
    · rintro ⟨as, related⟩
      obtain ⟨a, as', here, later, -⟩ := List.forall₂_cons_right_iff.1 related
      exact ⟨⟨a, here⟩, as', later⟩
    · rintro ⟨⟨a, here⟩, as, later⟩
      exact ⟨a :: as, .cons here later⟩

/-- A source is read for what its lines say. -/
theorem parse_iff (source : String) (contents : List Line.Content) :
    (∃ program, Program.parse source = .ok program ∧ program.lines.map Line.content = contents) ↔
      List.Forall₂ Form contents (sourceLines source.toList) := by
  obtain ⟨texts, inLine⟩ := linesFrom_sourceLines 0 source.toList
  rw [← texts, ← lines_iff inLine]
  simp only [parse_eq_ok]
  constructor
  · rintro ⟨program, read, same⟩
    exact ⟨program.lines, read, same⟩
  · rintro ⟨lines, read, same⟩
    exact ⟨⟨lines⟩, read, same⟩

/-- The reader accepts exactly the sources all of whose lines have the form of a line, and gives for each line, in
order, what the line says. -/
theorem parse_grammar (source : String) :
    ((∃ program, Program.parse source = .ok program) ↔
      ∀ text ∈ sourceLines source.toList, ∃ content, Form content text) ∧
    ∀ contents, (∃ program, Program.parse source = .ok program ∧ program.lines.map Line.content = contents) ↔
      List.Forall₂ Form contents (sourceLines source.toList) := by
  refine ⟨?_, parse_iff source⟩
  rw [← exists_forall₂]
  constructor
  · rintro ⟨program, read⟩
    exact ⟨_, (parse_iff source _).1 ⟨program, read, rfl⟩⟩
  · rintro ⟨said, forms⟩
    obtain ⟨program, read, -⟩ := (parse_iff source said).2 forms
    exact ⟨program, read⟩

end Gosub.Parsing
