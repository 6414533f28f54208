import Mathlib.Data.List.Forall2
import Gosub.Proofs.Parsing
import Gosub.Proofs.Places

/-!
# Printed programs

The canonical text of a line has the form of a line and says what the line says (`form_canonical`), whatever is absent.
So the canonical text of a program that was read is read again, with the same lines and an empty one behind the last
line feed, which is no part of what is compiled (`print_preserves`).
-/

namespace Gosub.Printing

open Gosub.Grammar Gosub.Parsing Gosub.Places

variable {l : Line} {p q : Program}

/-! ## Canonical lines -/

/-- What stands before the first part of a line: blanks where a statement is the first. -/
def indentOf (l : Line) : List Char := if l.labels.isEmpty && l.statement.isSome then List.replicate 4 ' ' else []

/-- What stands before the comment of a line: a tab where the comment is not the first part. -/
def gapOf (l : Line) : List Char :=
  if (l.labels.isEmpty && l.statement.isNone) || l.comment.isNone then [] else ['\t']

theorem toList_render (l : Line) : l.render.toList =
    indentOf l ++ (l.labels.flatMap fun name => name.text.toList ++ [':', ' ']) ++
      l.statement.elim [] (fun s => s.render.toList) ++ gapOf l ++ l.comment.elim [] String.toList := by
  obtain ⟨names, statement, comment⟩ := l
  have labels : (Line.mk names statement comment).renderLabels.toList =
      names.flatMap fun name => name.text.toList ++ [':', ' '] := by
    simp [Line.renderLabels, List.flatMap_map]
  rw [Line.render, String.toList_append, String.toList_append, labels]
  cases names <;> cases statement <;> cases comment <;> simp [Line.renderStatement, Line.renderComment, indentOf, gapOf]

theorem defined_render {names : List Fragment} {text : List Char} (defined : Defined (names.map Fragment.text) text) :
    Defined (names.map Fragment.text) (names.flatMap fun name => name.text.toList ++ [':', ' ']) := by
  induction names generalizing text with
  | nil => exact .none
  | cons name names ih =>
    cases defined with
    | one ident _ _ rest =>
      have line := Defined.one ident blanks_nil blanks_space (ih rest)
      simpa using line

theorem given_render {a : Argument} {text : List Char} (given : Given a.content text) : text = a.render.toList := by
  cases a <;> cases given <;> rfl

theorem stated_render {statement : Option Statement} {text : List Char}
    (stated : Stated (statement.map Statement.content) text) :
    Stated (statement.map Statement.content) (statement.elim [] fun s => s.render.toList) := by
  cases statement with
  | none => exact .none
  | some s =>
    obtain ⟨mnemonic, argument⟩ := s
    cases argument with
    | none =>
      cases stated with
      | bare ident => exact .bare ident
    | some a =>
      cases stated with
      | given ident _ _ given =>
        -- A blank stays between the two however long the mnemonic is.
        obtain rfl := given_render given
        have blanks : Blanks (List.replicate (8 - mnemonic.text.toList.length) ' ' ++ [' ']) := by
          intro ch among
          rcases List.mem_append.1 among with fill | blank
          · exact .inl (List.eq_of_mem_replicate fill)
          · exact .inl (List.mem_singleton.1 blank)
        have canonical : (Statement.mk mnemonic (some a)).render.toList =
            mnemonic.text.toList ++ (List.replicate (8 - mnemonic.text.toList.length) ' ' ++ [' ']) ++
              a.render.toList := by
          simp [Statement.render, List.rightpad]
        show Stated _ (Statement.mk mnemonic (some a)).render.toList
        rw [canonical]
        exact .given ident (by simp) blanks given

theorem commented_render {comment : Option String} {text : List Char} (commented : Commented comment text) :
    text = comment.elim [] String.toList := by
  cases commented <;> rfl

/-- The canonical text of a line that has been read is a line that says the same. -/
theorem form_canonical {text : List Char} (form : Form l.content text) : Form l.content l.render.toList := by
  obtain ⟨-, labels, statement, -, comment⟩ := form
  obtain rfl := commented_render comment
  have indent : Blanks (indentOf l) := by
    unfold indentOf
    split
    · exact fun ch among => .inl (List.eq_of_mem_replicate among)
    · exact blanks_nil
  have gap : Blanks (gapOf l) := by
    unfold gapOf
    split
    · exact blanks_nil
    · exact fun ch among => .inr (List.mem_singleton.1 among)
  rw [toList_render]
  exact .intro indent (defined_render labels) (stated_render statement) gap comment

/-! ## Canonical programs -/

/-- Texts within a line are the lines of what they are with a line feed behind each, and behind the last an empty
line begins. -/
theorem sourceLines_ended {texts : List (List Char)} (inLine : ∀ text ∈ texts, InLine text) :
    sourceLines (texts.flatMap (· ++ ['\n'])) = texts ++ [[]] := by
  induction texts with
  | nil => rfl
  | cons text texts ih =>
    obtain ⟨here, later⟩ := List.forall_mem_cons.1 inLine
    have noFeed : '\n' ∉ text := fun inside => (here _ inside).1 rfl
    rw [List.flatMap_cons, List.append_assoc, List.singleton_append, sourceLines_append noFeed,
      dropCarriageReturn_inLine here, ih later, List.cons_append]

theorem toList_render_program (p : Program) :
    p.render.toList = (p.lines.map fun l => l.render.toList).flatMap (· ++ ['\n']) := by
  simp [Program.render, List.flatMap_map]

/-- The program with an empty line behind its own. -/
def ended (p : Program) : Program := ⟨p.lines ++ [⟨[], none, none⟩]⟩

/-- An empty line says nothing. -/
theorem form_empty : Grammar.Form ⟨[], none, none⟩ [] := by
  have line : Grammar.Form ⟨[], none, none⟩ ([] ++ [] ++ [] ++ [] ++ []) :=
    .intro blanks_nil .none .none blanks_nil .none
  exact line

theorem forms_render {lines : List Line} {texts : List (List Char)}
    (forms : List.Forall₂ Grammar.Form (lines.map Line.content) texts) :
    List.Forall₂ Grammar.Form (lines.map Line.content) (lines.map fun l => l.render.toList) := by
  induction lines generalizing texts with
  | nil => exact .nil
  | cons l lines ih =>
    cases forms with
    | cons here later => exact .cons (form_canonical here) (ih later)

theorem inLine_forms {contents : List Line.Content} {texts : List (List Char)}
    (forms : List.Forall₂ Grammar.Form contents texts) : ∀ text ∈ texts, InLine text := by
  induction forms with
  | nil => exact List.forall_mem_nil _
  | cons here _ ih => exact List.forall_mem_cons.2 ⟨inLine_form here, ih⟩

/-- The canonical text of a program that was read is read as the same lines and an empty one. -/
theorem parse_render {source : String} (read : Program.parse source = .ok p) :
    ∃ q, Program.parse p.render = .ok q ∧ q.lines.map Line.content = (ended p).lines.map Line.content := by
  have forms := forms_render ((parse_iff source _).1 ⟨p, read, rfl⟩)
  have texts := sourceLines_ended (inLine_forms forms)
  rw [← toList_render_program] at texts
  refine (parse_iff p.render _).2 ?_
  rw [texts, ended, List.map_append]
  exact List.rel_append forms (.cons form_empty .nil)

/-! ## What is compiled and printed -/

theorem compile_ended (p : Program) : (ended p).compile = p.compile := by
  have items : (ended p).items = p.items := by simp [ended, Program.items, Line.items]
  simp only [Program.compile, Program.compilation, Program.layout, items]

theorem render_ended (p : Program) : (ended p).render = p.render ++ "\n" := by
  have empty : (Line.mk [] none none).render = "" := by
    simp [Line.render, Line.renderLabels, Line.renderStatement, Line.renderComment]
  simp [Program.render, ended, empty]

/-- Programs whose lines say the same compile to the same, but for the places in a report, and print the same. -/
theorem alike_of_contents (same : q.lines.map Line.content = p.lines.map Line.content) :
    q.compile.mapError CompileError.unplaced = p.compile.mapError CompileError.unplaced ∧ q.render = p.render := by
  have unplaced : q.unplaced = p.unplaced := congrArg Program.mk (unplaced_of_contents same)
  constructor
  · rw [← compile_unplaced, ← compile_unplaced, unplaced]
  · rw [← render_unplaced q, ← render_unplaced p, unplaced]

/-- The canonical text of a program that was read is read again: the lines say the same, and one that says nothing
comes behind them. It compiles to the same code and labels, or fails for the same reason, and its own canonical text
is the same with one line feed more. -/
theorem print_preserves {source : String} (read : Program.parse source = .ok p) :
    ∃ q, Program.parse p.render = .ok q ∧
      q.lines.map Line.content = p.lines.map Line.content ++ [⟨[], none, none⟩] ∧
      q.compile.mapError CompileError.unplaced = p.compile.mapError CompileError.unplaced ∧
      q.render = p.render ++ "\n" := by
  obtain ⟨q, again, same⟩ := parse_render read
  obtain ⟨compiled, printed⟩ := alike_of_contents same
  refine ⟨q, again, ?_, ?_, ?_⟩
  · rw [same, ended, List.map_append]
    rfl
  · rw [compiled, compile_ended]
  · rw [printed, render_ended]

/-- Two labels and a statement in one line, with blanks and a comment as they come. -/
def crowded : Program :=
  ⟨[⟨[⟨0, "a"⟩, ⟨2, "b"⟩], some ⟨⟨5, "Push2"⟩, some (.number ⟨⟨11, "0x0100"⟩, 0x100⟩)⟩, some "#;c"⟩,
    ⟨[], some ⟨⟨24, "PUSH"⟩, some (.label ⟨29, "b"⟩)⟩, none⟩]⟩

theorem print_preserves_crowded :
    Program.parse "a:b: Push2 0x0100  #;c\n PUSH b" = .ok crowded ∧
    crowded.render = "a: b: Push2    0x0100\t#;c\n    PUSH     b\n" ∧
    ∃ q, Program.parse crowded.render = .ok q ∧
      q.lines.map Line.content = crowded.lines.map Line.content ++ [⟨[], none, none⟩] ∧
      q.compile.mapError CompileError.unplaced = crowded.compile.mapError CompileError.unplaced ∧
      q.render = crowded.render ++ "\n" := by
  have read : Program.parse "a:b: Push2 0x0100  #;c\n PUSH b" = .ok crowded := by with_unfolding_all rfl
  have printed : crowded.render = "a: b: Push2    0x0100\t#;c\n    PUSH     b\n" := by decide +kernel
  exact ⟨read, printed, print_preserves read⟩

end Gosub.Printing
