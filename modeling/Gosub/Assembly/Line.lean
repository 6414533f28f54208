import Gosub.Assembly.Literal

/-!
# Lines

A line holds any number of label definitions, at most one statement, and maybe a comment. A
statement is a mnemonic and maybe an argument, a number or the name of a label.
-/

namespace Gosub

/-- What a statement is given. -/
inductive Argument where
  | number (literal : NumberLiteral)
  | label (name : Fragment)
  deriving DecidableEq

def Argument.fragment : Argument → Fragment
  | number literal => literal.spelling
  | label name => name

/-- A mnemonic and maybe an argument. -/
structure Statement where
  mnemonic : Fragment
  argument : Option Argument
  deriving DecidableEq

structure Line where
  labels : List Fragment
  statement : Option Statement
  /-- The comment with its marker. -/
  comment : Option String
  deriving DecidableEq

namespace Cursor

/-- Takes the definition of a label: a name and a colon. -/
def definition? (c : Cursor) : Option (Fragment × Cursor) :=
  match c.name? with
  | some (name, c) => (c.skipBlanks.eat? ':').map (name, ·)
  | none => none

theorem length_definition?_rest_lt {c d : Cursor} {f : Fragment}
    (h : c.definition? = some (f, d)) : d.rest.length < c.rest.length := by
  unfold definition? at h
  split at h
  · next hname =>
    obtain ⟨e, he, heq⟩ := Option.map_eq_some_iff.1 h
    cases heq
    have := length_name?_rest_le hname
    have := length_eat?_rest_lt he
    have := length_skipBlanks_rest_le ‹Cursor›
    omega
  · cases h

/-- Takes all definitions of labels in front, and the blanks behind each. -/
def definitions (c : Cursor) : List Fragment × Cursor :=
  match _ : c.definition? with
  | none => ([], c)
  | some (name, d) =>
    let (names, e) := d.skipBlanks.definitions
    (name :: names, e)
termination_by c.rest.length
decreasing_by
  have := length_definition?_rest_lt ‹c.definition? = some (name, d)›
  have := d.length_skipBlanks_rest_le
  omega

/-- Takes an argument behind a mnemonic, if blanks and then one follow. -/
def argument (c : Cursor) : Except ErrorTree (Option Argument × Cursor) :=
  if c.rest.head?.any isBlank then
    match c.skipBlanks.literal with
    | .found literal d => .ok (some (.number literal), d)
    | .broken tree => .error tree
    | .absent _ => match c.skipBlanks.name? with
      | some (name, d) => .ok (some (.label name), d)
      | none => .ok (none, c)
  else .ok (none, c)

def statement (c : Cursor) : Except ErrorTree (Option Statement × Cursor) :=
  match c.name? with
  | none => .ok (none, c)
  | some (mnemonic, d) => do
    let (argument, e) ← d.argument
    return (some ⟨mnemonic, argument⟩, e)

/-- The characters that a comment begins with. -/
def isCommentStart (ch : Char) : Bool := ch = ';' || ch = '#'

/-- Takes a comment, which may hold anything but a carriage return. -/
def comment (c : Cursor) : Option String × Cursor :=
  if c.rest.head?.any isCommentStart && c.rest.all (· ≠ '\r') then
    let (text, d) := c.takeAll
    (some text.text, d)
  else (none, c)

/-- The error of something left over in a line. -/
def endExpected (c : Cursor) : ErrorTree :=
  .context c.offset "expected end of line"
    (.allFailed c.offset (.expected c.offset .lineEnding none)
      (.expected c.offset .endOfText none))

def line (c : Cursor) : Except ErrorTree Line := do
  let (labels, c) := c.skipBlanks.definitions
  let (statement, c) ← c.statement
  let (comment, c) := c.skipBlanks.comment
  if c.rest.isEmpty then .ok ⟨labels, statement, comment⟩ else .error c.endExpected

end Cursor

structure Program where
  lines : List Line
  deriving DecidableEq

def Program.parse (source : String) : Except SyntaxError Program :=
  match (linesFrom 0 source.toList).mapM Cursor.line with
  | .ok lines => .ok ⟨lines⟩
  | .error tree => .error ⟨tree⟩

end Gosub
