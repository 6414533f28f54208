import Gosub.Assembly.Line

/-!
# Printing programs

The canonical text of a program: labels first, a statement behind four blanks or its labels, its
argument in a column, a comment behind a tab.
-/

namespace Gosub

def Argument.render (a : Argument) : String := a.fragment.text

/-- The mnemonic, filled up to eight characters where an argument follows. -/
def Statement.render (s : Statement) : String :=
  match s.argument with
  | some a => String.ofList (s.mnemonic.text.toList.rightpad 8 ' ') ++ " " ++ a.render
  | none => s.mnemonic.text

namespace Line

def renderLabels (l : Line) : String := String.join (l.labels.map fun name => name.text ++ ": ")

/-- The statement, behind four blanks where no label stands before it. -/
def renderStatement (l : Line) : String :=
  match l.statement with
  | some s => (if l.labels.isEmpty then "    " else "") ++ s.render
  | none => ""

/-- The comment, behind a tab where something stands before it. -/
def renderComment (l : Line) : String :=
  match l.comment with
  | some text => (if l.labels.isEmpty && l.statement.isNone then "" else "\t") ++ text
  | none => ""

def render (l : Line) : String := l.renderLabels ++ l.renderStatement ++ l.renderComment

end Line

/-- Every line with a line feed behind it. -/
def Program.render (p : Program) : String := String.join (p.lines.map fun l => l.render ++ "\n")

end Gosub
