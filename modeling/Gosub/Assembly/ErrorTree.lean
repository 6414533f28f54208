import Gosub.Assembly.Diagnostic
import Gosub.Word.Literal

/-!
# Error trees

Why a text could not be read: what was expected where, what that was tried for, and the
alternatives that failed side by side. Alternatives are kept flat, so that joining two errors keeps
every one of them in order.
-/

namespace Gosub

/-- What was expected at a place. -/
inductive Expectation where
  | spelling
  /-- A non-empty run of some class of characters. -/
  | run
  | value
  | alternative
  | lineEnding
  | endOfText
  deriving DecidableEq

/-- Why a text could not be read. -/
inductive ErrorTree where
  /-- An error met while something was read. -/
  | context (offset : Nat) (note : String) (child : ErrorTree)
  | either (alternatives : List ErrorTree)
  | character (offset : Nat) (expected : Char)
  | expected (offset : Nat) (what : Expectation) (child : Option ErrorTree)
  | literal (offset : Nat) (what : Expectation) (cause : Word.LiteralError)

namespace ErrorTree

/-- The alternatives that an error stands for. -/
def alternatives : ErrorTree → List ErrorTree
  | either trees => trees
  | tree => [tree]

/-- Both errors as alternatives, in order. -/
def or (first second : ErrorTree) : ErrorTree :=
  either (first.alternatives ++ second.alternatives)

mutual

/-- Where the error happened; for alternatives, where the first of them did. -/
def offset? : ErrorTree → Option Nat
  | context offset _ _ => some offset
  | either trees => firstOffset? trees
  | character offset _ => some offset
  | expected offset _ _ => some offset
  | literal offset _ _ => some offset

/-- Where the first of some errors happened. -/
def firstOffset? : List ErrorTree → Option Nat
  | [] => none
  | tree :: _ => tree.offset?

end

/-- A report that marks one place. -/
def pointing (offset : Nat) (text : String) : Diagnostic :=
  .mk "invalid syntax" none none [⟨offset, 0, text⟩] none

mutual

/-- The report of an error. Alternatives are reported one by one. -/
def diagnostic : ErrorTree → Diagnostic
  | context offset note _ => pointing offset note
  | either trees => .mk "invalid syntax" none none [] (some (diagnostics trees))
  | character offset c => pointing offset ("Expect '" ++ c.toString ++ "' here")
  | expected offset _ _ => pointing offset "here"
  | literal offset _ _ => pointing offset "here"

def diagnostics : List ErrorTree → List Diagnostic
  | [] => []
  | tree :: trees => tree.diagnostic :: diagnostics trees

end

/-- Some errors at a place where one of several things was expected. -/
def allFailed (offset : Nat) (first second : ErrorTree) : ErrorTree :=
  expected offset .alternative (some (first.or second))

end ErrorTree

structure SyntaxError where
  tree : ErrorTree

namespace SyntaxError

def message : String := "failed to parse program"

/-- Where the source stops making sense. -/
def offset (e : SyntaxError) : Nat := e.tree.offset?.getD 0

def diagnostic (e : SyntaxError) : Diagnostic :=
  .mk message (some "jumpsub::syntax") none [⟨e.offset, 0, "invalid syntax"⟩]
    (some [e.tree.diagnostic])

end SyntaxError

end Gosub
