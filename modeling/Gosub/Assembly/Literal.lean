import Gosub.Assembly.Cursor
import Gosub.Assembly.ErrorTree

/-!
# Literals in a source

A literal in front of a text takes as many digits as there are. A text that does not begin with one
may still be something else; what begins with `0x` can only be a literal.
-/

namespace Gosub

/-- The outcome of looking for something at a cursor. -/
inductive Reading (α : Type) where
  | found (value : α) (rest : Cursor)
  /-- It is not there, but something else may be. -/
  | absent (tree : ErrorTree)
  | broken (tree : ErrorTree)

structure NumberLiteral where
  spelling : Fragment
  value : Word
  deriving DecidableEq

namespace Cursor

/-- The literal that takes given characters in front; `fail` is the outcome when they have no
value that fits. -/
def literalOf (c : Cursor) (text : List Char) (fail : ErrorTree → Reading NumberLiteral) :
    Reading NumberLiteral :=
  match Word.ofLiteral? text with
  | some value =>
    .found ⟨⟨c.offset, String.ofList text⟩, value⟩
      ⟨c.offset + Text.byteLength text, c.rest.drop text.length⟩
  | none => fail (.literal c.offset .value ⟨String.ofList text⟩)

/-- Reads hexadecimal digits behind a marker of two characters. -/
def hexLiteral (c : Cursor) (zero x : Char) (rest : List Char) : Reading NumberLiteral :=
  match rest.takeWhile (Numeral.isDigit 16) with
  | [] => .broken (.expected (c.offset + Text.byteLength [zero, x]) .run none)
  | digits => c.literalOf (zero :: x :: digits) .broken

def decimalLiteral (c : Cursor) : Reading NumberLiteral :=
  let refuse tree := Reading.absent (.allFailed c.offset (.expected c.offset .spelling none) tree)
  match c.rest.takeWhile (Numeral.isDigit 10) with
  | [] => refuse (.expected c.offset .run none)
  | digits => c.literalOf digits refuse

def literal (c : Cursor) : Reading NumberLiteral :=
  match c.rest with
  | '0' :: x :: rest => if x = 'x' ∨ x = 'X' then c.hexLiteral '0' x rest else c.decimalLiteral
  | _ => c.decimalLiteral

end Cursor

end Gosub
