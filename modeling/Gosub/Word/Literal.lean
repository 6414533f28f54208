import Gosub.Word
import Gosub.Text.Quoted

/-!
# Word literals

A literal is a run of decimal digits, or `0x` or `0X` and a run of hexadecimal digits. Its value
must fit in a word.
-/

namespace Gosub.Word

/-- The number that a literal spells, of any size. -/
def literalValue? : List Char → Option Nat
  | '0' :: x :: digits =>
    if x = 'x' ∨ x = 'X' then Numeral.read? 16 digits else Numeral.read? 10 ('0' :: x :: digits)
  | text => Numeral.read? 10 text

def ofLiteral? (text : List Char) : Option Word := literalValue? text >>= ofNat?

/-- A text that spells no word. -/
structure LiteralError where
  text : String
  deriving DecidableEq

def LiteralError.message (e : LiteralError) : String :=
  "invalid number literal " ++ Text.quote e.text

def read (text : String) : Except LiteralError Word :=
  match ofLiteral? text.toList with
  | some w => .ok w
  | none => .error ⟨text⟩

end Gosub.Word
