import Gosub.Text.Numeral
import Gosub.Text.Unprintable

/-!
# Quoted text

Text inside a message stands between double quotes. The quote and the backslash are written behind
a backslash, four controls by a letter, and every other character without a printed form of its own
by its code point.
-/

namespace Gosub.Text

/-- A character written by its code point. -/
def escapeCodePoint (c : Char) : List Char :=
  ['\x5c', 'u', '\x7b'] ++ Numeral.write 16 c.toNat ++ ['\x7d']

/-- How a character is written between quotes. -/
def escape (c : Char) : List Char :=
  if c = '\x22' then ['\x5c', '\x22']
  else if c = '\x5c' then ['\x5c', '\x5c']
  else if c = '\n' then ['\x5c', 'n']
  else if c = '\r' then ['\x5c', 'r']
  else if c = '\t' then ['\x5c', 't']
  else if c = '\x00' then ['\x5c', '0']
  else if isPrinted c then [c]
  else escapeCodePoint c

def quote (text : String) : String :=
  String.ofList ('\x22' :: text.toList.flatMap escape ++ ['\x22'])

end Gosub.Text
