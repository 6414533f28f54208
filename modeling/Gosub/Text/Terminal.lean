import Gosub.Text.Quoted

/-!
# Text for a terminal

A message must not steer the terminal that shows it. The controls that ring, go back, feed a page,
delete or begin a sequence are written by their code points; every other character, a line feed
too, stands for itself.
-/

namespace Gosub.Text

/-- The ASCII controls that steer a terminal: bell, backspace, form feed, escape and delete. -/
def steeringControls : List Char := ['\x07', '\x08', '\x0c', '\x1b', '\x7f']

def disarm (c : Char) : List Char :=
  if c ∈ steeringControls then ['\x5c', 'x'] ++ Numeral.writePadded 16 2 c.toNat
  else if 0x80 ≤ c.toNat ∧ c.toNat ≤ 0x9f then escapeCodePoint c
  else [c]

/-- The text with no character that steers a terminal. -/
def disarmed (text : String) : String := String.ofList (text.toList.flatMap disarm)

end Gosub.Text
