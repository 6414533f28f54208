import Gosub.Text.Hex

/-!
# Reading a source

A cursor is a place in a source with the text from there on. Fragments are the pieces that a reader
takes, each with the offset where it was found.
-/

namespace Gosub

/-- A piece of a source, with its offset in UTF-8 bytes. -/
structure Fragment where
  offset : Nat
  text : String
  deriving DecidableEq

def Fragment.length (f : Fragment) : Nat := Text.byteLength f.text.toList

/-- A place in a source, and the text from there on. -/
structure Cursor where
  offset : Nat
  rest : List Char
  deriving DecidableEq

namespace Cursor

/-- Takes the characters in front that belong to a class. -/
def takeWhile (p : Char → Bool) (c : Cursor) : Fragment × Cursor :=
  let taken := c.rest.takeWhile p
  (⟨c.offset, String.ofList taken⟩, ⟨c.offset + Text.byteLength taken, c.rest.dropWhile p⟩)

def takeAll (c : Cursor) : Fragment × Cursor :=
  (⟨c.offset, String.ofList c.rest⟩, ⟨c.offset + Text.byteLength c.rest, []⟩)

def eat? (ch : Char) (c : Cursor) : Option Cursor :=
  match c.rest with
  | h :: rest => if h = ch then some ⟨c.offset + h.utf8Size, rest⟩ else none
  | [] => none

/-- The blanks inside a line. -/
def isBlank (ch : Char) : Bool := ch = ' ' || ch = '\t'

def skipBlanks (c : Cursor) : Cursor := (c.takeWhile isBlank).2

/-- The characters that a name may begin with. -/
def isNameStart (ch : Char) : Bool := ch = '_' || ch = '.' || ch.isAlpha

def isNameChar (ch : Char) : Bool := isNameStart ch || ch.isDigit

/-- Takes a name, of a mnemonic or a label. -/
def name? (c : Cursor) : Option (Fragment × Cursor) :=
  match c.rest with
  | h :: _ => if isNameStart h then some (c.takeWhile isNameChar) else none
  | [] => none

theorem length_takeWhile_rest_le (p : Char → Bool) (c : Cursor) :
    (c.takeWhile p).2.rest.length ≤ c.rest.length :=
  (List.dropWhile_suffix p).length_le

theorem length_skipBlanks_rest_le (c : Cursor) : c.skipBlanks.rest.length ≤ c.rest.length :=
  c.length_takeWhile_rest_le isBlank

theorem length_eat?_rest_lt {ch : Char} {c d : Cursor} (h : c.eat? ch = some d) :
    d.rest.length < c.rest.length := by
  unfold eat? at h
  split at h
  · next heq =>
    split at h
    · cases h; simp [heq]
    · cases h
  · cases h

theorem length_name?_rest_le {c d : Cursor} {f : Fragment} (h : c.name? = some (f, d)) :
    d.rest.length ≤ c.rest.length := by
  unfold name? at h
  split at h
  · split at h
    · have := c.length_takeWhile_rest_le isNameChar
      simp only [Option.some.injEq] at h
      simpa [h] using this
    · cases h
  · cases h

end Cursor

/-- The text without one carriage return at its end. -/
def dropCarriageReturn (text : List Char) : List Char :=
  if text.getLast? = some '\r' then text.dropLast else text

/-- Whether a character belongs to a line and does not end it. -/
def isInLine (ch : Char) : Bool := ch ≠ '\n'

/-- The lines of a text that begins at an offset. A line ends at each line feed, and a carriage
return before it belongs to the ending. -/
def linesFrom (offset : Nat) (text : List Char) : List Cursor :=
  let line := text.takeWhile isInLine
  match h : text.dropWhile isInLine with
  | [] => [⟨offset, line⟩]
  | _ :: rest =>
    ⟨offset, dropCarriageReturn line⟩ :: linesFrom (offset + Text.byteLength line + 1) rest
termination_by text.length
decreasing_by
  have := (h ▸ List.dropWhile_suffix isInLine).length_le
  simp at this
  omega

end Gosub
