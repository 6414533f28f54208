import Gosub.Text.Extent
import Gosub.Text.Numeral

/-!
# Bytes as hexadecimal text

Bytes are written as two lower-case digits each. Reading takes digits of either case, an optional
`0x` in front, and blanks around and between bytes but never inside one.
-/

namespace Gosub

namespace Hex

def writeByte (b : UInt8) : List Char := Numeral.writePadded 16 2 b.toNat

def write (bytes : List UInt8) : String := String.ofList (bytes.flatMap writeByte)

/-- The bytes behind `0x`. -/
def render (bytes : List UInt8) : String := "0x" ++ write bytes

/-- The characters that may stand between bytes. -/
def isBlank (c : Char) : Bool := c = ' ' || c = '\t' || c = '\r' || c = '\n'

def skipBlanks (text : List Char) : List Char := text.dropWhile isBlank

/-- Drops a `0x` or `0X` in front. -/
def skipMarker : List Char → List Char
  | '0' :: x :: rest => if x = 'x' ∨ x = 'X' then rest else '0' :: x :: rest
  | text => text

theorem length_skipBlanks_le (text : List Char) : (skipBlanks text).length ≤ text.length :=
  (List.dropWhile_suffix isBlank).length_le

/-- The bytes that a text begins with, blanks after each of them, and the text left over. -/
def readBytes : List Char → List UInt8 × List Char
  | high :: low :: rest =>
    if Numeral.isDigit 16 high && Numeral.isDigit 16 low then
      let (bytes, left) := readBytes (skipBlanks rest)
      (UInt8.ofNat (Numeral.value 16 [high, low]) :: bytes, left)
    else ([], high :: low :: rest)
  | text => ([], text)
termination_by text => text.length
decreasing_by
  have := length_skipBlanks_le rest
  simp; omega

/-- A text that is not made of whole bytes, with the offset of the first character that belongs to
none. -/
structure ReadError where
  offset : Nat
  deriving DecidableEq

def ReadError.message (e : ReadError) : String :=
  "invalid hex bytecode at offset " ++ toString e.offset

def read (text : String) : Except ReadError (List UInt8) :=
  let (bytes, rest) := readBytes (skipMarker (skipBlanks text.toList))
  let left := skipBlanks rest
  if left.isEmpty then .ok bytes
  else .error ⟨Text.byteLength text.toList - Text.byteLength left⟩

end Hex

end Gosub
