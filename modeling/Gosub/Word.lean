import Gosub.Text.Numeral

/-!
# Words

A machine word has 256 bits. Words are read and written as big-endian bytes, and a word below
`2 ^ 64` can serve as an address.
-/

namespace Gosub

abbrev Word := BitVec 256

/-- The number that big-endian bytes stand for. -/
def natOfBytes (bytes : List UInt8) : Nat :=
  bytes.foldl (fun n b => 256 * n + b.toNat) 0

/-- The last `width` big-endian bytes of a number. -/
def bytesOfNat : Nat → Nat → List UInt8
  | 0, _ => []
  | width + 1, n => bytesOfNat width (n / 256) ++ [UInt8.ofNat n]

/-- How many bytes a number needs, none for zero. -/
def byteCount (n : Nat) : Nat :=
  if n = 0 then 0 else byteCount (n / 256) + 1

/-- Numbers from `2 ^ 64` on are no addresses. -/
def addressBound : Nat := 0x10000000000000000

namespace Word

def size : Nat := 32

/-- The word of a number, which wraps at `2 ^ 256`. -/
def ofNat (n : Nat) : Word := BitVec.ofNat 256 n

/-- The word of a number that fits. -/
def ofNat? (n : Nat) : Option Word := if (ofNat n).toNat = n then some (ofNat n) else none

/-- A truth value as a word, one or zero. -/
def ofBool (b : Bool) : Word := if b then 1 else 0

/-- The word of at most 32 big-endian bytes. -/
def ofBytes? (bytes : List UInt8) : Option Word :=
  if bytes.length ≤ size then some (ofNat (natOfBytes bytes)) else none

def toBytes (w : Word) : List UInt8 := bytesOfNat size w.toNat

def lowByte (w : Word) : UInt8 := UInt8.ofNat w.toNat

/-- How many bytes a push of the word needs, at least one. -/
def byteLength (w : Word) : Nat := max 1 (byteCount w.toNat)

/-- The word as an address, when it is below `2 ^ 64`. -/
def address? (w : Word) : Option Nat := if w.toNat < addressBound then some w.toNat else none

/-- The bit of weight `2 ^ index`; false from index 256 on. -/
def bit (w : Word) (index : Nat) : Bool := w.getLsbD index

/-- The word in lower-case hexadecimal digits. -/
def hex (w : Word) : String := Numeral.hex w.toNat

/-- The word in lower-case hexadecimal digits behind `0x`. -/
def render (w : Word) : String := "0x" ++ w.hex

end Word

end Gosub
