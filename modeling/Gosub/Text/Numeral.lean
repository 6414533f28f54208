/-!
# Numerals

Digits of a base up to sixteen. Reading takes a non-empty run of digits, either case, to its
value; writing gives the shortest run of lower-case digits.
-/

namespace Gosub.Numeral

def digitValue (c : Char) : Nat :=
  if '0' ≤ c ∧ c ≤ '9' then c.toNat - '0'.toNat
  else if 'a' ≤ c ∧ c ≤ 'f' then c.toNat - 'a'.toNat + 10
  else if 'A' ≤ c ∧ c ≤ 'F' then c.toNat - 'A'.toNat + 10
  else 16

def isDigit (base : Nat) (c : Char) : Bool := digitValue c < base

/-- The number that a run of digits stands for. -/
def value (base : Nat) (digits : List Char) : Nat :=
  digits.foldl (fun n c => base * n + digitValue c) 0

/-- Reads a non-empty run of digits of the base, and nothing else. -/
def read? (base : Nat) (text : List Char) : Option Nat :=
  if text ≠ [] ∧ text.all (isDigit base) then some (value base text) else none

/-- The digits of a number, without leading zeros. -/
def write (base n : Nat) : List Char := Nat.toDigits base n

/-- The digits of a number, with zeros in front up to a width. -/
def writePadded (base width n : Nat) : List Char := (write base n).leftpad width '0'

def hex (n : Nat) : String := String.ofList (write 16 n)

/-- The number in lower-case hexadecimal digits, at least `width` of them. -/
def hexPadded (width n : Nat) : String := String.ofList (writePadded 16 width n)

end Gosub.Numeral
