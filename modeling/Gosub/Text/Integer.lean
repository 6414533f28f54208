import Gosub.Text.Numeral

/-!
# Counts and small integers

Decimal numbers given by a user: counts of 64 bits, with an optional plus sign, and bytes, with an
optional sign.
-/

namespace Gosub.Text

/-- Counts are below `2 ^ 64`. -/
def countBound : Nat := 0x10000000000000000

/-- Reads a number below `2 ^ 64`, in decimal digits behind an optional plus sign. -/
def readNatural? (text : String) : Option Nat :=
  let digits := match text.toList with
    | '+' :: rest => rest
    | all => all
  (Numeral.read? 10 digits).filter (· < countBound)

/-- Reads a number below 256, in decimal digits behind an optional sign. -/
def readByte? (text : String) : Option Nat :=
  match text.toList with
  | '-' :: digits => (Numeral.read? 10 digits).filter (· = 0)
  | '+' :: digits => (Numeral.read? 10 digits).filter (· < 256)
  | digits => (Numeral.read? 10 digits).filter (· < 256)

end Gosub.Text
