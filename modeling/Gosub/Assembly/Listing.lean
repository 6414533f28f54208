import Gosub.Assembly.Labels
import Gosub.Code.Destinations

/-!
# Listings

The instructions of a code, one a line, with the labels of each address above it and the kinds of
destination that it is behind it.
-/

namespace Gosub

inductive ListingLine where
  | label (name : String)
  | instruction (address : Nat) (instruction : Instruction) (kinds : List DestinationKind)
  deriving DecidableEq

namespace ListingLine

/-- The line as text. The kinds stand in a column of their own. -/
def render : ListingLine → String
  | label name => name ++ ":"
  | instruction address i kinds =>
    let line := Numeral.hexPadded 4 address ++ "    " ++ i.render
    if kinds.isEmpty then line
    else String.ofList (line.toList.rightpad 24 ' ') ++ "; "
      ++ ", ".intercalate (kinds.map DestinationKind.name)

end ListingLine

/-- The kinds of destination that an address is. -/
def Destinations.kindsAt (d : Destinations) (address : Nat) : List DestinationKind :=
  DestinationKind.all.filter fun kind => d.isValid kind address

def Code.listing (code : Code) (labels : Labels) (destinations : Option Destinations) :
    List ListingLine :=
  code.instructions.flatMap fun p =>
    (labels.namesAt p.1).map .label
      ++ [.instruction p.1 p.2 (match destinations with
          | some d => d.kindsAt p.1
          | none => [])]

def renderListing (lines : List ListingLine) : String :=
  String.join (lines.map fun l => l.render ++ "\n")

end Gosub
