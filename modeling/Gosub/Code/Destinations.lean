import Gosub.Code.Basic

/-!
# Destinations

Which addresses a jump or a call may go to. A destination is an instruction of the walk that marks
one, so that no byte of an immediate is ever a destination; the policy says which instruction marks
the entry of a subroutine.
-/

namespace Gosub

inductive DestinationKind where
  | jump
  | subroutine
  deriving DecidableEq

/-- Which instruction marks the entry of a subroutine. -/
inductive Policy where
  /-- `jumpdest` marks jump destinations and entries alike; `beginsub` is no instruction. -/
  | shared
  /-- `jumpdest` marks jump destinations alone, `beginsub` entries alone. -/
  | distinct
  deriving DecidableEq

namespace DestinationKind

def all : List DestinationKind := [jump, subroutine]

def name : DestinationKind → String
  | jump => "jump"
  | subroutine => "subroutine"

def ofName? (name : String) : Option DestinationKind := all.find? fun k => k.name == name

end DestinationKind

/-- The kinds of destination found at an address. -/
structure Markers where
  jump : Bool
  subroutine : Bool
  deriving DecidableEq

namespace Markers

def empty : Markers := ⟨false, false⟩

def has (m : Markers) : DestinationKind → Bool
  | .jump => m.jump
  | .subroutine => m.subroutine

/-- The markers as a number, bit 0 for jumps and bit 1 for calls. -/
def bits (m : Markers) : Nat := m.jump.toNat + 2 * m.subroutine.toNat

end Markers

namespace Policy

def all : List Policy := [shared, distinct]

def name : Policy → String
  | shared => "shared"
  | distinct => "distinct"

def ofName? (name : String) : Option Policy := all.find? fun p => p.name == name

def markers : Policy → Instruction → Markers
  | shared, .op .jumpdest => ⟨true, true⟩
  | distinct, .op .jumpdest => ⟨true, false⟩
  | distinct, .op .beginsub => ⟨false, true⟩
  | _, _ => .empty

end Policy

/-- The marked addresses of the code in increasing order, with what is marked there. -/
def Code.marked (code : Code) (policy : Policy) : List (Nat × Markers) :=
  (code.instructions.map fun p => (p.1, policy.markers p.2)).filter fun p => p.2 ≠ .empty

/-- The destinations of a code under a policy. -/
structure Destinations where
  code : Code
  policy : Policy
  marked : List (Nat × Markers)
  marked_eq : marked = code.marked policy

/-- The destinations of a code under a policy. -/
def Code.destinations (code : Code) (policy : Policy) : Destinations :=
  ⟨code, policy, code.marked policy, rfl⟩

namespace Destinations

def markersAt (d : Destinations) (address : Nat) : Markers :=
  (d.marked.lookup address).getD .empty

def isValid (d : Destinations) (kind : DestinationKind) (address : Nat) : Bool :=
  (d.markersAt address).has kind

def ofKind (d : Destinations) (kind : DestinationKind) : List Nat :=
  (d.marked.filter fun p => p.2.has kind).map (·.1)

/-- The address that a word names, if it is a destination of a kind. -/
def resolve? (d : Destinations) (kind : DestinationKind) (target : Word) : Option Nat :=
  target.address?.filter (d.isValid kind)

end Destinations

end Gosub
