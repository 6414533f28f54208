import Gosub.Code.Instruction
import Gosub.Text.Hex

/-!
# Bytecode

A program is a row of bytes, read as if zeros followed it without end. `Code.fetch` decodes the
instruction at an address, `Code.instructions` walks the code from its start, each instruction
beginning where the one before it ends.
-/

namespace Gosub

/-- A program, ready to run. -/
structure Code where
  bytes : Array UInt8
  deriving DecidableEq

namespace Code

def ofList (bytes : List UInt8) : Code := ⟨bytes.toArray⟩

def toList (code : Code) : List UInt8 := code.bytes.toList

def size (code : Code) : Nat := code.bytes.size

/-- The byte at an address, zero past the end. -/
def byteAt (code : Code) (address : Nat) : UInt8 := code.bytes.getD address 0

/-- The word of the `width` bytes from an address on. -/
def immediate (code : Code) (address width : Nat) : Word :=
  .ofNat (natOfBytes ((List.range width).map fun i => code.byteAt (address + i)))

/-- The instruction at an address, `stop` past the end. -/
def fetch (code : Code) (address : Nat) : Instruction :=
  match code.bytes[address]? with
  | none => .op .stop
  | some b => match Opcode.ofByte? b with
    | none => .invalid b
    | some (.push k) => .push (k.val + 1) (code.immediate (address + 1) (k.val + 1))
    | some o => .ofOpcode o

/-- The instructions from an address to the end of the code, with their addresses. -/
def instructionsFrom (code : Code) (address : Nat) : List (Nat × Instruction) :=
  if address < code.size then
    (address, code.fetch address) :: code.instructionsFrom (address + (code.fetch address).size)
  else []
termination_by code.size - address
decreasing_by
  have := (code.fetch address).size_pos
  omega

def instructions (code : Code) : List (Nat × Instruction) := code.instructionsFrom 0

def ofHex (text : String) : Except Hex.ReadError Code := (Hex.read text).map ofList

def render (code : Code) : String := Hex.render code.toList

end Code

end Gosub
