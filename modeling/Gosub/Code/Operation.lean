/-!
# Plain operations

The operations that are a single byte and stand for themselves, with their bytes, their names and
what they cost. Pushes, copies and exchanges come in families and have opcodes of their own.
-/

namespace Gosub

inductive Operation where
  /-- Halt without output. -/
  | stop
  /-- Wrapping sum of the two top words. -/
  | add
  /-- Wrapping difference of the two top words. -/
  | sub
  | lt
  | gt
  | eq
  | isZero
  | pop
  | mload
  | mstore
  | mstore8
  | jump
  /-- Jump to a jump destination if a condition is not zero. -/
  | jumpi
  /-- Push the address of this instruction. -/
  | pc
  /-- Push the size of the memory. -/
  | msize
  | jumpdest
  /-- Call the subroutine whose entry is on top of the stack. -/
  | jumpsub
  | beginsub
  /-- Return to the instruction after the last call. -/
  | returnsub
  /-- Halt with a slice of memory. -/
  | ret
  /-- Halt with a slice of memory, reverting. -/
  | revert
  deriving DecidableEq

namespace Operation

/-- Every operation, in the order of their bytes. -/
def all : List Operation :=
  [stop, add, sub, lt, gt, eq, isZero, pop, mload, mstore, mstore8, jump, jumpi, pc, msize,
   jumpdest, jumpsub, beginsub, returnsub, ret, revert]

def byte : Operation → UInt8
  | stop => 0x00
  | add => 0x01
  | sub => 0x03
  | lt => 0x10
  | gt => 0x11
  | eq => 0x14
  | isZero => 0x15
  | pop => 0x50
  | mload => 0x51
  | mstore => 0x52
  | mstore8 => 0x53
  | jump => 0x56
  | jumpi => 0x57
  | pc => 0x58
  | msize => 0x59
  | jumpdest => 0x5b
  | jumpsub => 0xb3
  | beginsub => 0xb5
  | returnsub => 0xb7
  | ret => 0xf3
  | revert => 0xfd

def mnemonic : Operation → String
  | stop => "stop"
  | add => "add"
  | sub => "sub"
  | lt => "lt"
  | gt => "gt"
  | eq => "eq"
  | isZero => "iszero"
  | pop => "pop"
  | mload => "mload"
  | mstore => "mstore"
  | mstore8 => "mstore8"
  | jump => "jump"
  | jumpi => "jumpi"
  | pc => "pc"
  | msize => "msize"
  | jumpdest => "jumpdest"
  | jumpsub => "jumpsub"
  | beginsub => "beginsub"
  | returnsub => "returnsub"
  | ret => "return"
  | revert => "revert"

def cost : Operation → Nat
  | stop | ret | revert => 0
  | jumpdest | beginsub => 1
  | pop | pc | msize => 2
  | add | sub | lt | gt | eq | isZero | mload | mstore | mstore8 => 3
  | returnsub => 5
  | jump => 8
  | jumpi | jumpsub => 10

/-- Whether the operation ends the execution normally. -/
def isHalting : Operation → Bool
  | stop | ret | revert => true
  | _ => false

def ofByte? (b : UInt8) : Option Operation := all.find? fun o => o.byte == b

end Operation

end Gosub
