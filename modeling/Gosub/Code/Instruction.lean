import Gosub.Code.Opcode
import Gosub.Word

/-!
# Instructions

A decoded instruction carries its index or its immediate. Values outside the ranges that have an
opcode can be built, but have no encoding of their own.
-/

namespace Gosub

inductive Instruction where
  | op (operation : Operation)
  /-- Push a word that is encoded in `width` bytes. -/
  | push (width : Nat) (value : Word)
  /-- Copy the `n`th word, the top being the first. -/
  | dup (n : Nat)
  /-- Exchange the top word with the `n`th below it. -/
  | swap (n : Nat)
  /-- An unassigned byte, or the one set apart as invalid. -/
  | invalid (byte : UInt8)
  deriving DecidableEq

namespace Instruction

/-- The instruction of an opcode; a push of zero where an immediate is needed. -/
def ofOpcode : Opcode → Instruction
  | .op o => op o
  | .push k => push (k.val + 1) 0
  | .dup k => dup (k.val + 1)
  | .swap k => swap (k.val + 1)
  | .invalid => invalid Opcode.invalidByte

/-- The opcode of an instruction, if it has one. -/
def opcode? : Instruction → Option Opcode
  | op o => some (.op o)
  | push width _ => Opcode.push? width
  | dup n => Opcode.dup? n
  | swap n => Opcode.swap? n
  | invalid b => Opcode.ofByte? b

def size : Instruction → Nat
  | push width _ => width + 1
  | _ => 1

/-- The encoded instruction: the byte of its opcode, then the immediate of a push. -/
def encode : Instruction → List UInt8
  | invalid b => [b]
  | push width value => match Opcode.push? width with
    | some o => o.byte :: bytesOfNat width value.toNat
    | none => [Opcode.invalidByte]
  | i => match i.opcode? with
    | some o => [o.byte]
    | none => [Opcode.invalidByte]

def cost : Instruction → Nat
  | op o => o.cost
  | push _ _ | dup _ | swap _ => 3
  | invalid _ => 0

def isHalting : Instruction → Bool
  | op o => o.isHalting
  | _ => false

def render : Instruction → String
  | op o => o.mnemonic
  | push width value => "push" ++ toString width ++ " " ++ value.render
  | dup n => "dup" ++ toString n
  | swap n => "swap" ++ toString n
  | invalid b => "invalid 0x" ++ Numeral.hexPadded 2 b.toNat

theorem size_pos (i : Instruction) : 0 < i.size := by
  cases i <;> simp [size]

end Instruction

end Gosub
