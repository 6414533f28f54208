import Gosub.Code.Operation
import Gosub.Text.Quoted

/-!
# Opcodes

The meaning of the assigned bytes: a plain operation, a member of the families of pushes, copies
and exchanges, or the byte set apart as invalid. Members of a family are counted from zero here
and from one in their names.
-/

namespace Gosub

inductive Opcode where
  | op (operation : Operation)
  /-- Push the following `index + 1` bytes. -/
  | push (index : Fin 32)
  /-- Copy the word at depth `index`. -/
  | dup (index : Fin 16)
  /-- Exchange the top word with the one `index + 1` below it. -/
  | swap (index : Fin 16)
  | invalid
  deriving DecidableEq

namespace Opcode

def firstPush : Nat := 0x60
def firstDup : Nat := 0x80
def firstSwap : Nat := 0x90
def invalidByte : UInt8 := 0xfe

def byte : Opcode → UInt8
  | op o => o.byte
  | push k => UInt8.ofNat (firstPush + k)
  | dup k => UInt8.ofNat (firstDup + k)
  | swap k => UInt8.ofNat (firstSwap + k)
  | invalid => invalidByte

/-- The member of a family of `n` consecutive bytes. -/
def member? (first n : Nat) (b : UInt8) : Option (Fin n) :=
  if h : first ≤ b.toNat ∧ b.toNat < first + n then some ⟨b.toNat - first, by omega⟩ else none

/-- The opcode of a byte, if it is assigned. -/
def ofByte? (b : UInt8) : Option Opcode :=
  if b = invalidByte then some invalid
  else match member? firstPush 32 b with
    | some k => some (push k)
    | none => match member? firstDup 16 b with
      | some k => some (dup k)
      | none => match member? firstSwap 16 b with
        | some k => some (swap k)
        | none => (Operation.ofByte? b).map op

def mnemonic : Opcode → String
  | op o => o.mnemonic
  | push k => "push" ++ toString (k.val + 1)
  | dup k => "dup" ++ toString (k.val + 1)
  | swap k => "swap" ++ toString (k.val + 1)
  | invalid => "invalid"

def immediateSize : Opcode → Nat
  | push k => k.val + 1
  | _ => 0

/-- The push of a given width, which is 1 to 32. -/
def push? (width : Nat) : Option Opcode :=
  if h : 1 ≤ width ∧ width ≤ 32 then some (push ⟨width - 1, by omega⟩) else none

/-- The copy of the `n`th word, which is the first to the sixteenth. -/
def dup? (n : Nat) : Option Opcode :=
  if h : 1 ≤ n ∧ n ≤ 16 then some (dup ⟨n - 1, by omega⟩) else none

/-- The exchange with the `n`th word below the top, which is the first to the sixteenth. -/
def swap? (n : Nat) : Option Opcode :=
  if h : 1 ≤ n ∧ n ≤ 16 then some (swap ⟨n - 1, by omega⟩) else none

def all : List Opcode :=
  Operation.all.map op ++ (List.finRange 32).map push ++ (List.finRange 16).map dup
    ++ (List.finRange 16).map swap ++ [invalid]

/-- Lower-cases the ASCII letters of a name. -/
def foldCase (name : String) : String := String.ofList (name.toList.map Char.toLower)

/-- The opcode of a name, whatever the case of its ASCII letters. -/
def ofMnemonic? (name : String) : Option Opcode :=
  all.find? fun o => o.mnemonic == foldCase name

end Opcode

structure UnknownMnemonic where
  name : String
  deriving DecidableEq

def UnknownMnemonic.message (e : UnknownMnemonic) : String :=
  "unknown mnemonic " ++ Text.quote e.name

def Opcode.read (name : String) : Except UnknownMnemonic Opcode :=
  match ofMnemonic? name with
  | some o => .ok o
  | none => .error ⟨name⟩

end Gosub
