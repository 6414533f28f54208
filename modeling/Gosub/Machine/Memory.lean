import Gosub.Machine.Trap

/-!
# Memory

Bytes that start out as zero. An access first makes the memory reach its end, in whole words; what
ends beyond the limit is refused.
-/

namespace Gosub

structure Memory where
  bytes : Array UInt8
  /-- Accesses end here at the latest. -/
  limit : Nat
  deriving DecidableEq

namespace Memory

def defaultLimit : Nat := 1048576

def empty (limit : Nat) : Memory := ⟨#[], limit⟩

def size (m : Memory) : Nat := m.bytes.size

/-- The byte at an address, zero where the memory does not reach. -/
def byteAt (m : Memory) (address : Nat) : UInt8 := m.bytes.getD address 0

/-- A size rounded up to whole words. -/
def roundUp (n : Nat) : Nat := (n + (Word.size - 1)) / Word.size * Word.size

/-- The memory grown with zeros to a size, if it is smaller. -/
def growTo (m : Memory) (size : Nat) : Memory :=
  { m with bytes := m.bytes ++ Array.replicate (size - m.bytes.size) 0 }

/-- Makes `length` bytes from a word on addressable, and gives the address of the first. -/
def expand (m : Memory) (offset : Word) (length : Nat) : Except MemoryError (Nat × Memory) :=
  match offset.address? with
  | none => .error (.invalidOffset offset)
  | some start =>
    if addressBound ≤ start + length then .error (.invalidOffset offset)
    else if m.limit < start + length then .error (.limitExceeded (start + length) m.limit)
    else .ok (start, m.growTo (roundUp (start + length)))

def slice (m : Memory) (start length : Nat) : List UInt8 :=
  (m.bytes.extract start (start + length)).toList

def write (m : Memory) (start : Nat) : List UInt8 → Memory
  | [] => m
  | b :: rest => { m with bytes := m.bytes.setIfInBounds start b }.write (start + 1) rest

/-- The word of the 32 bytes from an offset on. -/
def load (m : Memory) (offset : Word) : Except MemoryError (Word × Memory) := do
  let (start, m) ← m.expand offset Word.size
  return (.ofNat (natOfBytes (m.slice start Word.size)), m)

/-- Stores a word in the 32 bytes from an offset on. -/
def store (m : Memory) (offset value : Word) : Except MemoryError Memory := do
  let (start, m) ← m.expand offset Word.size
  return m.write start value.toBytes

/-- Stores the lowest byte of a word. -/
def store8 (m : Memory) (offset value : Word) : Except MemoryError Memory := do
  let (start, m) ← m.expand offset 1
  return m.write start [value.lowByte]

/-- Copies a range of bytes. An empty range never touches the memory. -/
def read (m : Memory) (offset length : Word) : Except MemoryError (List UInt8 × Memory) :=
  if length = 0 then .ok ([], m)
  else match length.address? with
    | none => .error (.invalidOffset length)
    | some n => do
      let (start, m) ← m.expand offset n
      return (m.slice start n, m)

end Memory

end Gosub
