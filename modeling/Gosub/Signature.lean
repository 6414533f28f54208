import Gosub.Text.Hex
import Gosub.Word

/-!
# Compact signatures

A recoverable signature holds two words and the parity of a curve point. When the top bit of `s`
is clear, the parity fits there, and two words hold the whole signature.
-/

namespace Gosub

/-- Why a signature can not be built, compacted or read. -/
inductive SignatureError where
  | invalidRecoveryId (v : Nat)
  | highS
  | invalidLength (length : Nat)
  deriving DecidableEq

/-- A signature, with the parity of the point's second coordinate. -/
structure Signature where
  r : Word
  s : Word
  yParity : Bool
  deriving DecidableEq

/-- A signature whose parity is the top bit of its second word. -/
structure CompactSignature where
  r : Word
  vs : Word
  deriving DecidableEq

/-- The word whose top bit alone is set. -/
def Word.highBit : Word := 1 <<< 255

def CompactSignature.size : Nat := 64

def SignatureError.message : SignatureError → String
  | .invalidRecoveryId v => "invalid recovery id " ++ toString v ++ ", expected 0, 1, 27 or 28"
  | .highS => "s has its top bit set and can not be compacted"
  | .invalidLength n =>
    "compact signatures are " ++ toString CompactSignature.size ++ " bytes long, got " ++ toString n

namespace Signature

/-- Builds a signature from a recovery id, which is the parity, or the parity plus 27. -/
def ofRecoveryId (r s : Word) (v : Nat) : Except SignatureError Signature :=
  if v = 0 ∨ v = 27 then .ok ⟨r, s, false⟩
  else if v = 1 ∨ v = 28 then .ok ⟨r, s, true⟩
  else .error (.invalidRecoveryId v)

/-- The recovery id, 27 or 28. -/
def recoveryId (sig : Signature) : Nat := 27 + sig.yParity.toNat

/-- Folds the parity into the top bit of `s`, which must be clear. -/
def toCompact (sig : Signature) : Except SignatureError CompactSignature :=
  if sig.s.msb then .error .highS
  else .ok ⟨sig.r, if sig.yParity then sig.s ||| Word.highBit else sig.s⟩

end Signature

namespace CompactSignature

/-- Splits the parity off again. -/
def expand (c : CompactSignature) : Signature :=
  ⟨c.r, c.vs &&& ~~~Word.highBit, c.vs.msb⟩

def toBytes (c : CompactSignature) : List UInt8 := c.r.toBytes ++ c.vs.toBytes

/-- Both words as one run of hexadecimal digits. -/
def render (c : CompactSignature) : String := Hex.render c.toBytes

def ofBytes (bytes : List UInt8) : Except SignatureError CompactSignature :=
  if bytes.length = size then
    .ok ⟨.ofNat (natOfBytes (bytes.take Word.size)), .ofNat (natOfBytes (bytes.drop Word.size))⟩
  else .error (.invalidLength bytes.length)

end CompactSignature

end Gosub
