import Gosub.Proofs.Effects

/-!
# Instructions from their parts

An instruction takes its operands, then uses the memory, the destinations or the return stack, and puts a word on the
stack last of all. So what a property says of each part tells what it says of every instruction (`Closed.execute`).
-/

namespace Gosub.Parts

open Machine
open Gosub.Effects

/-- What comes next depends only on what instructions may know of the machine: its program counter, the size of its
memory and its policy. -/
def Glances (g : Machine → Effect Flow) : Prop :=
  ∀ m n, n.pc = m.pc → n.memory.size = m.memory.size → n.policy = m.policy → g n = g m

/-- Instructions satisfy `Whole` when their parts satisfy `Part`. The last part may satisfy less than the others. -/
structure Closed (Part : {α : Type} → Effect α → Prop) (Whole : Effect Flow → Prop) : Prop where
  bind : ∀ {α : Type} {x : Effect α} {f : α → Effect Flow}, Part x → (∀ a, Whole (f a)) → Whole (x >>= f)
  ends : ∀ flow, Whole (pure flow)
  throws : ∀ b, Whole (throw (.invalidInstruction b))
  get : ∀ {g : Machine → Effect Flow}, Glances g → (∀ n, Whole (g n)) → Whole (get >>= g)
  -- What instructions do before the last part.
  takeWord : Part takeWord
  load : ∀ offset, Part (access (·.load offset))
  read : ∀ offset length, Part (access (·.read offset length))
  store : ∀ offset value, Part (changeMemory (·.store offset value))
  store8 : ∀ offset value, Part (changeMemory (·.store8 offset value))
  resolve : ∀ kind target, Part (resolve kind target)
  saveCall : Part saveCall
  takeCall : Part takeCall
  -- What they do to the stack in the last part.
  put : ∀ w, Whole (putWord w >>= fun _ => pure .next)
  dup : ∀ n, Whole (changeStack (·.dup n) >>= fun _ => pure .next)
  swap : ∀ n, Whole (changeStack (·.swap n) >>= fun _ => pure .next)

variable {Part : {α : Type} → Effect α → Prop} {Whole : Effect Flow → Prop} (closed : Closed Part Whole)

include closed

theorem Closed.words {f : Word → Word → Effect Flow} (rest : ∀ a b, Whole (f a b)) :
    Whole (Machine.takeWord >>= fun a => Machine.takeWord >>= f a) :=
  closed.bind closed.takeWord fun a => closed.bind closed.takeWord (rest a)

theorem Closed.jump (target : Word) : Whole (Machine.resolve .jump target >>= fun a => pure (.jump a)) :=
  closed.bind (closed.resolve _ _) fun _ => closed.ends _

theorem Closed.output (halt : List UInt8 → Halt) :
    Whole (do
      let offset ← Machine.takeWord
      let length ← Machine.takeWord
      return .halt (halt (← access (·.read offset length)))) :=
  closed.words fun offset length => closed.bind (closed.read offset length) fun _ => closed.ends _

theorem Closed.operation (o : Operation) : Whole o.execute := by
  cases o with
  | stop | jumpdest => exact closed.ends _
  | add | sub | lt | gt | eq => exact closed.words fun _ _ => closed.put _
  | isZero => exact closed.bind closed.takeWord fun _ => closed.put _
  | pop =>
    unfold Operation.execute
    rw [discard_bind]
    exact closed.bind closed.takeWord fun _ => closed.ends _
  | mload => exact closed.bind closed.takeWord fun offset => closed.bind (closed.load offset) fun w => closed.put w
  | mstore => exact closed.words fun offset value => closed.bind (closed.store offset value) fun _ => closed.ends _
  | mstore8 => exact closed.words fun offset value => closed.bind (closed.store8 offset value) fun _ => closed.ends _
  | jump => exact closed.bind closed.takeWord fun target => closed.jump target
  | jumpi =>
    refine closed.words fun target condition => ?_
    by_cases zero : condition = 0
    · rw [if_pos zero]
      exact closed.ends _
    · rw [if_neg zero]
      exact closed.jump target
  | pc => exact closed.get (fun m n pc _ _ => by rw [pc]) fun _ => closed.put _
  | msize => exact closed.get (fun m n _ size _ => by rw [size]) fun _ => closed.put _
  | jumpsub =>
    refine closed.bind closed.takeWord fun target => closed.bind (closed.resolve .subroutine target) fun entry => ?_
    exact closed.bind closed.saveCall fun _ => closed.ends _
  | beginsub =>
    refine closed.get (fun m n _ _ policy => by rw [policy]) fun n => ?_
    cases n.policy with
    | shared => exact closed.throws _
    | distinct => exact closed.ends _
  | returnsub => exact closed.bind closed.takeCall fun _ => closed.ends _
  | ret => exact closed.output .ret
  | revert => exact closed.output .revert

theorem Closed.execute (i : Instruction) : Whole i.execute := by
  cases i with
  | op o => exact closed.operation o
  | push width value => exact closed.put value
  | dup n => exact closed.dup n
  | swap n => exact closed.swap n
  | invalid b => exact closed.throws _

end Gosub.Parts
