import Gosub.Machine.Step

/-!
# What instructions do

Two ways to follow an instruction through its parts. `Keeps` says that an effect leaves the control
of a machine alone: all instructions but calls and returns do, and `Leads` says where they lead.
`Commutes` says that an effect does not see a change to the machine: instructions do not see one
that leaves their operands alone (`commutes_execute`). `CommutesUnless` says the same but for
results that are excused.
-/

namespace Gosub.Effects

open Machine

variable {α β : Type} {m n : Machine}

theorem bind_run (x : Effect α) (f : α → Effect β) (n : Machine) :
    (x >>= f) n = match x n with
      | .ok a n' => f a n'
      | .error trap n' => .error trap n' := by
  show EStateM.bind x f n = _
  unfold EStateM.bind
  cases x n <;> rfl

/-! ## Leaving the control alone -/

/-- Machines that differ at most in their data stacks and memories. -/
structure SameControl (m n : Machine) : Prop where
  destinations : n.destinations = m.destinations
  pc : n.pc = m.pc
  returns : n.returns = m.returns
  budget : n.budget = m.budget
  steps : n.steps = m.steps
  cost : n.cost = m.cost
  status : n.status = m.status

theorem SameControl.refl (m : Machine) : SameControl m m := ⟨rfl, rfl, rfl, rfl, rfl, rfl, rfl⟩

/-- Run on any machine with the control of `m`, the effect ends as `Q` says, or traps and leaves
that control alone. Only the budget refuses, which is charged before. -/
def Ends (m : Machine) (x : Effect α) (Q : α → Machine → Prop) : Prop :=
  ∀ n, SameControl m n → match x n with
    | .ok a n' => Q a n'
    | .error trap n' => trap.isRefusal = false ∧ SameControl m n'

/-- The effect leaves the control of `m` alone, and its result satisfies `P` unless it traps. -/
def Keeps (m : Machine) (x : Effect α) (P : α → Prop) : Prop := Ends m x fun a n => P a ∧ SameControl m n

theorem ends_bind {x : Effect α} {f : α → Effect β} {P : α → Prop} {Q : β → Machine → Prop} (first : Keeps m x P)
    (second : ∀ a, P a → Ends m (f a) Q) : Ends m (x >>= f) Q := by
  intro n same
  have start := first n same
  rw [bind_run]
  cases ran : x n with
  | ok a n' =>
    rw [ran] at start
    exact second a start.1 n' start.2
  | error trap n' =>
    rw [ran] at start
    exact start

/-- The same behind an effect that may result in anything. -/
theorem ends_then {x : Effect α} {f : α → Effect β} {Q : β → Machine → Prop} (first : Keeps m x fun _ => True)
    (second : ∀ a, Ends m (f a) Q) : Ends m (x >>= f) Q :=
  ends_bind first fun a _ => second a

theorem keeps_pure {P : α → Prop} {a : α} (holds : P a) : Keeps m (pure a) P :=
  fun _ same => ⟨holds, same⟩

theorem keeps_throw {P : α → Prop} {trap : Trap} (noRefusal : trap.isRefusal = false) :
    Keeps m (throw trap : Effect α) P :=
  fun _ same => ⟨noRefusal, same⟩

theorem keeps_get : Keeps m (get : Effect Machine) fun n => SameControl m n := fun _ same => ⟨same, same⟩

theorem keeps_takeWord : Keeps m takeWord fun _ => True := by
  intro n same
  unfold takeWord
  cases popped : n.stack.pop with
  | ok p => exact ⟨trivial, { same with }⟩
  | error trap => exact ⟨Stack.trap_of_pop popped ▸ rfl, same⟩

theorem keeps_changeStack {f : Stack → Except Trap Stack}
    (noRefusal : ∀ stack trap, f stack = .error trap → trap.isRefusal = false) :
    Keeps m (changeStack f) fun _ => True := by
  intro n same
  unfold changeStack
  cases changed : f n.stack with
  | ok stack => exact ⟨trivial, { same with }⟩
  | error trap => exact ⟨noRefusal _ trap changed, same⟩

theorem keeps_putWord (w : Word) : Keeps m (putWord w) fun _ => True :=
  keeps_changeStack fun _ _ refused => Stack.trap_of_push refused ▸ rfl

theorem keeps_dup (k : Nat) : Keeps m (changeStack (·.dup k)) fun _ => True :=
  keeps_changeStack fun _ _ refused => by rcases Stack.trap_of_dup refused with rfl | rfl <;> rfl

theorem keeps_swap (k : Nat) : Keeps m (changeStack (·.swap k)) fun _ => True :=
  keeps_changeStack fun _ _ refused => Stack.trap_of_swap refused ▸ rfl

theorem keeps_access (f : Memory → Except MemoryError (α × Memory)) : Keeps m (access f) fun _ => True := by
  intro n same
  unfold access
  cases f n.memory with
  | ok p => exact ⟨trivial, { same with }⟩
  | error e => exact ⟨rfl, same⟩

theorem keeps_resolve (kind : DestinationKind) (target : Word) :
    Keeps m (resolve kind target) fun a => m.destinations.isValid kind a = true := by
  intro n same
  unfold resolve
  rw [same.destinations]
  cases found : m.destinations.resolve? kind target with
  | none => exact ⟨rfl, same⟩
  | some a => exact ⟨(Option.filter_eq_some_iff.1 found).2, same⟩

/-- What is dropped is not there for the rest. -/
theorem discard_bind (x : Effect α) (y : Effect β) : (discard x >>= fun _ => y) = (x >>= fun _ => y) := by
  funext n
  rw [bind_run, bind_run]
  have dropped : (discard x) n = match x n with
      | .ok _ n' => .ok ⟨⟩ n'
      | .error trap n' => .error trap n' := by
    show EStateM.map _ x n = _
    unfold EStateM.map
    cases x n <;> rfl
  rw [dropped]
  cases x n <;> rfl

/-! ## Where instructions lead -/

/-- Where an instruction leads that neither calls nor returns. -/
inductive Leads (m : Machine) : Instruction → Flow → Prop
  | next {i : Instruction} : i.isHalting = false → Leads m i .next
  | jump {i : Instruction} {target : Nat} : i.isHalting = false → m.destinations.isValid .jump target = true →
      Leads m i (.jump target)
  | halt {i : Instruction} (h : Halt) : i.isHalting = true → Leads m i (.halt h)

theorem keeps_next {i : Instruction} {x : Effect α} (first : Keeps m x fun _ => True) (goesOn : i.isHalting = false) :
    Keeps m (x >>= fun _ => pure .next) (Leads m i) :=
  ends_then first fun _ => keeps_pure (.next goesOn)

theorem keeps_binary {i : Instruction} (f : Word → Word → Word) (goesOn : i.isHalting = false) :
    Keeps m (binary f) (Leads m i) :=
  ends_then keeps_takeWord fun _ => ends_then keeps_takeWord fun _ => keeps_next (keeps_putWord _) goesOn

theorem keeps_jump {i : Instruction} (target : Word) (goesOn : i.isHalting = false) :
    Keeps m (resolve .jump target >>= fun a => pure (.jump a)) (Leads m i) :=
  ends_bind (keeps_resolve .jump target) fun _ valid => keeps_pure (.jump goesOn valid)

/-- Plain operations but calls and returns leave the control alone. -/
theorem keeps_operation (o : Operation) (noCall : o ≠ .jumpsub) (noReturn : o ≠ .returnsub) :
    Keeps m o.execute (Leads m (.op o)) := by
  cases o with
  | jumpsub => exact absurd rfl noCall
  | returnsub => exact absurd rfl noReturn
  | stop => exact keeps_pure (.halt .stop rfl)
  | add => exact keeps_binary _ rfl
  | sub => exact keeps_binary _ rfl
  | lt => exact keeps_binary _ rfl
  | gt => exact keeps_binary _ rfl
  | eq => exact keeps_binary _ rfl
  | isZero => exact ends_then keeps_takeWord fun _ => keeps_next (keeps_putWord _) rfl
  | pop =>
    unfold Operation.execute
    rw [discard_bind]
    exact ends_then keeps_takeWord fun _ => keeps_pure (.next rfl)
  | mload =>
    refine ends_then keeps_takeWord fun offset => ?_
    exact ends_then (keeps_access _) fun w => keeps_next (keeps_putWord w) rfl
  | mstore =>
    exact ends_then keeps_takeWord fun _ => ends_then keeps_takeWord fun _ => keeps_next (keeps_access _) rfl
  | mstore8 =>
    exact ends_then keeps_takeWord fun _ => ends_then keeps_takeWord fun _ => keeps_next (keeps_access _) rfl
  | jump => exact ends_then keeps_takeWord fun target => keeps_jump target rfl
  | jumpi =>
    refine ends_then keeps_takeWord fun target => ends_then keeps_takeWord fun condition => ?_
    by_cases zero : condition = 0
    · rw [if_pos zero]
      exact keeps_pure (.next rfl)
    · rw [if_neg zero]
      exact keeps_jump target rfl
  | pc => exact ends_bind keeps_get fun _ _ => keeps_next (keeps_putWord _) rfl
  | msize => exact ends_bind keeps_get fun _ _ => keeps_next (keeps_putWord _) rfl
  | jumpdest => exact keeps_pure (.next rfl)
  | beginsub =>
    refine ends_bind keeps_get fun n _ => ?_
    cases n.policy with
    | shared => exact keeps_throw rfl
    | distinct => exact keeps_pure (.next rfl)
  | ret =>
    refine ends_then keeps_takeWord fun offset => ends_then keeps_takeWord fun length => ?_
    exact ends_then (keeps_access _) fun output => keeps_pure (.halt (.ret output) rfl)
  | revert =>
    refine ends_then keeps_takeWord fun offset => ends_then keeps_takeWord fun length => ?_
    exact ends_then (keeps_access _) fun output => keeps_pure (.halt (.revert output) rfl)

/-- Instructions but calls and returns leave the control alone. -/
theorem keeps_execute (i : Instruction) (noCall : i ≠ .op .jumpsub) (noReturn : i ≠ .op .returnsub) :
    Keeps m i.execute (Leads m i) := by
  cases i with
  | op o => exact keeps_operation o (fun same => noCall (same ▸ rfl)) (fun same => noReturn (same ▸ rfl))
  | push width value => exact keeps_next (keeps_putWord value) rfl
  | dup n => exact keeps_next (keeps_dup n) rfl
  | swap n => exact keeps_next (keeps_swap n) rfl
  | invalid b => exact keeps_throw rfl

/-- A call that does not trap saves its own address and leads to the entry of a subroutine. -/
theorem ends_call (m : Machine) :
    Ends m (Instruction.op .jumpsub).execute fun flow n => ∃ target returns, flow = .jump target ∧
      m.destinations.isValid .subroutine target = true ∧ m.returns.push m.pc = .ok returns ∧
      SameControl { m with returns } n := by
  refine ends_then keeps_takeWord fun word => ends_bind (keeps_resolve .subroutine word) fun target valid => ?_
  intro n same
  rw [bind_run]
  unfold saveCall
  have saving : n.returns.push n.pc = m.returns.push m.pc := by rw [same.returns, same.pc]
  rw [saving]
  cases pushed : m.returns.push m.pc with
  | error trap => exact ⟨ReturnStack.trap_of_push pushed ▸ rfl, same⟩
  | ok returns => exact ⟨target, returns, rfl, valid, rfl, { same with returns := rfl }⟩

/-- An instruction that traps leaves the control alone. -/
theorem execute_trapped {i : Instruction} {trap : Trap} (ran : i.execute m = .error trap n) :
    trap.isRefusal = false ∧ SameControl m n := by
  by_cases call : i = .op .jumpsub
  · have called := ends_call m m (.refl m)
    rw [← call, ran] at called
    exact called
  by_cases back : i = .op .returnsub
  · rw [back] at ran
    cases ran
  · have ended := keeps_execute i call back m (.refl m)
    rw [ran] at ended
    exact ended

/-- An instruction that completes leaves the control alone but for the return stack. -/
theorem execute_completed {i : Instruction} {flow : Flow} (ran : i.execute m = .ok flow n) :
    SameControl { m with returns := n.returns } n := by
  by_cases call : i = .op .jumpsub
  · have called := ends_call m m (.refl m)
    rw [← call, ran] at called
    obtain ⟨target, returns, -, -, -, same⟩ := called
    exact { same with returns := rfl }
  by_cases back : i = .op .returnsub
  · rw [back] at ran
    cases ran
    exact .refl _
  · have ended := keeps_execute i call back m (.refl m)
    rw [ran] at ended
    exact { ended.2 with returns := rfl }

/-! ## Changes that are not seen -/

/-- The same result, of a machine that `f` changes. -/
def mapState (f : Machine → Machine) : EStateM.Result Trap Machine α → EStateM.Result Trap Machine α
  | .ok a m => .ok a (f m)
  | .error trap m => .error trap (f m)

/-- Run after the change `f`, the effect does what it does before it. -/
def Commutes (f : Machine → Machine) (x : Effect α) : Prop := ∀ m, x (f m) = mapState f (x m)

/-- The change leaves alone what instructions read but calls, returns and their entries. -/
structure Unseen (f : Machine → Machine) : Prop where
  pc : ∀ m, (f m).pc = m.pc
  stack : ∀ m, (f m).stack = m.stack
  memory : ∀ m, (f m).memory = m.memory
  jump : ∀ m target, (f m).destinations.resolve? .jump target = m.destinations.resolve? .jump target
  setStack : ∀ m stack, f { m with stack } = { f m with stack }
  setMemory : ∀ m memory, f { m with memory } = { f m with memory }

variable {f : Machine → Machine}

theorem commutes_bind {x : Effect α} {g : α → Effect β} (first : Commutes f x) (second : ∀ a, Commutes f (g a)) :
    Commutes f (x >>= g) := by
  intro m
  rw [bind_run, bind_run, first m]
  cases x m with
  | ok a n => exact second a n
  | error trap n => rfl

theorem commutes_pure (a : α) : Commutes f (pure a) := fun _ => rfl

theorem commutes_throw (trap : Trap) : Commutes f (throw trap : Effect α) := fun _ => rfl

section

variable (stack : ∀ m, (f m).stack = m.stack) (setStack : ∀ m stack, f { m with stack } = { f m with stack })

include stack setStack

theorem commutes_takeWord : Commutes f takeWord := by
  intro m
  unfold takeWord
  rw [stack]
  cases m.stack.pop with
  | ok p => exact congrArg _ (setStack m p.2).symm
  | error trap => rfl

theorem commutes_changeStack (g : Stack → Except Trap Stack) : Commutes f (changeStack g) := by
  intro m
  unfold changeStack
  rw [stack]
  cases g m.stack with
  | ok stack => exact congrArg _ (setStack m stack).symm
  | error trap => rfl

end

theorem commutes_access (memory : ∀ m, (f m).memory = m.memory)
    (setMemory : ∀ m memory, f { m with memory } = { f m with memory }) (g : Memory → Except MemoryError (α × Memory)) :
    Commutes f (access g) := by
  intro m
  unfold access
  rw [memory]
  cases g m.memory with
  | ok p => exact congrArg _ (setMemory m p.2).symm
  | error e => rfl

theorem Unseen.takeWord (unseen : Unseen f) : Commutes f Machine.takeWord :=
  commutes_takeWord unseen.stack unseen.setStack

theorem Unseen.changeStack (unseen : Unseen f) (g : Stack → Except Trap Stack) : Commutes f (Machine.changeStack g) :=
  commutes_changeStack unseen.stack unseen.setStack g

theorem Unseen.access (unseen : Unseen f) (g : Memory → Except MemoryError (α × Memory)) :
    Commutes f (Machine.access g) :=
  commutes_access unseen.memory unseen.setMemory g

theorem commutes_resolve {kind : DestinationKind} {target : Word}
    (alike : ∀ m, (f m).destinations.resolve? kind target = m.destinations.resolve? kind target) :
    Commutes f (resolve kind target) := by
  intro m
  unfold resolve
  rw [alike]
  cases m.destinations.resolve? kind target with
  | some a => rfl
  | none => rfl

theorem commutes_saveCall (pc : ∀ m, (f m).pc = m.pc) (returns : ∀ m, (f m).returns = m.returns)
    (setReturns : ∀ m returns, f { m with returns } = { f m with returns }) : Commutes f saveCall := by
  intro m
  have saving : (f m).returns.push (f m).pc = m.returns.push m.pc := by rw [returns, pc]
  unfold saveCall
  rw [saving]
  cases m.returns.push m.pc with
  | ok saved => exact congrArg _ (setReturns m saved).symm
  | error trap => rfl

theorem commutes_get {g : Machine → Effect β} (alike : ∀ m, g (f m) = g m) (rest : ∀ n, Commutes f (g n)) :
    Commutes f (get >>= g) := by
  intro m
  rw [bind_run, bind_run]
  show g (f m) (f m) = mapState f (g m m)
  rw [alike, rest m m]

theorem commutes_next {x : Effect α} (first : Commutes f x) : Commutes f (x >>= fun _ => pure Flow.next) :=
  commutes_bind first fun _ => commutes_pure _

theorem commutes_binary (unseen : Unseen f) (g : Word → Word → Word) : Commutes f (binary g) := by
  refine commutes_bind unseen.takeWord fun _ => commutes_bind unseen.takeWord fun _ => ?_
  exact commutes_next (unseen.changeStack _)

theorem commutes_jump (unseen : Unseen f) (target : Word) :
    Commutes f (resolve .jump target >>= fun a => pure (Flow.jump a)) :=
  commutes_bind (commutes_resolve fun m => unseen.jump m target) fun _ => commutes_pure _

/-- An instruction that ends the execution with bytes of the memory. -/
theorem commutes_output (unseen : Unseen f) (halt : List UInt8 → Halt) :
    Commutes f (do
      let offset ← takeWord
      let length ← takeWord
      return Flow.halt (halt (← access (·.read offset length)))) := by
  refine commutes_bind unseen.takeWord fun _ => commutes_bind unseen.takeWord fun _ => ?_
  exact commutes_bind (unseen.access _) fun _ => commutes_pure _

theorem commutes_operation (unseen : Unseen f) (o : Operation) (noCall : o ≠ .jumpsub) (noReturn : o ≠ .returnsub)
    (noEntry : o ≠ .beginsub) : Commutes f o.execute := by
  cases o with
  | jumpsub => exact absurd rfl noCall
  | returnsub => exact absurd rfl noReturn
  | beginsub => exact absurd rfl noEntry
  | stop | jumpdest => exact commutes_pure _
  | add | sub | lt | gt | eq => exact commutes_binary unseen _
  | isZero =>
    exact commutes_bind unseen.takeWord fun _ => commutes_next (unseen.changeStack _)
  | pop =>
    unfold Operation.execute
    rw [discard_bind]
    exact commutes_next unseen.takeWord
  | mload =>
    refine commutes_bind unseen.takeWord fun _ => commutes_bind (unseen.access _) fun _ => ?_
    exact commutes_next (unseen.changeStack _)
  | mstore | mstore8 =>
    refine commutes_bind unseen.takeWord fun _ => commutes_bind unseen.takeWord fun _ => ?_
    exact commutes_next (unseen.access _)
  | jump => exact commutes_bind unseen.takeWord fun target => commutes_jump unseen target
  | jumpi =>
    refine commutes_bind unseen.takeWord fun target => ?_
    refine commutes_bind unseen.takeWord fun condition => ?_
    by_cases zero : condition = 0
    · rw [if_pos zero]
      exact commutes_pure _
    · rw [if_neg zero]
      exact commutes_jump unseen target
  | pc =>
    refine commutes_get (fun m => by rw [unseen.pc]) fun _ => ?_
    exact commutes_next (unseen.changeStack _)
  | msize =>
    refine commutes_get (fun m => by rw [unseen.memory]) fun _ => ?_
    exact commutes_next (unseen.changeStack _)
  | ret => exact commutes_output unseen .ret
  | revert => exact commutes_output unseen .revert

/-- Instructions but calls, returns and entries do not see an unseen change. -/
theorem commutes_execute (unseen : Unseen f) (i : Instruction) (noCall : i ≠ .op .jumpsub)
    (noReturn : i ≠ .op .returnsub) (noEntry : i ≠ .op .beginsub) : Commutes f i.execute := by
  cases i with
  | op o =>
    refine commutes_operation unseen o ?_ ?_ ?_
    · exact fun same => noCall (same ▸ rfl)
    · exact fun same => noReturn (same ▸ rfl)
    · exact fun same => noEntry (same ▸ rfl)
  | push width value => exact commutes_next (unseen.changeStack _)
  | dup n => exact commutes_next (unseen.changeStack _)
  | swap n => exact commutes_next (unseen.changeStack _)
  | invalid b => exact commutes_throw _

/-- A call does not see the change, if its entry and the saving of its address do not. -/
theorem commutes_call (unseen : Unseen f)
    (entry : ∀ m target, (f m).destinations.resolve? .subroutine target = m.destinations.resolve? .subroutine target)
    (saves : Commutes f saveCall) : Commutes f (Instruction.op .jumpsub).execute := by
  refine commutes_bind unseen.takeWord fun target => ?_
  refine commutes_bind (commutes_resolve fun m => entry m target) fun _ => ?_
  exact commutes_bind saves fun _ => commutes_pure _

theorem commutes_entry (policy : ∀ m, (f m).policy = m.policy) : Commutes f (Instruction.op .beginsub).execute := by
  refine commutes_get (fun m => by rw [policy]) fun n => ?_
  cases n.policy with
  | shared => exact commutes_throw _
  | distinct => exact commutes_pure _

/-! ## Changes that are seen at times -/

/-- An effect is excused if it traps in a way, or leaves a machine, that counts as seeing the change. -/
def Excused (traps : Trap → Prop) (leaves : Machine → Prop) : EStateM.Result Trap Machine α → Prop
  | .ok _ m => leaves m
  | .error trap _ => traps trap

/-- Unless it is excused, the effect does not see the change. -/
def CommutesUnless (f : Machine → Machine) (traps : Trap → Prop) (leaves : Machine → Prop) (x : Effect α) : Prop :=
  ∀ m, Excused traps leaves (x m) ∨ x (f m) = mapState f (x m)

variable {traps : Trap → Prop} {leaves : Machine → Prop}

theorem Commutes.unless {x : Effect α} (commutes : Commutes f x) : CommutesUnless f traps leaves x :=
  fun m => .inr (commutes m)

/-- What goes before others may only be excused by a trap. -/
theorem unless_bind {x : Effect α} {g : α → Effect β} (first : CommutesUnless f traps (fun _ => False) x)
    (second : ∀ a, CommutesUnless f traps leaves (g a)) : CommutesUnless f traps leaves (x >>= g) := by
  intro m
  rw [bind_run, bind_run]
  rcases first m with excused | same
  · cases ran : x m with
    | ok a n =>
      rw [ran] at excused
      exact excused.elim
    | error trap n =>
      rw [ran] at excused
      exact .inl excused
  · rw [same]
    cases x m with
    | ok a n => exact second a n
    | error trap n => exact .inr rfl

theorem unless_next {x : Effect α} (first : CommutesUnless f traps leaves x) :
    CommutesUnless f traps leaves (x >>= fun _ => pure Flow.next) := by
  intro m
  rw [bind_run, bind_run]
  rcases first m with excused | same
  · cases ran : x m with
    | ok a n =>
      rw [ran] at excused
      exact .inl excused
    | error trap n =>
      rw [ran] at excused
      exact .inl excused
  · rw [same]
    cases x m <;> exact .inr rfl

theorem unless_get {g : Machine → Effect β} (alike : ∀ m, g (f m) = g m)
    (rest : ∀ n, CommutesUnless f traps leaves (g n)) : CommutesUnless f traps leaves (get >>= g) := by
  intro m
  rw [bind_run, bind_run]
  show Excused traps leaves (g m m) ∨ g (f m) (f m) = mapState f (g m m)
  rw [alike]
  exact rest m m

end Gosub.Effects
