import Gosub.Proofs.Effects

/-!
# How effects end

An effect is followed from one machine: with what it ends there, or what it leaves there when it traps.
Each part of an instruction has one lemma, and a row of parts goes on from what the first of them left
(`yields_bind`).
-/

namespace Gosub

/-- The machine with these words on its stack instead, top first. -/
def Machine.holding (m : Machine) (words : List Word) : Machine := { m with stack := { m.stack with words } }

end Gosub

namespace Gosub.Results

open Machine
open Gosub.Effects

variable {α β : Type} {m : Machine} {R : Trap → Machine → Prop}

/-- Run on `m`, the effect ends as `Q` says, or traps as `R` says. -/
def Yields (m : Machine) (x : Effect α) (Q : α → Machine → Prop) (R : Trap → Machine → Prop) : Prop :=
  match x m with
  | .ok a n => Q a n
  | .error trap n => R trap n

theorem Yields.of_ok {x : Effect α} {Q : α → Machine → Prop} {a : α} {n : Machine} (yields : Yields m x Q R)
    (ran : x m = .ok a n) : Q a n := by
  unfold Yields at yields
  rw [ran] at yields
  exact yields

theorem Yields.of_error {x : Effect α} {Q : α → Machine → Prop} {trap : Trap} {n : Machine}
    (yields : Yields m x Q R) (ran : x m = .error trap n) : R trap n := by
  unfold Yields at yields
  rw [ran] at yields
  exact yields

theorem yields_bind {x : Effect α} {f : α → Effect β} {Q : β → Machine → Prop}
    (yields : Yields m x (fun a n => Yields n (f a) Q R) R) : Yields m (x >>= f) Q R := by
  unfold Yields at yields ⊢
  rw [bind_run]
  cases ran : x m with
  | ok a n =>
    rw [ran] at yields
    exact yields
  | error trap n =>
    rw [ran] at yields
    exact yields

theorem yields_pure {a : α} {Q : α → Machine → Prop} (holds : Q a m) : Yields m (pure a) Q R := holds

theorem yields_throw {trap : Trap} {Q : α → Machine → Prop} (holds : R trap m) :
    Yields m (throw trap : Effect α) Q R := holds

theorem yields_get {Q : Machine → Machine → Prop} (holds : Q m m) : Yields m (get : Effect Machine) Q R := holds

theorem yields_takeWord {Q : Word → Machine → Prop} (short : m.stack.words = [] → R .stackUnderflow m)
    (taken : ∀ w rest, m.stack.words = w :: rest → Q w (m.holding rest)) : Yields m takeWord Q R := by
  unfold Yields takeWord Stack.pop
  cases held : m.stack.words with
  | nil => exact short held
  | cons w rest => exact taken w rest held

theorem yields_changeStack {f : Stack → Except Trap Stack} {Q : Unit → Machine → Prop}
    (refused : ∀ trap, f m.stack = .error trap → R trap m)
    (changed : ∀ stack, f m.stack = .ok stack → Q () { m with stack }) : Yields m (changeStack f) Q R := by
  unfold Yields changeStack
  cases made : f m.stack with
  | error trap => exact refused trap made
  | ok stack => exact changed stack made

theorem yields_putWord {w : Word} {Q : Unit → Machine → Prop}
    (full : m.stack.limit ≤ m.stack.size → R .stackOverflow m)
    (put : m.stack.size < m.stack.limit → Q () (m.holding (w :: m.stack.words))) : Yields m (putWord w) Q R := by
  refine yields_changeStack (fun trap refused => ?_) fun stack done => ?_
  · obtain ⟨noRoom, rfl⟩ := Stack.full_of_push refused
    exact full noRoom
  · obtain ⟨room, rfl⟩ := Stack.eq_of_push done
    exact put room

theorem yields_access {f : Memory → Except MemoryError (α × Memory)} {Q : α → Machine → Prop}
    (refused : ∀ e, f m.memory = .error e → R (.invalidMemoryAccess e) m)
    (done : ∀ a memory, f m.memory = .ok (a, memory) → Q a { m with memory }) : Yields m (access f) Q R := by
  unfold Yields access
  cases used : f m.memory with
  | error e => exact refused e used
  | ok p => exact done p.1 p.2 used

theorem yields_changeMemory {f : Memory → Except MemoryError Memory} {Q : Unit → Machine → Prop}
    (refused : ∀ e, f m.memory = .error e → R (.invalidMemoryAccess e) m)
    (done : ∀ memory, f m.memory = .ok memory → Q () { m with memory }) : Yields m (changeMemory f) Q R := by
  unfold changeMemory
  refine yields_access (fun e failed => ?_) fun _ memory changed => ?_
  · cases used : f m.memory with
    | error e' =>
      rw [used] at failed
      cases failed
      exact refused _ used
    | ok memory =>
      rw [used] at failed
      cases failed
  · cases used : f m.memory with
    | error e =>
      rw [used] at changed
      cases changed
    | ok memory' =>
      rw [used] at changed
      cases changed
      exact done _ used

theorem yields_resolve {kind : DestinationKind} {target : Word} {Q : Nat → Machine → Prop}
    (refused : m.destinations.resolve? kind target = none → R (.invalidDestination kind target) m)
    (resolved : ∀ a, m.destinations.resolve? kind target = some a → Q a m) : Yields m (resolve kind target) Q R := by
  unfold Yields resolve
  cases found : m.destinations.resolve? kind target with
  | none => exact refused found
  | some a => exact resolved a found

theorem yields_saveCall {Q : Unit → Machine → Prop}
    (full : ∀ trap, m.returns.push m.pc = .error trap → R trap m)
    (saved : ∀ returns, m.returns.push m.pc = .ok returns → Q () { m with returns }) : Yields m saveCall Q R := by
  unfold Yields saveCall
  cases pushed : m.returns.push m.pc with
  | error trap => exact full trap pushed
  | ok returns => exact saved returns pushed

theorem yields_takeCall {Q : Nat → Machine → Prop} (taken : Q m.returns.pop.1 { m with returns := m.returns.pop.2 }) :
    Yields m takeCall Q R := taken

/-! ## Operands -/

/-- An effect that begins with the top word. -/
theorem yields_word {f : Word → Effect β} {Q : β → Machine → Prop}
    (none : m.stack.words = [] → R .stackUnderflow m)
    (one : ∀ a rest, m.stack.words = a :: rest → Yields (m.holding rest) (f a) Q R) :
    Yields m (takeWord >>= f) Q R :=
  yields_bind (yields_takeWord none one)

/-- An effect that begins with the two top words. -/
theorem yields_words {f : Word → Word → Effect β} {Q : β → Machine → Prop}
    (none : m.stack.words = [] → R .stackUnderflow m)
    (one : ∀ a, m.stack.words = [a] → R .stackUnderflow (m.holding []))
    (two : ∀ a b rest, m.stack.words = a :: b :: rest → Yields (m.holding rest) (f a b) Q R) :
    Yields m (takeWord >>= fun a => takeWord >>= f a) Q R := by
  refine yields_word none fun a rest held => yields_word (fun empty => ?_) fun b rest' more => ?_
  · obtain rfl : rest = [] := empty
    exact one a held
  · obtain rfl : rest = b :: rest' := more
    exact two a b rest' held

/-- An effect that ends with a word on the stack. -/
theorem yields_putNext {w : Word} {Q : Flow → Machine → Prop}
    (full : m.stack.limit ≤ m.stack.size → R .stackOverflow m)
    (put : m.stack.size < m.stack.limit → Q .next (m.holding (w :: m.stack.words))) :
    Yields m (putWord w >>= fun _ => pure .next) Q R :=
  yields_bind (yields_putWord full put)

/-- An effect that drops the top word. -/
theorem yields_dropNext {Q : Flow → Machine → Prop} (none : m.stack.words = [] → R .stackUnderflow m)
    (one : ∀ a rest, m.stack.words = a :: rest → Q .next (m.holding rest)) :
    Yields m (discard takeWord >>= fun _ => pure .next) Q R := by
  rw [discard_bind]
  exact yields_word none one

/-- An effect that ends the execution with bytes of the memory. -/
theorem yields_output {offset length : Word} {halt : List UInt8 → Halt} {Q : Flow → Machine → Prop}
    (refused : ∀ e, m.memory.read offset length = .error e → R (.invalidMemoryAccess e) m)
    (done : ∀ output memory, m.memory.read offset length = .ok (output, memory) →
      Q (.halt (halt output)) { m with memory }) :
    Yields m (access (·.read offset length) >>= fun output => pure (.halt (halt output))) Q R :=
  yields_bind (yields_access refused done)

end Gosub.Results
