import Mathlib.Tactic.MkIffOfInductiveProp
import Mathlib.Tactic.Simproc.ExistsAndEq
import Gosub.Proofs.Results

/-!
# How effects fail

The exact condition under which each part of an instruction traps (`Fails`), and the traps of a row of parts, which are
those of the first of them and those of the rest, where there is a rest. For an access to the memory this is that its
range is out of reach (`OutOfReach`).
-/

namespace Gosub.Failures

open Machine
open Gosub.Effects Gosub.Results

variable {α β : Type} {m : Machine} {trap : Trap}

/-- The word is the address of a destination. From `2 ^ 64` on words are no addresses. -/
def Names (d : Destinations) (kind : DestinationKind) (target : Word) : Prop :=
  target.toNat < addressBound ∧ d.isValid kind target.toNat = true

/-- Why a range of the memory cannot be used: its end is no address, or lies beyond the limit. -/
@[mk_iff]
inductive OutOfReach (limit : Nat) (offset length : Word) : MemoryError → Prop
  /-- A length that is no address is named itself. -/
  | address : addressBound ≤ offset.toNat + length.toNat →
      OutOfReach limit offset length (.invalidOffset (if addressBound ≤ length.toNat then length else offset))
  | limit : offset.toNat + length.toNat < addressBound → limit < offset.toNat + length.toNat →
      OutOfReach limit offset length (.limitExceeded (offset.toNat + length.toNat) limit)

/-! ## Memory -/

section Memory

variable {mem : Memory} {offset length value : Word} {e : MemoryError}

theorem expand_eq_error (small : length.toNat < addressBound) :
    mem.expand offset length.toNat = .error e ↔ OutOfReach mem.limit offset length e := by
  rw [outOfReach_iff, if_neg (Nat.not_le.2 small)]
  unfold Memory.expand Word.address?
  by_cases start : offset.toNat < addressBound
  · simp only [start, if_true]
    by_cases far : addressBound ≤ offset.toNat + length.toNat
    · simp [far, Nat.not_lt.2 far, eq_comm]
    · by_cases beyond : mem.limit < offset.toNat + length.toNat
      · simp [far, beyond, Nat.not_le.1 far, eq_comm]
      · simp [far, beyond]
  · have far : addressBound ≤ offset.toNat + length.toNat := by omega
    simp [start, far, Nat.not_lt.2 far, eq_comm]

/-- What is done with the result of an access cannot fail. -/
theorem then_eq_error {f : α → β} {result : Except MemoryError α} :
    (result >>= fun a => pure (f a)) = .error e ↔ result = .error e := by
  cases result with
  | error e => simp [bind, Except.bind]
  | ok a => simp [bind, Except.bind, pure, Except.pure]

theorem load_eq_error : mem.load offset = .error e ↔ OutOfReach mem.limit offset 32 e := by
  have small : (32 : Word).toNat < addressBound := by decide
  exact then_eq_error.trans (expand_eq_error small)

theorem store_eq_error : mem.store offset value = .error e ↔ OutOfReach mem.limit offset 32 e := by
  have small : (32 : Word).toNat < addressBound := by decide
  exact then_eq_error.trans (expand_eq_error small)

theorem store8_eq_error : mem.store8 offset value = .error e ↔ OutOfReach mem.limit offset 1 e := by
  have small : (1 : Word).toNat < addressBound := by decide
  exact then_eq_error.trans (expand_eq_error small)

theorem read_eq_error : mem.read offset length = .error e ↔ length ≠ 0 ∧ OutOfReach mem.limit offset length e := by
  unfold Memory.read Word.address?
  by_cases none : length = 0
  · simp [none]
  · rw [if_neg none]
    by_cases small : length.toNat < addressBound
    · simp only [small, if_true]
      rw [then_eq_error.trans (expand_eq_error small)]
      exact (and_iff_right none).symm
    · have long : addressBound ≤ length.toNat := Nat.not_lt.1 small
      have far : addressBound ≤ offset.toNat + length.toNat := Nat.le_add_left_of_le long
      simp only [small, if_false, Except.error.injEq]
      rw [outOfReach_iff, if_pos long]
      constructor
      · rintro rfl
        exact ⟨none, .inl ⟨far, rfl⟩⟩
      · rintro ⟨-, ⟨-, rfl⟩ | ⟨near, -⟩⟩
        · rfl
        · exact absurd far (Nat.not_le.2 near)

end Memory

theorem resolve?_eq_none {d : Destinations} {kind : DestinationKind} {target : Word} :
    d.resolve? kind target = none ↔ ¬ Names d kind target := by
  unfold Destinations.resolve? Word.address? Names
  by_cases small : target.toNat < addressBound <;> simp [small, Option.filter]

/-! ## Effects -/

/-- Run on `m`, the effect traps in this way. -/
def Fails (m : Machine) (x : Effect α) (trap : Trap) : Prop := ∃ n, x m = .error trap n

theorem fails_bind {x : Effect α} {f : α → Effect β} :
    Fails m (x >>= f) trap ↔ Fails m x trap ∨ ∃ a n, x m = .ok a n ∧ Fails n (f a) trap := by
  unfold Fails
  rw [bind_run]
  cases x m <;> simp

theorem fails_pure {a : α} : ¬ Fails m (pure a) trap := by
  rintro ⟨n, failed⟩
  cases failed

theorem fails_throw {cause : Trap} : Fails m (throw cause : Effect α) trap ↔ trap = cause := by
  constructor
  · rintro ⟨n, failed⟩
    cases failed
    rfl
  · rintro rfl
    exact ⟨m, rfl⟩

theorem fails_get {f : Machine → Effect β} : Fails m (get >>= f) trap ↔ Fails m (f m) trap := Iff.rfl

/-- An effect that begins with the top word. -/
theorem fails_word {f : Word → Effect β} :
    Fails m (takeWord >>= f) trap ↔ (m.stack.size < 1 ∧ trap = .stackUnderflow) ∨
      ∃ a rest, m.stack.words = a :: rest ∧ Fails (m.holding rest) (f a) trap := by
  rw [fails_bind]
  unfold Fails takeWord Stack.pop Stack.size
  cases held : m.stack.words with
  | nil => simp [eq_comm]
  | cons a rest => simp [Machine.holding]

/-- An effect that begins with the two top words. -/
theorem fails_words {f : Word → Word → Effect β} :
    Fails m (takeWord >>= fun a => takeWord >>= f a) trap ↔ (m.stack.size < 2 ∧ trap = .stackUnderflow) ∨
      ∃ a b rest, m.stack.words = a :: b :: rest ∧ Fails (m.holding rest) (f a b) trap := by
  simp only [fails_word, Stack.size, Machine.holding]
  rcases m.stack.words with _ | ⟨a, _ | ⟨b, rest⟩⟩
  · simp
  · simp
  · have enough : ¬ rest.length + 1 + 1 < 2 := by omega
    simp [enough]

/-- An effect that ends with a change of the stack. -/
theorem fails_changeStack {f : Stack → Except Trap Stack} :
    Fails m (changeStack f >>= fun _ => pure Flow.next) trap ↔ f m.stack = .error trap := by
  rw [fails_bind]
  unfold Fails changeStack
  cases f m.stack <;> simp [pure, EStateM.pure]

theorem fails_access {f : Memory → Except MemoryError (α × Memory)} {g : α → Effect β} :
    Fails m (access f >>= g) trap ↔ (∃ e, f m.memory = .error e ∧ trap = .invalidMemoryAccess e) ∨
      ∃ a memory, f m.memory = .ok (a, memory) ∧ Fails { m with memory } (g a) trap := by
  rw [fails_bind]
  unfold Fails access
  cases f m.memory with
  | error e => simp [eq_comm]
  | ok p =>
    obtain ⟨a, memory⟩ := p
    simp

/-- An effect that ends with a change of the memory. -/
theorem fails_changeMemory {f : Memory → Except MemoryError Memory} :
    Fails m (changeMemory f >>= fun _ => pure Flow.next) trap ↔
      ∃ e, f m.memory = .error e ∧ trap = .invalidMemoryAccess e := by
  refine fails_access.trans ?_
  cases f m.memory with
  | error e => simp [Except.map]
  | ok memory => simp [Except.map, fails_pure]

theorem fails_resolve {kind : DestinationKind} {target : Word} {g : Nat → Effect β} :
    Fails m (resolve kind target >>= g) trap ↔
      (¬ Names m.destinations kind target ∧ trap = .invalidDestination kind target) ∨
        ∃ a, m.destinations.resolve? kind target = some a ∧ Fails m (g a) trap := by
  rw [← resolve?_eq_none, fails_bind]
  unfold Fails resolve
  cases m.destinations.resolve? kind target with
  | none => simp [eq_comm]
  | some a => simp

theorem fails_saveCall {flow : Flow} :
    Fails m (saveCall >>= fun _ => pure flow) trap ↔
      ReturnStack.callLimit ≤ m.returns.outstanding ∧ trap = .returnStackOverflow := by
  rw [fails_bind]
  unfold Fails saveCall ReturnStack.push
  by_cases room : m.returns.outstanding < ReturnStack.callLimit
  · simp [Nat.not_le.2 room, room, pure, EStateM.pure]
  · simp [room, Nat.not_lt.1 room, eq_comm]

end Gosub.Failures
