import Gosub.Proofs.Faults
import Gosub.Proofs.Parts

/-!
# Limits of the memory

The limit of a memory decides which accesses are refused, and nothing else. What is not refused grows, fills, reads
and writes the memory as it would with more room below the limit (`indifferent_expand`), and a program can learn of
the limit in no other way. So a machine runs as it would under a higher limit, up to the first access that its own
limit refuses (`limit_transparent`).
-/

namespace Gosub

/-- The memory with more room below its limit. -/
def Memory.roomier (room : Nat) (mem : Memory) : Memory := { mem with limit := mem.limit + room }

/-- The machine with more room for its memory. -/
def Machine.roomier (room : Nat) (m : Machine) : Machine := { m with memory := m.memory.roomier room }

/-- Whether a trap is the refusal of an access beyond the limit of the memory. -/
def Trap.isOutOfRoom : Trap → Bool
  | invalidMemoryAccess (.limitExceeded _ _) => true
  | _ => false

end Gosub

namespace Gosub.Limits

open Machine Memory
open Gosub.Effects Gosub.Parts Gosub.Steps Gosub.Faults

variable {m n : Machine} {room : Nat} {code : Code} {config : Configuration}

/-! ## Accesses -/

/-- An access does the same where there is more room, unless it is refused for the want of it. -/
def Indifferent (room : Nat) (f : Memory → Except MemoryError (α × Memory)) : Prop :=
  ∀ mem, (∃ stop, f mem = .error (.limitExceeded stop mem.limit)) ∨
    f (mem.roomier room) = (f mem).map fun p => (p.1, p.2.roomier room)

theorem indifferent_expand (room : Nat) (offset : Word) (length : Nat) :
    Indifferent room (·.expand offset length) := by
  intro mem
  unfold expand
  cases offset.address? with
  | none => exact .inr rfl
  | some start =>
    by_cases outside : addressBound ≤ start + length
    · simp only [if_pos outside]
      exact .inr rfl
    · by_cases beyond : mem.limit < start + length
      · simp only [if_neg outside, if_pos beyond]
        exact .inl ⟨_, rfl⟩
      · have withinToo : ¬ (mem.roomier room).limit < start + length := by
          show ¬ mem.limit + room < start + length
          omega
        simp only [if_neg outside, if_neg beyond, if_neg withinToo]
        exact .inr rfl

/-- An access makes the memory reach its end, and then does the same whatever the limit. -/
theorem indifferent_access {f : Memory → Except MemoryError (α × Memory)} {offset : Word} {length : Nat}
    (g : Nat → Memory → α × Memory) (parts : ∀ mem, f mem = (mem.expand offset length).map fun p => g p.1 p.2)
    (same : ∀ start mem, g start (mem.roomier room) = ((g start mem).1, (g start mem).2.roomier room)) :
    Indifferent room f := by
  intro mem
  rw [parts, parts]
  rcases indifferent_expand room offset length mem with ⟨stop, refused⟩ | alike
  · left
    refine ⟨stop, ?_⟩
    simp only [refused]
    rfl
  · right
    simp only [alike]
    cases mem.expand offset length with
    | error e => rfl
    | ok p => exact congrArg Except.ok (same p.1 p.2)

theorem write_roomier (mem : Memory) (start : Nat) (bytes : List UInt8) :
    (mem.roomier room).write start bytes = (mem.write start bytes).roomier room := by
  induction bytes generalizing mem start with
  | nil => rfl
  | cons b bytes ih => exact ih { mem with bytes := mem.bytes.setIfInBounds start b } (start + 1)

theorem indifferent_load (room : Nat) (offset : Word) : Indifferent room (·.load offset) := by
  apply indifferent_access fun start mem => (.ofNat (natOfBytes (mem.slice start Word.size)), mem)
  · intro mem
    unfold load
    cases mem.expand offset Word.size <;> rfl
  · intro start mem
    rfl

theorem indifferent_store (room : Nat) (offset value : Word) :
    Indifferent room fun mem => (mem.store offset value).map ((), ·) := by
  apply indifferent_access fun start mem => ((), mem.write start value.toBytes)
  · intro mem
    unfold store
    cases mem.expand offset Word.size <;> rfl
  · intro start mem
    rw [write_roomier]

theorem indifferent_store8 (room : Nat) (offset value : Word) :
    Indifferent room fun mem => (mem.store8 offset value).map ((), ·) := by
  apply indifferent_access fun start mem => ((), mem.write start [value.lowByte])
  · intro mem
    unfold store8
    cases mem.expand offset 1 <;> rfl
  · intro start mem
    rw [write_roomier]

theorem indifferent_read (room : Nat) (offset length : Word) : Indifferent room (·.read offset length) := by
  by_cases nothing : length = 0
  · intro mem
    simp only [Memory.read, if_pos nothing]
    exact .inr rfl
  · cases isAddress : length.address? with
    | none =>
      intro mem
      simp only [Memory.read, if_neg nothing, isAddress]
      exact .inr rfl
    | some n =>
      apply indifferent_access fun start mem => (mem.slice start n, mem)
      · intro mem
        simp only [Memory.read, if_neg nothing, isAddress]
        cases mem.expand offset n <;> rfl
      · intro start mem
        rfl

/-! ## Instructions -/

/-- The effect does the same where there is more room, unless it traps for the want of it. -/
def Unaffected (room : Nat) (x : Effect α) : Prop :=
  CommutesUnless (Machine.roomier room) (fun trap => trap.isOutOfRoom = true) (fun _ => False) x

theorem unaffected_access {f : Memory → Except MemoryError (α × Memory)} (indifferent : Indifferent room f) :
    Unaffected room (access f) := by
  intro m
  unfold access
  rcases indifferent m.memory with ⟨stop, refused⟩ | alike
  · left
    rw [refused]
    rfl
  · right
    have alikeToo : f (m.roomier room).memory = (f m.memory).map fun p => (p.1, p.2.roomier room) := alike
    rw [alikeToo]
    cases f m.memory <;> rfl

theorem unaffected_changeStack (g : Stack → Except Trap Stack) : Unaffected room (changeStack g) :=
  (commutes_changeStack (f := Machine.roomier room) (fun _ => rfl) (fun _ _ => rfl) g).unless

theorem closed_unaffected (room : Nat) : Closed (Unaffected room) (Unaffected room) where
  bind := unless_bind
  ends flow := (commutes_pure flow).unless
  throws _ := (commutes_throw _).unless
  get glances rest := unless_get (fun m => glances m (m.roomier room) rfl rfl rfl) rest
  takeWord := (commutes_takeWord (f := Machine.roomier room) (fun _ => rfl) fun _ _ => rfl).unless
  load offset := unaffected_access (indifferent_load room offset)
  read offset length := unaffected_access (indifferent_read room offset length)
  store offset value := unaffected_access (indifferent_store room offset value)
  store8 offset value := unaffected_access (indifferent_store8 room offset value)
  resolve _ _ := (commutes_resolve (f := Machine.roomier room) fun _ => rfl).unless
  saveCall := (commutes_saveCall (f := Machine.roomier room) (fun _ => rfl) (fun _ => rfl) fun _ _ => rfl).unless
  takeCall _ := .inr rfl
  put _ := unless_next (unaffected_changeStack _)
  dup _ := unless_next (unaffected_changeStack _)
  swap _ := unless_next (unaffected_changeStack _)

/-! ## Runs -/

theorem aside_roomier (room : Nat) : Aside (Machine.roomier room) :=
  ⟨fun _ => rfl, fun _ => rfl, fun _ => rfl, fun _ => rfl, fun _ _ => rfl, fun _ _ => rfl, fun _ _ _ => rfl⟩

/-- The machine was aborted because the limit of its memory refused an access. -/
def Outgrown (m : Machine) : Prop := ∃ fault, m.status = .faulted fault ∧ fault.trap.isOutOfRoom = true

theorem step_roomier (fits : ¬ Outgrown m.step) : (m.roomier room).step = m.step.roomier room := by
  apply (aside_roomier room).step
  intro budget running charged
  rcases (closed_unaffected room).execute m.next (m.withBudget budget) with excused | same
  · rw [step_charged running charged] at fits
    cases ran : m.next.execute (m.withBudget budget) with
    | error trap n =>
      rw [ran] at excused fits
      exact absurd ⟨⟨n.pc, trap⟩, rfl, excused⟩ fits
    | ok flow n =>
      rw [ran] at excused
      exact excused.elim
  · exact same

theorem not_outgrown_of_running (running : m.status = .running) : ¬ Outgrown m := by
  rintro ⟨fault, aborted, -⟩
  rw [running] at aborted
  cases aborted

/-- A machine that was aborted stays so. -/
theorem outgrown_step (outgrown : Outgrown m) : Outgrown m.step := by
  have ended : m.status ≠ .running := fun running => not_outgrown_of_running running outgrown
  rw [step_ended ended]
  exact outgrown

theorem advance_roomier (k : Nat) (fits : ¬ Outgrown (m.advance k)) :
    (m.roomier room).advance k = (m.advance k).roomier room := by
  induction k with
  | zero => rfl
  | succ k ih =>
    rw [advance_step] at fits
    have before : ¬ Outgrown (m.advance k) := fun outgrown => fits (outgrown_step outgrown)
    rw [advance_step, advance_step, ih before]
    exact step_roomier fits

theorem run?_roomier (fuel : Nat) (fits : ∀ last, m.run? fuel = some last → ¬ Outgrown last) :
    (m.roomier room).run? fuel = (m.run? fuel).map (Machine.roomier room) := by
  by_cases fuelled : 0 < fuel
  · have fitsLast : ¬ Outgrown (m.advance fuel) := by
      by_cases running : (m.advance fuel).status = .running
      · exact not_outgrown_of_running running
      · exact fits _ (run?_eq_some.2 ⟨fuelled, rfl, running⟩)
    have status : ((m.advance fuel).roomier room).status = (m.advance fuel).status := rfl
    rw [run?_eq_ite, run?_eq_ite, advance_roomier fuel fitsLast, status, apply_ite (Option.map _)]
    rfl
  · obtain rfl : fuel = 0 := by omega
    rfl

/-- How two machines run of which the second has more room. -/
structure Beside (room : Nat) (m n : Machine) : Prop where
  /-- As long as the limit of the first refuses nothing, the two agree in everything but their limits. -/
  agrees : ∀ k, ¬ Outgrown (m.advance k) → n.advance k = (m.advance k).roomier room
  /-- With the same fuel both come to the same end, or neither does. -/
  ends : ∀ fuel, (∀ last, m.run? fuel = some last → ¬ Outgrown last) →
    n.run? fuel = (m.run? fuel).map (Machine.roomier room)
  result : ∀ r, (∀ fault, r = .error fault → fault.trap.isOutOfRoom = false) → Finishes m r → Finishes n r

theorem beside_roomier (m : Machine) (room : Nat) : Beside room m (m.roomier room) := by
  refine ⟨advance_roomier, run?_roomier, ?_⟩
  intro r other
  rw [finishes_iff, finishes_iff]
  rintro ⟨k, result⟩
  have fits : ¬ Outgrown (m.advance k) := by
    rintro ⟨fault, aborted, outOfRoom⟩
    rw [result?, aborted, Option.some.injEq] at result
    rw [other fault result.symm] at outOfRoom
    cases outOfRoom
  refine ⟨k, ?_⟩
  rw [advance_roomier k fits]
  exact result

/-- The limit of the memory is only what decides on refusals. A fresh machine is made for both of two limits or for
neither; and the one with the lower limit runs as the other does, until its limit refuses an access. -/
theorem limit_transparent (code : Code) (policy : Policy) (words : List Word) (budget : Budget) {lower higher : Nat}
    (le : lower ≤ higher) :
    (∃ trap, fresh code ⟨policy, lower⟩ words budget = .error trap ∧
      fresh code ⟨policy, higher⟩ words budget = .error trap) ∨
    ∃ m n, fresh code ⟨policy, lower⟩ words budget = .ok m ∧ fresh code ⟨policy, higher⟩ words budget = .ok n ∧
      Beside (higher - lower) m n := by
  obtain ⟨room, rfl⟩ := Nat.exists_eq_add_of_le le
  rw [Nat.add_sub_cancel_left]
  have made : fresh code ⟨policy, lower + room⟩ words budget =
      (fresh code ⟨policy, lower⟩ words budget).map (Machine.roomier room) :=
    fresh_map (f := Machine.roomier room) (fun _ => rfl) (fun _ _ => rfl) (fun _ _ => rfl) rfl words budget
  rw [made]
  cases fresh code ⟨policy, lower⟩ words budget with
  | error trap => exact .inl ⟨trap, rfl, rfl⟩
  | ok m => exact .inr ⟨m, m.roomier room, rfl, rfl, beside_roomier m room⟩

/-- What `storeFar` stores ends at 96: beyond a limit of 64, and within one of 96. -/
theorem storeFar_transparent :
    64 ≤ 96 ∧ ∃ m n, fresh storeFar ⟨.shared, 64⟩ [] .unlimited = .ok m ∧
      fresh storeFar ⟨.shared, 96⟩ [] .unlimited = .ok n ∧ Beside 32 m n ∧
      (m.advance 4).fault? = some ⟨6, .invalidMemoryAccess (.limitExceeded 96 64)⟩ ∧
      n.advance 3 = (m.advance 3).roomier 32 ∧ (n.advance 5).halt? = some .stop := by
  have le : 64 ≤ 96 := by decide
  refine ⟨le, ?_⟩
  rcases limit_transparent storeFar .shared [] .unlimited le with ⟨trap, refused, -⟩ | ⟨m, n, made, madeToo, beside⟩
  · cases refused
  · have running : (m.advance 3).status = .running := by
      cases made
      decide +kernel
    refine ⟨m, n, made, madeToo, beside, ?_, beside.agrees 3 (not_outgrown_of_running running), ?_⟩
    · cases made
      decide +kernel
    · cases madeToo
      decide +kernel

end Gosub.Limits
