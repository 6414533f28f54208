import Gosub.Proofs.Accesses

/-!
# The memory as a tape

An endless row of bytes, zero at first, that keeps what is stored. Whatever accesses are made one after the other,
the memory answers as the tape does (`memory_tape`): an access moves the memory as it moves the tape
(`perform_tape`), whether it succeeds is told by its own end and the limit (`perform_succeeds`), and one that fails
might as well not have been made.
-/

namespace Gosub.Tape

open Memory Encoding Accesses

variable {mem after : Memory}

/-! ## Accesses -/

/-- An access, with the words that it is given. -/
inductive Access where
  | load (offset : Word)
  | store (offset value : Word)
  | store8 (offset value : Word)
  | read (offset length : Word)

/-- What a successful access gives. -/
inductive Answer where
  | word (w : Word)
  | stored
  | bytes (output : List UInt8)

/-- Makes an access. -/
def perform (mem : Memory) : Access → Except MemoryError (Answer × Memory)
  | .load offset => (mem.load offset).map fun p => (.word p.1, p.2)
  | .store offset value => (mem.store offset value).map fun after => (.stored, after)
  | .store8 offset value => (mem.store8 offset value).map fun after => (.stored, after)
  | .read offset length => (mem.read offset length).map fun p => (.bytes p.1, p.2)

/-- An access and what came of it. -/
structure Entry where
  access : Access
  outcome : Except MemoryError Answer

/-- Makes accesses one after the other. What fails leaves the memory as it was. -/
def run (mem : Memory) : List Access → List Entry × Memory
  | [] => ([], mem)
  | x :: rest =>
    match perform mem x with
    | .ok (answer, after) =>
      let (entries, last) := run after rest
      (⟨x, .ok answer⟩ :: entries, last)
    | .error e =>
      let (entries, last) := run mem rest
      (⟨x, .error e⟩ :: entries, last)

/-! ## The tape -/

/-- A byte of a word, the highest being the first. -/
def wordByte (w : Word) (i : Nat) : UInt8 := UInt8.ofNat (w.toNat / 256 ^ (31 - i))

/-- The tape after an access that succeeds. -/
def mark (tape : Nat → UInt8) : Access → Nat → UInt8
  | .store offset value => fun a =>
    if offset.toNat ≤ a ∧ a < offset.toNat + 32 then wordByte value (a - offset.toNat) else tape a
  | .store8 offset value => fun a => if a = offset.toNat then wordByte value 31 else tape a
  | .load _ | .read _ _ => tape

/-- The tape after an entry: what fails leaves no mark. -/
def markEntry (tape : Nat → UInt8) (e : Entry) : Nat → UInt8 :=
  match e.outcome with
  | .ok _ => mark tape e.access
  | .error _ => tape

/-- What the entries leave on a tape of zeros. -/
def tapeOf (entries : List Entry) : Nat → UInt8 := entries.foldl markEntry fun _ => 0

/-- The answer is the one that the tape gives. -/
def Answers (tape : Nat → UInt8) : Access → Answer → Prop
  | .load offset, .word w => ∀ i < 32, wordByte w i = tape (offset.toNat + i)
  | .read offset length, .bytes output => output = (List.range length.toNat).map fun i => tape (offset.toNat + i)
  | .store _ _, .stored | .store8 _ _, .stored => True
  | _, _ => False

/-- The end of an access is an address, and not beyond the limit. -/
def Fits (limit stop : Nat) : Prop := stop < addressBound ∧ stop ≤ limit

/-- What may be accessed. An empty range is never refused. -/
def Allowed (limit : Nat) : Access → Prop
  | .load offset | .store offset _ => Fits limit (offset.toNat + 32)
  | .store8 offset _ => Fits limit (offset.toNat + 1)
  | .read offset length => length.toNat = 0 ∨ Fits limit (offset.toNat + length.toNat)

/-! ## One access -/

theorem map_eq_ok {α β : Type} {f : α → β} {result : Except MemoryError α} {b : β} :
    result.map f = .ok b ↔ ∃ a, result = .ok a ∧ f a = b := by
  cases result with
  | error e => simp [Except.map]
  | ok a => simp [Except.map]

theorem map_succeeds {α β : Type} {f : α → β} {result : Except MemoryError α} :
    (∃ b, result.map f = .ok b) ↔ ∃ a, result = .ok a := by
  simp [map_eq_ok]

theorem then_succeeds {α β : Type} {f : α → β} {result : Except MemoryError α} :
    (∃ b, (result >>= fun a => pure (f a)) = .ok b) ↔ ∃ a, result = .ok a := by
  cases result with
  | error e => simp [bind, Except.bind]
  | ok a => simp [bind, Except.bind, pure, Except.pure]

theorem wordByte_of_bytes {w : Word} {bytes : List UInt8} (size : bytes.length = 32)
    (same : w.toNat = natOfBytes bytes) {i : Nat} (inside : i < 32) : some (wordByte w i) = bytes[i]? := by
  have back := bytesOfNat_natOfBytes bytes
  rw [size, ← same] at back
  rw [← back, getElem?_bytesOfNat w.toNat inside]
  rfl

/-- An access that succeeds answers as the tape does, and leaves a memory that reads as the tape then does. -/
theorem perform_tape {x : Access} {answer : Answer} (done : perform mem x = .ok (answer, after)) :
    Answers mem.byteAt x answer ∧ after.byteAt = mark mem.byteAt x ∧ after.limit = mem.limit := by
  cases x with
  | load offset =>
    obtain ⟨p, loaded, same⟩ := map_eq_ok.1 done
    cases same
    obtain ⟨value, touches, reads⟩ := load_eq_ok loaded
    refine ⟨?_, reads, touches.limit⟩
    intro i inside
    have byte := wordByte_of_bytes (by simp) value inside
    simpa [inside] using byte
  | store offset value =>
    obtain ⟨grown, stored, same⟩ := map_eq_ok.1 done
    cases same
    obtain ⟨touches, reads⟩ := store_eq_ok stored
    exact ⟨trivial, funext reads, touches.limit⟩
  | store8 offset value =>
    obtain ⟨grown, stored, same⟩ := map_eq_ok.1 done
    cases same
    obtain ⟨touches, reads⟩ := store8_eq_ok stored
    refine ⟨trivial, funext fun a => ?_, touches.limit⟩
    rw [reads a]
    simp [mark, wordByte]
  | read offset length =>
    obtain ⟨p, copied, same⟩ := map_eq_ok.1 done
    cases same
    obtain ⟨bytes, reads, limit, -⟩ := read_eq_ok copied
    exact ⟨bytes, reads, limit⟩

/-- Whether an access succeeds is told by its own end and the limit, whatever was done before. -/
theorem perform_succeeds {x : Access} : (∃ p, perform mem x = .ok p) ↔ Allowed mem.limit x := by
  cases x with
  | load offset => exact map_succeeds.trans (then_succeeds.trans expand_succeeds)
  | store offset value => exact map_succeeds.trans (then_succeeds.trans expand_succeeds)
  | store8 offset value => exact map_succeeds.trans (then_succeeds.trans expand_succeeds)
  | read offset length =>
    refine map_succeeds.trans ?_
    unfold Memory.read Word.address?
    by_cases none : length = 0
    · simp [none, Allowed]
    · have some : ¬ length.toNat = 0 := fun zero => none (BitVec.eq_of_toNat_eq zero)
      simp only [if_neg none, Allowed, some, false_or]
      by_cases small : length.toNat < addressBound
      · simp only [if_pos small]
        exact then_succeeds.trans expand_succeeds
      · have far : ¬ Fits mem.limit (offset.toNat + length.toNat) := by
          rintro ⟨address, -⟩
          omega
        simp [small, far]

/-! ## Rows of accesses -/

/-- Whether the access succeeded. -/
def Entry.succeeded (e : Entry) : Bool := e.outcome.isOk

theorem run_ok {x : Access} {answer : Answer} (done : perform mem x = .ok (answer, after)) (rest : List Access) :
    run mem (x :: rest) = (⟨x, .ok answer⟩ :: (run after rest).1, (run after rest).2) := by
  simp only [run, done]

theorem run_error {x : Access} {e : MemoryError} (failed : perform mem x = .error e) (rest : List Access) :
    run mem (x :: rest) = (⟨x, .error e⟩ :: (run mem rest).1, (run mem rest).2) := by
  simp only [run, failed]

theorem run_accesses (mem : Memory) (accesses : List Access) : (run mem accesses).1.map Entry.access = accesses := by
  induction accesses generalizing mem with
  | nil => rfl
  | cons x rest ih =>
    cases done : perform mem x with
    | error e => rw [run_error done, List.map_cons, ih mem]
    | ok p => rw [run_ok done, List.map_cons, ih p.2]

/-- The memory always reads as the tape: what grows it changes no byte. -/
theorem run_contents (mem : Memory) (accesses : List Access) :
    (run mem accesses).2.byteAt = (run mem accesses).1.foldl markEntry mem.byteAt := by
  induction accesses generalizing mem with
  | nil => rfl
  | cons x rest ih =>
    cases done : perform mem x with
    | error e =>
      rw [run_error done]
      exact ih mem
    | ok p =>
      obtain ⟨-, marked, -⟩ := perform_tape done
      rw [run_ok done, List.foldl_cons, markEntry, ← marked]
      exact ih p.2

theorem run_answers {mem : Memory} {accesses : List Access} {before later : List Entry} {e : Entry} {answer : Answer}
    (split : (run mem accesses).1 = before ++ e :: later) (succeeded : e.outcome = .ok answer) :
    Answers (before.foldl markEntry mem.byteAt) e.access answer := by
  induction accesses generalizing mem before with
  | nil => simp [run] at split
  | cons x rest ih =>
    cases done : perform mem x with
    | error failure =>
      rw [run_error done] at split
      cases before with
      | nil =>
        cases split
        cases succeeded
      | cons first before =>
        simp only [List.cons_append, List.cons.injEq] at split
        obtain ⟨rfl, rest⟩ := split
        rw [List.foldl_cons, markEntry]
        exact ih rest
    | ok p =>
      obtain ⟨answered, marked, -⟩ := perform_tape done
      rw [run_ok done] at split
      cases before with
      | nil =>
        cases split
        cases succeeded
        exact answered
      | cons first before =>
        simp only [List.cons_append, List.cons.injEq] at split
        obtain ⟨rfl, rest⟩ := split
        rw [List.foldl_cons, markEntry, ← marked]
        exact ih rest

theorem run_succeeds {mem : Memory} {accesses : List Access} {e : Entry} (made : e ∈ (run mem accesses).1) :
    (∃ answer, e.outcome = .ok answer) ↔ Allowed mem.limit e.access := by
  induction accesses generalizing mem with
  | nil => cases made
  | cons x rest ih =>
    have allowed : (∃ p, perform mem x = .ok p) ↔ Allowed mem.limit x := perform_succeeds
    cases done : perform mem x with
    | error failure =>
      rw [run_error done] at made
      rcases List.mem_cons.1 made with rfl | later
      · simpa [done] using allowed
      · exact ih later
    | ok p =>
      obtain ⟨-, -, limit⟩ := perform_tape done
      rw [run_ok done] at made
      rcases List.mem_cons.1 made with rfl | later
      · simpa [done] using allowed
      · rw [← limit]
        exact ih later

/-- Without the accesses that fail all others come out the same. -/
theorem run_succeeded (mem : Memory) (accesses : List Access) :
    run mem (((run mem accesses).1.filter Entry.succeeded).map Entry.access) =
      ((run mem accesses).1.filter Entry.succeeded, (run mem accesses).2) := by
  induction accesses generalizing mem with
  | nil => rfl
  | cons x rest ih =>
    cases done : perform mem x with
    | error failure =>
      rw [run_error done, List.filter_cons_of_neg (by simp [Entry.succeeded, Except.isOk, Except.toBool])]
      exact ih mem
    | ok p =>
      rw [run_ok done, List.filter_cons_of_pos (by simp [Entry.succeeded, Except.isOk, Except.toBool]), List.map_cons,
        run_ok done, ih p.2]

/-- What accesses to a memory have to do with a tape of zeros: the entries are what came of them, and the last
memory is what they leave. -/
structure ActsAsTape (limit : Nat) (accesses : List Access) (entries : List Entry) (last : Memory) : Prop where
  made : entries.map Entry.access = accesses
  /-- A success answers as the tape that the successes before it have marked. -/
  answers : ∀ before e later, entries = before ++ e :: later → ∀ answer, e.outcome = .ok answer →
    Answers (tapeOf before) e.access answer
  succeeds : ∀ e ∈ entries, (∃ answer, e.outcome = .ok answer) ↔ Allowed limit e.access
  contents : last.byteAt = tapeOf entries
  /-- Without the failures all else comes out the same. -/
  failures : run (.empty limit) ((entries.filter Entry.succeeded).map Entry.access) =
    (entries.filter Entry.succeeded, last)

/-- Whatever the limit and the accesses, the memory acts as a tape of zeros does. -/
theorem memory_tape (limit : Nat) (accesses : List Access) :
    ActsAsTape limit accesses (run (.empty limit) accesses).1 (run (.empty limit) accesses).2 := by
  have blank : (Memory.empty limit).byteAt = fun _ => 0 := rfl
  refine ⟨run_accesses _ accesses, ?_, ?_, ?_, run_succeeded _ accesses⟩
  · intro before e later split answer succeeded
    have answers := run_answers split succeeded
    rw [blank] at answers
    exact answers
  · intro e made
    exact run_succeeds made
  · have contents := run_contents (.empty limit) accesses
    rw [blank] at contents
    exact contents

end Gosub.Tape
