import Gosub.Proofs.Faults
import Gosub.Proofs.Parts

/-!
# Locality of the stack

Words below those that an instruction reaches are neither read nor changed. A machine with more words at the bottom of
its stack does what it does without them (`stack_locality`), as long as no word is missing without them and there is
still room on the stack with them. At the start such words are those that are put on the stack first (`fresh_above`).
-/

namespace Gosub

/-- The stack with more words below its own. -/
def Stack.above (below : List Word) (s : Stack) : Stack := { s with words := s.words ++ below }

/-- The machine with more words at the bottom of its stack. -/
def Machine.above (below : List Word) (m : Machine) : Machine := { m with stack := m.stack.above below }

end Gosub

namespace Gosub.Locality

open Machine
open Gosub.Effects Gosub.Parts Gosub.Steps Gosub.Faults

variable {m : Machine} {below : List Word} {code : Code} {config : Configuration}

/-! ## Stacks -/

/-- More words than there is room for. -/
def Crowded (s : Stack) (below : List Word) : Prop := s.limit < s.size + below.length

/-- What becomes of the stack is the same above other words, unless a word is missing without them or there is no room
with them. -/
def Local (below : List Word) (g : Stack → Except Trap Stack) : Prop :=
  ∀ s, (g s = .error .stackUnderflow ∨ ∃ t, g s = .ok t ∧ Crowded t below) ∨
    g (s.above below) = (g s).map (Stack.above below)

theorem local_push (w : Word) : Local below (·.push w) := by
  intro s
  have size : (s.above below).size = s.size + below.length := List.length_append
  by_cases full : s.limit ≤ s.size
  · -- It is refused with and without the words below.
    have refused : s.push w = .error .stackOverflow := if_neg (Nat.not_lt.2 full)
    have refusedToo : (s.above below).push w = .error .stackOverflow := by
      refine if_neg ?_
      rw [size]
      exact Nat.not_lt.2 (Nat.le_trans full (Nat.le_add_right _ _))
    right
    show (s.above below).push w = (s.push w).map _
    rw [refused, refusedToo]
    rfl
  · have pushed : s.push w = .ok { s with words := w :: s.words } := if_pos (Nat.not_le.1 full)
    by_cases room : s.size + below.length < s.limit
    · have pushedToo : (s.above below).push w = .ok { s.above below with words := w :: (s.words ++ below) } := by
        refine if_pos ?_
        rw [size]
        exact room
      right
      show (s.above below).push w = (s.push w).map _
      rw [pushed, pushedToo]
      rfl
    · refine .inl (.inr ⟨_, pushed, ?_⟩)
      show s.limit < s.words.length + 1 + below.length
      unfold Stack.size at room
      omega

/-- Words at a depth that the stack reaches are its own. -/
theorem peek?_above {s : Stack} {depth : Nat} {w : Word} (found : s.peek? depth = some w) :
    (s.above below).peek? depth = some w := by
  obtain ⟨inside, -⟩ := List.getElem?_eq_some_iff.1 found
  exact (List.getElem?_append_left inside).trans found

theorem local_dup (n : Nat) : Local below (·.dup n) := by
  intro s
  cases found : s.peek? (n - 1) with
  | none =>
    refine .inl (.inl ?_)
    show s.dup n = _
    unfold Stack.dup
    rw [found]
  | some w =>
    have copied : s.dup n = s.push w := by
      unfold Stack.dup
      rw [found]
    have copiedToo : (s.above below).dup n = (s.above below).push w := by
      unfold Stack.dup
      rw [peek?_above found]
    simp only [copied, copiedToo]
    exact local_push w s

theorem local_swap (n : Nat) : Local below (·.swap n) := by
  intro s
  cases exchanged : s.swap n with
  | error trap =>
    obtain rfl := Stack.trap_of_swap exchanged
    exact .inl (.inl exchanged)
  | ok t =>
    obtain ⟨top, words, w, held, found, rfl⟩ := Stack.eq_of_swap exchanged
    have heldToo : (s.above below).words = top :: (words ++ below) := by
      show s.words ++ below = _
      rw [held, List.cons_append]
    have foundToo : (s.above below).peek? n = some w := peek?_above found
    have inside : n < (w :: words).length := by
      obtain ⟨inside, -⟩ := List.getElem?_eq_some_iff.1 found
      rw [held] at inside
      exact inside
    right
    show (s.above below).swap n = (s.swap n).map _
    rw [exchanged, Stack.swap, heldToo, foundToo]
    show Except.ok { s.above below with words := (w :: words ++ below).set n top } = _
    rw [List.set_append_left _ _ inside]
    rfl

/-! ## Instructions -/

/-- The effect is the same above other words, unless a word is missing without them or it leaves too many with them. -/
def Finds (below : List Word) (x : Effect α) : Prop :=
  CommutesUnless (Machine.above below) (· = .stackUnderflow) (fun n => Crowded n.stack below) x

/-- The same for an effect that only takes words. -/
def Takes (below : List Word) (x : Effect α) : Prop :=
  CommutesUnless (Machine.above below) (· = .stackUnderflow) (fun _ => False) x

theorem takes_takeWord : Takes below takeWord := by
  intro m
  unfold takeWord
  cases held : m.stack.words with
  | nil =>
    left
    rw [Stack.pop, held]
    rfl
  | cons w rest =>
    have heldToo : (m.above below).stack.words = w :: (rest ++ below) := by
      show m.stack.words ++ below = _
      rw [held, List.cons_append]
    right
    rw [Stack.pop, Stack.pop, held, heldToo]
    rfl

theorem finds_changeStack {g : Stack → Except Trap Stack} (isLocal : Local below g) : Finds below (changeStack g) := by
  intro m
  unfold changeStack
  rcases isLocal m.stack with (short | ⟨t, changed, crowded⟩) | same
  · left
    rw [short]
    rfl
  · left
    rw [changed]
    exact crowded
  · right
    have sameToo : g (m.above below).stack = (g m.stack).map (Stack.above below) := same
    rw [sameToo]
    cases g m.stack <;> rfl

theorem takes_access (g : Memory → Except MemoryError (α × Memory)) : Takes below (access g) :=
  (commutes_access (f := Machine.above below) (fun _ => rfl) (fun _ _ => rfl) g).unless

theorem takes_resolve (kind : DestinationKind) (target : Word) : Takes below (resolve kind target) :=
  (commutes_resolve (f := Machine.above below) fun _ => rfl).unless

theorem takes_saveCall : Takes below saveCall :=
  (commutes_saveCall (f := Machine.above below) (fun _ => rfl) (fun _ => rfl) fun _ _ => rfl).unless

theorem closed_finds (below : List Word) : Closed (Takes below) (Finds below) where
  bind := unless_bind
  ends flow := (commutes_pure flow).unless
  throws _ := (commutes_throw _).unless
  get glances rest := unless_get (fun m => glances m (m.above below) rfl rfl rfl) rest
  takeWord := takes_takeWord
  load _ := takes_access _
  read _ _ := takes_access _
  store _ _ := takes_access _
  store8 _ _ := takes_access _
  resolve := takes_resolve
  saveCall := takes_saveCall
  takeCall _ := .inr rfl
  put w := unless_next (finds_changeStack (local_push w))
  dup n := unless_next (finds_changeStack (local_dup n))
  swap n := unless_next (finds_changeStack (local_swap n))

/-! ## Runs -/

theorem aside_above (below : List Word) : Aside (Machine.above below) :=
  ⟨fun _ => rfl, fun _ => rfl, fun _ => rfl, fun _ => rfl, fun _ _ => rfl, fun _ _ => rfl, fun _ _ _ => rfl⟩

/-- The machine was aborted because a word was missing. -/
def Short (m : Machine) : Prop := m.fault?.map Fault.trap = some .stackUnderflow
  deriving Decidable

theorem step_above (enough : ¬ Short m.step) (room : ¬ Crowded m.step.stack below) :
    (m.above below).step = m.step.above below := by
  refine (aside_above below).step fun budget running charged => ?_
  rcases (closed_finds below).execute m.next (m.withBudget budget) with excused | same
  · rw [step_charged running charged] at enough room
    cases ran : m.next.execute (m.withBudget budget) with
    | error trap n =>
      rw [ran] at excused enough
      obtain rfl : trap = .stackUnderflow := excused
      exact absurd rfl enough
    | ok flow n =>
      rw [ran] at excused room
      rw [settle_stack] at room
      exact absurd excused room
  · exact same

/-- A reachable machine with more words at the bottom of its stack goes on as it does without them, and keeps them
there, as long as no word is missing without them and there is room for all with them. -/
theorem stack_locality (reachable : Reachable code config m) (below : List Word) (k : Nat)
    (enough : ∀ j < k, ¬ Short (m.advance j).step)
    (room : ∀ j < k, (m.advance j).step.stack.size + below.length ≤ Stack.machineLimit) :
    (m.above below).advance k = (m.advance k).above below := by
  induction k with
  | zero => rfl
  | succ k ih =>
    have soFar : (m.above below).advance k = (m.advance k).above below := by
      refine ih ?_ ?_
      · intro j before
        exact enough j (Nat.lt_succ_of_lt before)
      · intro j before
        exact room j (Nat.lt_succ_of_lt before)
    have uncrowded : ¬ Crowded (m.advance k).step.stack below := by
      have fits := room k (Nat.lt_succ_self k)
      rw [← (reachable_limited (.step (reachable.advance k))).stack] at fits
      exact Nat.not_lt.2 fits
    rw [advance_step, advance_step, soFar]
    exact step_above (enough k (Nat.lt_succ_self k)) uncrowded

/-- A program that copies the second word, exchanges the two top words, adds them and halts. -/
def addCopy : Code := .ofList [0x81, 0x90, 0x01, 0x00]

/-- With 1 and 2 on the stack, `addCopy` leaves 8 and 9 below them alone. -/
theorem addCopy_local :
    ∃ m, Reachable addCopy ⟨.shared, 0⟩ m ∧ m.status = .running ∧ m.stack.toList = [1, 2] ∧
      (m.above [9, 8]).stack.toList = [8, 9, 1, 2] ∧ (m.above [9, 8]).advance 4 = (m.advance 4).above [9, 8] ∧
      ((m.above [9, 8]).advance 4).stack.toList = [8, 9, 1, 3] := by
  let m : Machine := { start addCopy ⟨.shared, 0⟩ with stack := ⟨[2, 1], Stack.machineLimit⟩ }
  have filled : (start addCopy ⟨.shared, 0⟩).withStack [1, 2] = .ok m := rfl
  have reachable : Reachable addCopy ⟨.shared, 0⟩ m := .withStack .start filled
  have enough : ∀ j < 4, ¬ Short (m.advance j).step := by decide +kernel
  have room : ∀ j < 4, (m.advance j).step.stack.size + [(9 : Word), 8].length ≤ Stack.machineLimit := by
    decide +kernel
  refine ⟨m, reachable, rfl, rfl, rfl, stack_locality reachable [9, 8] 4 enough room, ?_⟩
  decide +kernel

/-! ## Words at the bottom from the start -/

theorem pushAll_eq {s : Stack} {words : List Word} (room : s.size + words.length ≤ s.limit) :
    s.pushAll words = .ok { s with words := words.reverse ++ s.words } := by
  unfold Stack.pushAll
  induction words generalizing s with
  | nil => rfl
  | cons w words ih =>
    rw [List.length_cons] at room
    have pushed : s.push w = .ok { s with words := w :: s.words } := if_pos (by omega)
    have roomThen : ({ s with words := w :: s.words } : Stack).size + words.length ≤ s.limit := by
      show s.size + 1 + words.length ≤ s.limit
      omega
    rw [List.foldlM_cons, pushed]
    show List.foldlM Stack.push _ words = _
    rw [ih roomThen]
    simp

theorem withStack_start {words : List Word} (room : words.length ≤ Stack.machineLimit) :
    (start code config).withStack words =
      .ok { start code config with stack := ⟨words.reverse, Stack.machineLimit⟩ } := by
  have pushed : (start code config).stack.pushAll words = .ok ⟨words.reverse ++ [], Stack.machineLimit⟩ := by
    refine pushAll_eq ?_
    show 0 + words.length ≤ Stack.machineLimit
    rw [Nat.zero_add]
    exact room
  unfold Machine.withStack
  rw [pushed, List.append_nil]
  rfl

/-- A machine that is given more words first has them at the bottom of its stack. -/
theorem fresh_above {words bottom : List Word} (room : bottom.length + words.length ≤ Stack.machineLimit)
    (budget : Budget) :
    fresh code config (bottom ++ words) budget =
      (fresh code config words budget).map (Machine.above bottom.reverse) := by
  have roomWithout : words.length ≤ Stack.machineLimit := Nat.le_trans (Nat.le_add_left _ _) room
  rw [← List.length_append] at room
  unfold fresh
  rw [withStack_start room, withStack_start roomWithout, List.reverse_append]
  rfl

end Gosub.Locality
