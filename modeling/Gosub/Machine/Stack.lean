import Gosub.Machine.Trap

/-!
# The data stack

A list of words with the top first, which holds no more than a limit.
-/

namespace Gosub

structure Stack where
  /-- The words, top first. -/
  words : List Word
  limit : Nat
  deriving DecidableEq

namespace Stack

/-- How many words the stack of a machine has room for. -/
def machineLimit : Nat := 1024

def empty (limit : Nat) : Stack := ⟨[], limit⟩

def size (s : Stack) : Nat := s.words.length

/-- The words, bottom first. -/
def toList (s : Stack) : List Word := s.words.reverse

def push (s : Stack) (w : Word) : Except Trap Stack :=
  if s.size < s.limit then .ok { s with words := w :: s.words } else .error .stackOverflow

def pushAll (s : Stack) (words : List Word) : Except Trap Stack := words.foldlM push s

def pop (s : Stack) : Except Trap (Word × Stack) :=
  match s.words with
  | [] => .error .stackUnderflow
  | w :: words => .ok (w, { s with words })

/-- The word at a depth, the top being at depth zero. -/
def peek? (s : Stack) (depth : Nat) : Option Word := s.words[depth]?

/-- Pushes a copy of the `n`th word, the top being the first. -/
def dup (s : Stack) (n : Nat) : Except Trap Stack :=
  match s.peek? (n - 1) with
  | none => .error .stackUnderflow
  | some w => s.push w

/-- Exchanges the top word with the `n`th below it. -/
def swap (s : Stack) (n : Nat) : Except Trap Stack :=
  match s.words, s.peek? n with
  | top :: words, some w => .ok { s with words := (w :: words).set n top }
  | _, _ => .error .stackUnderflow

theorem eq_of_push {s pushed : Stack} {w : Word} (done : s.push w = .ok pushed) :
    s.size < s.limit ∧ pushed = { s with words := w :: s.words } := by
  unfold push at done
  split at done
  · next room =>
    cases done
    exact ⟨room, rfl⟩
  · cases done

theorem full_of_push {s : Stack} {w : Word} {trap : Trap} (refused : s.push w = .error trap) :
    s.limit ≤ s.size ∧ trap = .stackOverflow := by
  unfold push at refused
  split at refused
  · cases refused
  · next full =>
    cases refused
    exact ⟨Nat.not_lt.1 full, rfl⟩

theorem trap_of_push {s : Stack} {w : Word} {trap : Trap} (refused : s.push w = .error trap) :
    trap = .stackOverflow :=
  (full_of_push refused).2

theorem trap_of_pop {s : Stack} {trap : Trap} (refused : s.pop = .error trap) : trap = .stackUnderflow := by
  unfold pop at refused
  split at refused
  · cases refused
    rfl
  · cases refused

theorem eq_of_dup {s copied : Stack} {n : Nat} (done : s.dup n = .ok copied) :
    ∃ w, s.words[n - 1]? = some w ∧ s.size < s.limit ∧ copied = { s with words := w :: s.words } := by
  unfold dup at done
  split at done
  · cases done
  · next w found => exact ⟨w, found, eq_of_push done⟩

theorem trap_of_dup {s : Stack} {n : Nat} {trap : Trap} (refused : s.dup n = .error trap) :
    trap = .stackUnderflow ∨ trap = .stackOverflow := by
  unfold dup at refused
  split at refused
  · cases refused
    exact .inl rfl
  · exact .inr (trap_of_push refused)

theorem eq_of_swap {s exchanged : Stack} {n : Nat} (done : s.swap n = .ok exchanged) :
    ∃ top words w, s.words = top :: words ∧ s.words[n]? = some w ∧
      exchanged = { s with words := (w :: words).set n top } := by
  unfold swap at done
  split at done
  · next top words w held found =>
    cases done
    exact ⟨top, words, w, held, found, rfl⟩
  · cases done

theorem trap_of_swap {s : Stack} {n : Nat} {trap : Trap} (refused : s.swap n = .error trap) :
    trap = .stackUnderflow := by
  unfold swap at refused
  split at refused
  · cases refused
  · cases refused
    rfl

end Stack

end Gosub
