import Gosub.Machine.Trap

/-!
# The return stack

The addresses of the calls that have not returned yet, above a sentinel that holds the size of the
code. A return without a call finds the sentinel, and then the size of the code again, and so
resumes past the end.
-/

namespace Gosub

structure ReturnStack where
  /-- The addresses of the outstanding calls, last first. -/
  calls : List Nat
  hasSentinel : Bool
  codeSize : Nat
  deriving DecidableEq

namespace ReturnStack

/-- How many calls may be outstanding. -/
def callLimit : Nat := 1023

def start (codeSize : Nat) : ReturnStack := ⟨[], true, codeSize⟩

def outstanding (r : ReturnStack) : Nat := r.calls.length

/-- The sentinel, while it is there. -/
def sentinel (r : ReturnStack) : List Nat := if r.hasSentinel then [r.codeSize] else []

/-- The entries, top first, the sentinel being the last. -/
def entries (r : ReturnStack) : List Nat := r.calls ++ r.sentinel

def depth (r : ReturnStack) : Nat := r.entries.length

/-- Saves the address of a call. -/
def push (r : ReturnStack) (callSite : Nat) : Except Trap ReturnStack :=
  if r.outstanding < callLimit then .ok { r with calls := callSite :: r.calls }
  else .error .returnStackOverflow

/-- Takes the address of the last call, or the size of the code. -/
def pop (r : ReturnStack) : Nat × ReturnStack :=
  match r.calls with
  | callSite :: calls => (callSite, { r with calls })
  | [] => (r.codeSize, { r with hasSentinel := false })

theorem eq_of_push {r pushed : ReturnStack} {callSite : Nat} (done : r.push callSite = .ok pushed) :
    pushed = { r with calls := callSite :: r.calls } := by
  unfold push at done
  split at done
  · cases done
    rfl
  · cases done

theorem trap_of_push {r : ReturnStack} {callSite : Nat} {trap : Trap} (refused : r.push callSite = .error trap) :
    trap = .returnStackOverflow := by
  unfold push at refused
  split at refused
  · cases refused
  · cases refused
    rfl

theorem pop_of_nil {r : ReturnStack} (empty : r.calls = []) :
    r.pop = (r.codeSize, { r with hasSentinel := false }) := by
  rw [pop, empty]

theorem pop_of_cons {r : ReturnStack} {callSite : Nat} {calls : List Nat} (saved : r.calls = callSite :: calls) :
    r.pop = (callSite, { r with calls }) := by
  rw [pop, saved]

theorem calls_pop (r : ReturnStack) : r.pop.2.calls = r.calls.tail := by
  cases saved : r.calls with
  | nil => rw [pop_of_nil saved, saved, List.tail_nil]
  | cons callSite calls => rw [pop_of_cons saved, List.tail_cons]

theorem codeSize_pop (r : ReturnStack) : r.pop.2.codeSize = r.codeSize := by
  cases saved : r.calls with
  | nil => rw [pop_of_nil saved]
  | cons callSite calls => rw [pop_of_cons saved]

/-- A return takes the top entry, as long as there is one. -/
theorem entries_of_pop {r : ReturnStack} (standing : r.entries ≠ []) : r.entries = r.pop.1 :: r.pop.2.entries := by
  cases saved : r.calls with
  | nil =>
    rw [entries, saved] at standing ⊢
    rw [pop_of_nil saved]
    cases sentinel : r.hasSentinel with
    | false => simp [ReturnStack.sentinel, sentinel] at standing
    | true => simp [ReturnStack.sentinel, sentinel, entries, saved]
  | cons callSite calls =>
    rw [pop_of_cons saved, entries, saved]
    rfl

end ReturnStack

end Gosub
