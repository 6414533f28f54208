import Gosub.Proofs.Steps
import Gosub.Proofs.Walk

/-!
# Calls and returns

The calls and returns that a run completes, read off its instructions alone, and what the return
stack holds by them: the sites of the calls that have not returned, above the sentinel. A return
leads behind the call that it matches (`site_matches`), and the one return that may find no call
ends the run (`calls_and_returns`).
-/

namespace Gosub.Calls

open Machine
open Gosub.Walk Gosub.Effects Gosub.Steps

variable {m : Machine} {code : Code}

/-! ## Histories -/

/-- What came of the calls and returns of a run. -/
structure History where
  /-- The addresses of the calls that have not returned, the last one last. -/
  sites : List Nat
  calls : Nat
  /-- The returns that found a call. -/
  matched : Nat
  /-- The returns that found none. -/
  unmatched : Nat
  deriving DecidableEq

namespace History

def empty : History := ⟨[], 0, 0, 0⟩

/-- The history after one more instruction: a call is appended, a return removes the last one. -/
def note (h : History) : Nat × Instruction → History
  | (site, .op .jumpsub) => { h with sites := h.sites ++ [site], calls := h.calls + 1 }
  | (_, .op .returnsub) =>
    if h.sites = [] then { h with unmatched := h.unmatched + 1 }
    else { h with sites := h.sites.dropLast, matched := h.matched + 1 }
  | _ => h

/-- The history of a run that completed these instructions. -/
def of (executed : List (Nat × Instruction)) : History := executed.foldl note empty

theorem of_snoc (executed : List (Nat × Instruction)) (last : Nat × Instruction) :
    of (executed ++ [last]) = (of executed).note last := by
  simp [of]

theorem note_other (h : History) {p : Nat × Instruction} (noCall : p.2 ≠ .op .jumpsub)
    (noReturn : p.2 ≠ .op .returnsub) : h.note p = h := by
  unfold note
  split
  · exact absurd rfl noCall
  · exact absurd rfl noReturn
  · rfl

end History

/-! ## Matching calls -/

/-- Instructions whose calls and returns match each other. -/
inductive Nested : List (Nat × Instruction) → Prop
  | nil : Nested []
  | other {before : List (Nat × Instruction)} {p : Nat × Instruction} : Nested before → p.2 ≠ .op .jumpsub →
      p.2 ≠ .op .returnsub → Nested (before ++ [p])
  | call {before inside : List (Nat × Instruction)} (site back : Nat) : Nested before → Nested inside →
      Nested (before ++ (site, .op .jumpsub) :: inside ++ [(back, .op .returnsub)])

/-- The last call that has not returned was followed by nothing but matching calls and returns. -/
theorem site_matches (executed : List (Nat × Instruction)) {earlier : List Nat} {site : Nat}
    (outstanding : (History.of executed).sites = earlier ++ [site]) :
    ∃ before inside, executed = before ++ (site, .op .jumpsub) :: inside ∧ Nested inside ∧
      (History.of before).sites = earlier := by
  -- A return takes the run back to what stood before its call, which is why this goes by length.
  induction length : executed.length using Nat.strongRecOn generalizing executed earlier site with
  | ind k ih =>
    rcases List.eq_nil_or_concat executed with rfl | ⟨executed, ⟨a, i⟩, rfl⟩
    · simp [History.of, History.empty] at outstanding
    · rw [List.concat_eq_append] at *
      rw [History.of_snoc] at outstanding
      simp only [List.length_append, List.length_singleton] at length
      by_cases call : i = .op .jumpsub
      · subst call
        obtain ⟨rfl, same⟩ := List.append_inj' outstanding rfl
        cases same
        exact ⟨executed, [], rfl, .nil, rfl⟩
      by_cases back : i = .op .returnsub
      · subst back
        by_cases none : (History.of executed).sites = []
        · simp [History.note, none] at outstanding
        · simp only [History.note, none, if_false] at outstanding
          obtain ⟨last, whole⟩ : ∃ last, (History.of executed).sites = earlier ++ [site] ++ [last] :=
            ⟨_, outstanding ▸ (List.dropLast_concat_getLast none).symm⟩
          obtain ⟨middle, inside, rfl, nested, standing⟩ := ih _ (by omega) executed whole rfl
          have shorter : middle.length < k := by
            rw [← length]
            simp only [List.length_append, List.length_cons]
            omega
          obtain ⟨before, between, rfl, nestedBefore, sites⟩ := ih _ shorter middle standing rfl
          refine ⟨before, between ++ (last, .op .jumpsub) :: inside ++ [(a, .op .returnsub)], ?_, ?_, sites⟩
          · simp
          · exact .call last a nestedBefore nested
      · rw [History.note_other _ call back] at outstanding
        obtain ⟨before, inside, rfl, nested, sites⟩ := ih _ (by omega) executed outstanding rfl
        exact ⟨before, inside ++ [(a, i)], by simp, .other nested call back, sites⟩

/-! ## The return stack along a run -/

/-- How a machine stands after a history. Either all returns found a call, and the return stack holds
the calls that have not returned, or one did not, and the run is at its end. -/
structure Follows (code : Code) (h : History) (m : Machine) : Prop where
  sameCode : m.code = code
  codeSize : m.returns.codeSize = code.size
  counted : m.returns.calls.length + h.matched = h.calls
  stands : (h.unmatched = 0 ∧ m.returns.hasSentinel = true ∧ m.returns.calls = h.sites.reverse) ∨
    (h.unmatched = 1 ∧ h.sites = [] ∧ m.returns.hasSentinel = false ∧ m.returns.calls = [] ∧
      m.pc = code.size + 1 ∧ (m.status = .running ∨ m.status = .halted .stop))

theorem Follows.of_sameControl {h : History} {n : Machine} (follows : Follows code h m) (same : SameControl m n) :
    Follows code h n := by
  obtain ⟨codeIs, codeSize, counted, stands⟩ := follows
  refine ⟨(congrArg Destinations.code same.destinations).trans codeIs, ?_, ?_, ?_⟩
  · rw [same.returns, codeSize]
  · rw [same.returns, counted]
  · rw [same.returns, same.pc, same.status]
    exact stands

/-- Past its one return without a call the machine stops. -/
theorem stops_at_end (codeIs : m.code = code) (pc : m.pc = code.size + 1)
    (status : m.status = .running ∨ m.status = .halted .stop) : m.step = { m with status := .halted .stop } := by
  rcases status with running | halted
  · refine step_stop running ?_
    rw [next, codeIs, pc]
    exact fetch_outside (Nat.le_succ _)
  · rw [step_ended (by rw [halted]; exact Status.noConfusion), ← halted]

theorem follows_step {h : History} (follows : Follows code h m) :
    Follows code ((completes m).foldl History.note h) m.step := by
  obtain ⟨codeIs, codeSize, counted, stands⟩ := follows
  have codeAfter : m.step.code = code := (step_code m).trans codeIs
  rcases stands with ⟨unmatched, sentinel, calls⟩ | ⟨unmatched, sites, sentinel, calls, pc, status⟩
  · -- Where the return stack stays as it is and nothing is noted, there is nothing to show.
    have staying (returns : m.step.returns = m.returns) (nothing : (completes m).foldl History.note h = h) :
        Follows code ((completes m).foldl History.note h) m.step := by
      rw [nothing]
      refine ⟨codeAfter, ?_, ?_, .inl ⟨unmatched, ?_⟩⟩
      · rw [returns, codeSize]
      · rw [returns, counted]
      · rw [returns]
        exact ⟨sentinel, calls⟩
    by_cases running : m.status = .running
    · cases (step_moves running).2 with
      | refused _ _ status _ returns | traps _ _ status _ returns => exact staying returns (by simp [completes, status])
      | halts halt _ status _ returns => exact staying returns (by simp [completes, status])
      | passes noCall noReturn status _ returns =>
        exact staying returns (by simp [completes, status, h.note_other (p := (m.pc, m.next)) noCall noReturn])
      | jumps noCall noReturn status _ returns =>
        exact staying returns (by simp [completes, status, h.note_other (p := (m.pc, m.next)) noCall noReturn])
      | calls call status _ pushed =>
        have saved := ReturnStack.eq_of_push pushed
        have noted : (completes m).foldl History.note h =
            { h with sites := h.sites ++ [m.pc], calls := h.calls + 1 } := by
          simp [completes, status, call, History.note]
        rw [noted]
        refine ⟨codeAfter, ?_, ?_, .inl ⟨unmatched, ?_⟩⟩
        · rw [saved, codeSize]
        · simp only [saved, List.length_cons]
          omega
        · simp [saved, sentinel, calls]
      | comesBack back status pc returns =>
        by_cases none : h.sites = []
        · have noCalls : m.returns.calls = [] := by simp [calls, none]
          have noted : (completes m).foldl History.note h = { h with unmatched := h.unmatched + 1 } := by
            simp [completes, status, back, History.note, none]
          rw [ReturnStack.pop_of_nil noCalls] at pc returns
          rw [noted]
          refine ⟨codeAfter, ?_, ?_, .inr ⟨by rw [unmatched], none, ?_, ?_, ?_, .inl status⟩⟩
          · rw [returns, codeSize]
          · rw [returns, counted]
          · rw [returns]
          · rw [returns, noCalls]
          · rw [pc, codeSize]
        · obtain ⟨site, rest, saved⟩ := List.exists_cons_of_ne_nil (mt List.reverse_eq_nil_iff.1 none)
          have noted : (completes m).foldl History.note h =
              { h with sites := h.sites.dropLast, matched := h.matched + 1 } := by
            simp [completes, status, back, History.note, none]
          rw [← calls] at saved
          have taken : rest = h.sites.dropLast.reverse := by
            rw [← List.tail_reverse, ← calls, saved, List.tail_cons]
          rw [ReturnStack.pop_of_cons saved] at returns
          rw [saved] at counted
          rw [noted]
          refine ⟨codeAfter, ?_, ?_, .inl ⟨unmatched, ?_, ?_⟩⟩
          · rw [returns, codeSize]
          · simp only [returns, List.length_cons] at counted ⊢
            omega
          · rw [returns, sentinel]
          · rw [returns, taken]
    · have ended : completes m = [] := by simp [completes, mt running_of_step running]
      exact staying (by rw [step_ended running]) (by rw [ended, List.foldl_nil])
  · have halts := stops_at_end codeIs pc status
    have nothing : completes m = [] := by simp [completes, halts]
    rw [nothing, halts]
    exact ⟨codeIs, codeSize, counted, .inr ⟨unmatched, sites, sentinel, calls, pc, .inr rfl⟩⟩

theorem follows_advance {h : History} (follows : Follows code h m) (k : Nat) :
    Follows code ((completed k m).foldl History.note h) (m.advance k) := by
  induction k generalizing m h with
  | zero => exact follows
  | succ k ih =>
    rw [advance_succ, completed, List.foldl_append]
    exact ih (follows_step follows)

/-- A machine that has not begun follows the empty history. -/
theorem follows_fresh {config : Configuration} {words : List Word} {budget : Budget}
    (made : fresh code config words budget = .ok m) : Follows code .empty m :=
  Follows.of_sameControl ⟨rfl, rfl, rfl, .inl ⟨rfl, rfl, rfl⟩⟩ (fresh_sameControl made)

theorem follows_run {config : Configuration} {words : List Word} {budget : Budget}
    (made : fresh code config words budget = .ok m) (k : Nat) :
    Follows code (.of (completed k m)) (m.advance k) :=
  follows_advance (follows_fresh made) k

/-- Where a return that found no call leaves the machine. -/
theorem Follows.final {h : History} (follows : Follows code h m) (unmatched : h.unmatched = 1) :
    m.pc = code.size + 1 ∧ m.returns.entries = [] ∧ m.step = { m with status := .halted .stop } := by
  obtain ⟨sameCode, -, -, ⟨noneUnmatched, -, -⟩ | ⟨-, -, sentinel, calls, pc, status⟩⟩ := follows
  · omega
  · refine ⟨pc, ?_, stops_at_end sameCode pc status⟩
    simp [ReturnStack.entries, ReturnStack.sentinel, sentinel, calls]

/-- While the machine runs on, all returns so far found a call. -/
theorem Follows.unmatched_of_running {h : History} (follows : Follows code h m) (running : m.step.status = .running) :
    h.unmatched = 0 := by
  rcases follows.stands with ⟨unmatched, -⟩ | ⟨unmatched, -⟩
  · exact unmatched
  · rw [(follows.final unmatched).2.2] at running
    cases running

theorem follows_return {h : History} (follows : Follows code h m) (back : m.next = .op .returnsub)
    (running : m.step.status = .running) : Follows code (h.note (m.pc, .op .returnsub)) m.step := by
  have stepped := follows_step follows
  rw [completes, if_pos running, back] at stepped
  exact stepped

theorem step_return (back : m.next = .op .returnsub) (running : m.step.status = .running) :
    m.step.pc = m.returns.pop.1 + 1 := by
  cases (step_moves (running_of_step running)).2 with
  | comesBack _ _ pc _ => exact pc
  | refused _ _ status _ _ | traps _ _ status _ _ | halts _ _ status _ _ => rw [running] at status; cases status
  | passes _ noReturn _ _ _ | jumps _ noReturn _ _ _ => exact absurd back noReturn
  | calls call _ _ _ => rw [back] at call; cases call

/-! ## The discipline -/

/-- How calls and returns stand in a run that completed these instructions and got to this machine. -/
structure Disciplined (code : Code) (executed : List (Nat × Instruction)) (n : Machine) : Prop where
  /-- Unless a return found no call, the return stack holds the size of the code below the calls that
  have not returned. -/
  entries : (History.of executed).unmatched = 0 →
    n.returns.entries.reverse = code.size :: (History.of executed).sites
  outstanding : n.returns.outstanding + (History.of executed).matched = (History.of executed).calls
  /-- A return leads behind the last call that is not followed by its own return. -/
  resumes : n.next = .op .returnsub → n.step.status = .running → ∀ earlier site,
    (History.of executed).sites = earlier ++ [site] → n.step.pc = site + 1 ∧
      ∃ before inside, executed = before ++ (site, .op .jumpsub) :: inside ∧ Nested inside
  /-- A return that finds no call resumes past the end with nothing on the return stack, and there the
  machine stops. -/
  runsOut : n.next = .op .returnsub → n.step.status = .running → (History.of executed).sites = [] →
    n.step.pc = code.size + 1 ∧ n.step.returns.entries = [] ∧
      n.step.step = { n.step with status := .halted .stop }
  once : (History.of executed).unmatched ≤ 1
  sentinel : n.returns.hasSentinel = false ↔ (History.of executed).unmatched = 1
  /-- After a return without a call there is no way but to stop. -/
  final : (History.of executed).unmatched = 1 →
    n.pc = code.size + 1 ∧ n.returns.entries = [] ∧ n.step = { n with status := .halted .stop }

/-- Calls and returns, for every code, configuration, initial stack and budget, after any number of
steps of a fresh machine. -/
theorem calls_and_returns {config : Configuration} {words : List Word} {budget : Budget}
    (made : fresh code config words budget = .ok m) (k : Nat) :
    Disciplined code (completed k m) (m.advance k) := by
  have follows := follows_run made k
  generalize m.advance k = n at follows
  generalize executed : completed k m = history at follows
  refine ⟨?_, follows.counted, ?_, ?_, ?_, ?_, follows.final⟩
  · intro unmatched
    rcases follows.stands with ⟨-, sentinel, calls⟩ | ⟨one, -⟩
    · simp [ReturnStack.entries, ReturnStack.sentinel, sentinel, calls, follows.codeSize]
    · omega
  · intro back running earlier site sites
    rcases follows.stands with ⟨-, -, calls⟩ | ⟨-, none, -⟩
    · obtain ⟨before, inside, split, nested, -⟩ := site_matches history sites
      rw [sites, List.reverse_append, List.reverse_singleton, List.singleton_append] at calls
      rw [step_return back running, ReturnStack.pop_of_cons calls]
      exact ⟨rfl, before, inside, split, nested⟩
    · simp [none] at sites
  · intro back running none
    refine (follows_return follows back running).final ?_
    simp [History.note, none, follows.unmatched_of_running running]
  · rcases follows.stands with ⟨unmatched, -⟩ | ⟨unmatched, -⟩ <;> omega
  · rcases follows.stands with ⟨unmatched, sentinel, -⟩ | ⟨unmatched, -, sentinel, -⟩
    · simp [unmatched, sentinel]
    · simp [unmatched, sentinel]

/-- The call at 2 comes back to 3; the return there finds no call, and the machine stops past the end. -/
theorem callOnce_returns :
    fresh callOnce ⟨.shared, 0⟩ [] .unlimited = .ok (start callOnce ⟨.shared, 0⟩) ∧
      History.of (completed 5 (start callOnce ⟨.shared, 0⟩)) = ⟨[], 1, 1, 1⟩ ∧
      Disciplined callOnce (completed 5 (start callOnce ⟨.shared, 0⟩)) ((start callOnce ⟨.shared, 0⟩).advance 5) := by
  have made : fresh callOnce ⟨.shared, 0⟩ [] .unlimited = .ok (start callOnce ⟨.shared, 0⟩) := rfl
  exact ⟨made, by decide +kernel, calls_and_returns made 5⟩

end Gosub.Calls
