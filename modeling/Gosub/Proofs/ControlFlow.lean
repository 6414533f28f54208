import Gosub.Proofs.Steps
import Gosub.Proofs.Walk

/-!
# Control flow

Whatever a program computes as the target of a jump or a call, execution stays on the walk over its
code: in every reachable state the next instruction is one of the walk or lies past the end, and the
return stack holds addresses of calls of the walk (`control_flow_integrity`). So no byte of an
immediate is ever executed.
-/

namespace Gosub.ControlFlow

open Machine
open Gosub.Walk Gosub.Effects Gosub.Steps

variable {m n : Machine} {code : Code} {config : Configuration}

/-- An address past the end, or of an instruction of the walk. -/
def OnTrack (code : Code) (a : Nat) : Prop := code.size ≤ a ∨ Listed code a

theorem onTrack_next {a : Nat} (track : OnTrack code a) : OnTrack code (a + (code.fetch a).size) := by
  by_cases inside : a + (code.fetch a).size < code.size
  · rcases track with outside | listed
    · omega
    · exact .inr (next_listed listed inside)
  · exact .inl (by omega)

/-- The program counter and all saved addresses are on the walk, and the latter are calls. -/
structure Sound (m : Machine) : Prop where
  pc : OnTrack m.code m.pc
  sites : ∀ site ∈ m.returns.calls, Listed m.code site ∧ m.code.fetch site = .op .jumpsub
  codeSize : m.returns.codeSize = m.code.size

theorem Sound.of_sameControl (sound : Sound m) (same : SameControl m n) : Sound n := by
  have code : n.code = m.code := congrArg Destinations.code same.destinations
  refine ⟨?_, ?_, ?_⟩
  · rw [code, same.pc]
    exact sound.pc
  · rw [code, same.returns]
    exact sound.sites
  · rw [code, same.returns]
    exact sound.codeSize

theorem start_sound (code : Code) (config : Configuration) : Sound (start code config) := by
  refine ⟨?_, fun site saved => absurd saved List.not_mem_nil, rfl⟩
  show OnTrack code 0
  by_cases nonempty : 0 < code.size
  · exact .inr (first_listed nonempty)
  · exact .inl (by omega)

/-- What a return finds, sentinel or call, leads back to the walk. -/
theorem onTrack_return (sound : Sound m) : OnTrack m.code (m.returns.pop.1 + 1) := by
  cases saved : m.returns.calls with
  | nil =>
    rw [ReturnStack.pop_of_nil saved, sound.codeSize]
    exact .inl (Nat.le_succ _)
  | cons site calls =>
    rw [ReturnStack.pop_of_cons saved]
    obtain ⟨listed, call⟩ := sound.sites site (by rw [saved]; exact List.mem_cons_self)
    have track := onTrack_next (.inr listed : OnTrack m.code site)
    rw [call] at track
    exact track

theorem step_sound (sound : Sound m) : Sound m.step := by
  by_cases running : m.status = .running
  · obtain ⟨destinations, moves⟩ := step_moves running
    have code : m.step.code = m.code := congrArg Destinations.code destinations
    -- Where nothing is saved or taken, only the program counter matters.
    have staying (returns : m.step.returns = m.returns) (pc : OnTrack m.code m.step.pc) : Sound m.step := by
      refine ⟨code ▸ pc, ?_, ?_⟩
      · rw [code, returns]
        exact sound.sites
      · rw [code, returns]
        exact sound.codeSize
    cases moves with
    | refused _ _ _ pc returns | traps _ _ _ pc returns | halts _ _ _ pc returns =>
      exact staying returns (pc ▸ sound.pc)
    | passes noCall noReturn status pc returns => exact staying returns (pc ▸ onTrack_next sound.pc)
    | jumps noCall noReturn status valid returns => exact staying returns (.inr (valid_listed valid).1)
    | calls call status valid pushed =>
      have saved := ReturnStack.eq_of_push pushed
      refine ⟨code ▸ .inr (valid_listed valid).1, ?_, ?_⟩
      · rw [code, saved]
        intro site member
        rcases List.mem_cons.1 member with rfl | earlier
        · rcases sound.pc with outside | listed
          · -- Past the end there is no call.
            have stop : m.code.fetch m.pc = .op .stop := fetch_outside outside
            rw [next, stop] at call
            cases call
          · exact ⟨listed, call⟩
        · exact sound.sites site earlier
      · rw [code, saved]
        exact sound.codeSize
    | comesBack back status pc returns =>
      refine ⟨by rw [code, pc]; exact onTrack_return sound, ?_, ?_⟩
      · rw [code, returns, ReturnStack.calls_pop]
        exact fun site member => sound.sites site (List.mem_of_mem_tail member)
      · rw [code, returns, ReturnStack.codeSize_pop]
        exact sound.codeSize
  · rw [step_ended running]
    exact sound

theorem reachable_sound (reachable : Reachable code config m) : m.code = code ∧ Sound m := by
  induction reachable with
  | start => exact ⟨rfl, start_sound code config⟩
  | withStack _ filled ih =>
    have same := withStack_sameControl filled
    exact ⟨(congrArg Destinations.code same.destinations).trans ih.1, ih.2.of_sameControl same⟩
  | withBudget budget _ ih => exact ⟨ih.1, ih.2.pc, ih.2.sites, ih.2.codeSize⟩
  | step _ ih => exact ⟨(step_code _).trans ih.1, step_sound ih.2⟩

/-- Only a return past the end of the code takes the sentinel. -/
theorem sentinel_step (sound : Sound m) (standing : m.returns.hasSentinel = true ∨ m.code.size ≤ m.pc) :
    m.step.returns.hasSentinel = true ∨ m.step.code.size ≤ m.step.pc := by
  rw [step_code]
  by_cases running : m.status = .running
  · by_cases outside : m.code.size ≤ m.pc
    · rw [step_stop running (fetch_outside outside)]
      exact .inr outside
    · have sentinel := standing.resolve_right outside
      cases (step_moves running).2 with
      | refused _ _ _ _ returns | traps _ _ _ _ returns | halts _ _ _ _ returns | passes _ _ _ _ returns
      | jumps _ _ _ _ returns => exact .inl (returns ▸ sentinel)
      | calls _ _ _ pushed =>
        rw [ReturnStack.eq_of_push pushed]
        exact .inl sentinel
      | comesBack _ _ pc returns =>
        cases saved : m.returns.calls with
        | nil =>
          rw [pc, ReturnStack.pop_of_nil saved, sound.codeSize]
          exact .inr (Nat.le_succ _)
        | cons site calls =>
          rw [returns, ReturnStack.pop_of_cons saved]
          exact .inl sentinel
  · rw [step_ended running]
    exact standing

theorem reachable_sentinel (reachable : Reachable code config m) :
    m.returns.hasSentinel = true ∨ m.code.size ≤ m.pc := by
  induction reachable with
  | start => exact .inl rfl
  | withStack _ filled ih =>
    have same := withStack_sameControl filled
    rw [same.returns, same.pc, Machine.code, same.destinations]
    exact ih
  | withBudget budget _ ih => exact ih
  | step reachable ih => exact sentinel_step (reachable_sound reachable).2 ih

/-- In every reachable state the next instruction is one of the walk unless it lies past the end,
every saved address is that of a call of the walk, and the program counter is inside no instruction
of the walk: no byte of an immediate is executed. -/
theorem control_flow_integrity (reachable : Reachable code config m) :
    m.code = code ∧ (code.size ≤ m.pc ∨ (m.pc, m.next) ∈ code.instructions) ∧
      (∀ site ∈ m.returns.calls, (site, .op .jumpsub) ∈ code.instructions) ∧
      ∀ p ∈ code.instructions, p.1 < m.pc → m.pc < code.size → p.1 + p.2.size ≤ m.pc := by
  obtain ⟨rfl, sound⟩ := reachable_sound reachable
  refine ⟨rfl, sound.pc, ?_, ?_⟩
  · intro site saved
    obtain ⟨listed, call⟩ := sound.sites site saved
    rw [← call]
    exact listed
  · intro p member before inside
    rcases sound.pc with outside | listed
    · omega
    · have fetched := (mem_instructions member).2
      rw [fetched]
      exact listed_apart (listed_of_mem member) listed before

/-- In the subroutine that was called at 2, after the budget was replaced. -/
theorem callOnce_on_track :
    ∃ m, Reachable callOnce ⟨.shared, 0⟩ m ∧ (m.pc, m.next) = (5, .op .jumpdest) ∧ m.returns.calls = [2] ∧
      (2, .op .jumpsub) ∈ callOnce.instructions ∧
      ∀ p ∈ callOnce.instructions, p.1 < m.pc → m.pc < callOnce.size → p.1 + p.2.size ≤ m.pc := by
  have reachable : Reachable callOnce ⟨.shared, 0⟩
      ((start callOnce ⟨.shared, 0⟩).withBudget (.ofSteps 9)).step.step :=
    .step (.step (.withBudget (.ofSteps 9) .start))
  have calls : ((start callOnce ⟨.shared, 0⟩).withBudget (.ofSteps 9)).step.step.returns.calls = [2] := by
    decide +kernel
  obtain ⟨-, -, sites, apart⟩ := control_flow_integrity reachable
  exact ⟨_, reachable, by decide +kernel, calls, sites 2 (by simp [calls]), apart⟩

end Gosub.ControlFlow
