import Gosub.Debugger.Session
import Gosub.Proofs.Steps
import Mathlib.Data.List.Basic
import Mathlib.Order.Basic

/-!
# Commands of the debugger

What one command does to a session (`Does`, `does_execute?`). Only `step` and `continue` make the machine take steps,
as many as `Makes` says, only `break` and `unbreak` change the breakpoints, and every command is answered but for a
`continue` that never stops (`execute?_isSome`).
-/

namespace Gosub.Driving

open Debugger Debugger.Session
open Gosub.Steps

variable {m : Machine} {s t : Session} {breakpoints : List Nat} {fuel k : Nat} {outputs : List Output}

/-! ## How many steps -/

/-- So many steps can be taken: each of them begins before the end. -/
def Alive (m : Machine) (k : Nat) : Prop := ∀ j < k, (m.advance j).status = .running

/-- The machine has ended, or its next instruction is at a breakpoint. -/
def Stops (breakpoints : List Nat) (m : Machine) : Prop := m.status ≠ .running ∨ m.pc ∈ breakpoints

/-- The first state behind this one that stops is so many steps away. -/
structure FirstStop (breakpoints : List Nat) (m : Machine) (k : Nat) : Prop where
  positive : 1 ≤ k
  stops : Stops breakpoints (m.advance k)
  first : ∀ j, 1 ≤ j → j < k → ¬ Stops breakpoints (m.advance j)

/-- How many steps a command makes a machine take: none after the end, and for a `continue` before it at least one. -/
def Makes (breakpoints : List Nat) (m : Machine) : Command → Nat → Prop
  | .step n, k => Alive m k ∧ k ≤ n ∧ (k < n → (m.advance k).status ≠ .running)
  | .resume, k => Alive m k ∧ (m.status = .running → FirstStop breakpoints m k)
  | _, k => k = 0

theorem alive_zero (m : Machine) : Alive m 0 := fun _ before => absurd before (Nat.not_lt_zero _)

theorem alive_succ (running : m.status = .running) (alive : Alive m.step k) : Alive m (k + 1) := by
  intro j before
  cases j with
  | zero => exact running
  | succ j =>
    rw [advance_succ]
    exact alive j (Nat.lt_of_succ_lt_succ before)

theorem advance_one (m : Machine) : m.advance 1 = m.step := by
  rw [advance_succ, Machine.advance]

theorem firstStop_one : FirstStop breakpoints m 1 ↔ Stops breakpoints m.step := by
  rw [← advance_one]
  constructor
  · exact fun stop => stop.stops
  · intro stops
    exact ⟨Nat.le_refl 1, stops, fun j positive before => by omega⟩

theorem firstStop_succ (goesOn : ¬ Stops breakpoints m.step) (positive : 1 ≤ k) :
    FirstStop breakpoints m (k + 1) ↔ FirstStop breakpoints m.step k := by
  constructor
  · rintro ⟨-, stops, first⟩
    rw [advance_succ] at stops
    refine ⟨positive, stops, fun j _ before => ?_⟩
    rw [← advance_succ]
    exact first (j + 1) (Nat.le_add_left 1 j) (Nat.succ_lt_succ before)
  · rintro ⟨-, stops, first⟩
    rw [← advance_succ] at stops
    refine ⟨Nat.le_add_left 1 k, stops, fun j _ before => ?_⟩
    cases j with
    | zero => omega
    | succ j =>
      rw [advance_succ]
      by_cases here : j = 0
      · rw [here]
        exact goesOn
      · exact first j (Nat.pos_of_ne_zero here) (Nat.lt_of_succ_lt_succ before)

theorem FirstStop.alive (stop : FirstStop breakpoints m k) (running : m.status = .running) : Alive m k := by
  intro j before
  by_cases start : j = 0
  · rw [start]
    exact running
  · by_contra ended
    exact stop.first j (Nat.pos_of_ne_zero start) before (.inl ended)

/-- Where a machine stops at all behind this state, there is a first time. -/
theorem exists_firstStop (positive : 1 ≤ k) (stops : Stops breakpoints (m.advance k)) :
    ∃ i ≤ k, FirstStop breakpoints m i := by
  induction k generalizing m with
  | zero => omega
  | succ k ih =>
    by_cases here : Stops breakpoints m.step
    · exact ⟨1, positive, firstStop_one.2 here⟩
    · rw [advance_succ] at stops
      have more : 1 ≤ k := by
        by_contra none
        obtain rfl : k = 0 := by omega
        exact here stops
      obtain ⟨i, within, stop⟩ := ih more stops
      exact ⟨i + 1, Nat.succ_le_succ within, (firstStop_succ here stop.positive).2 stop⟩

/-! ## Moving the machine -/

theorem hasEnded_iff : s.hasEnded = true ↔ s.machine.status ≠ .running := by
  rw [hasEnded, decide_eq_true_iff]

theorem stepLogged_machine (m : Machine) : m.stepLogged.2 = m.step := by
  unfold Machine.stepLogged Machine.step
  cases m.status <;> rfl

/-- Besides the machine, a step leaves a session as it is. -/
theorem stepOnce_session (s : Session) : s.stepOnce.2 = { s with machine := s.machine.step } := by
  rw [← stepLogged_machine]
  rfl

theorem stepMany_session (n : Nat) (running : s.machine.status = .running) :
    ∃ k, (s.stepMany n).2 = { s with machine := s.machine.advance k } ∧
      Makes s.breakpoints s.machine (.step n) k := by
  induction n generalizing s with
  | zero => exact ⟨0, rfl, alive_zero _, Nat.le_refl 0, fun before => absurd before (Nat.lt_irrefl 0)⟩
  | succ n ih =>
    simp only [stepMany, stepOnce_session]
    by_cases ended : hasEnded { s with machine := s.machine.step } = true
    · rw [if_pos ended]
      refine ⟨1, by rw [advance_one], alive_succ running (alive_zero _), Nat.le_add_left 1 n, fun _ => ?_⟩
      rw [advance_one]
      exact hasEnded_iff.1 ended
    · rw [if_neg ended]
      rw [hasEnded_iff, not_not] at ended
      obtain ⟨k, same, alive, within, short⟩ := ih ended
      refine ⟨k + 1, by rw [same, advance_succ], alive_succ running alive, Nat.succ_le_succ within, fun before => ?_⟩
      rw [advance_succ]
      exact short (Nat.lt_of_succ_lt_succ before)

/-- A turn of `continue` that comes to a stop is the last one. -/
theorem resume?_stops (fuel : Nat) (before : List Output) (stops : Stops s.breakpoints s.machine.step) :
    ∃ outputs, s.resume? (fuel + 1) before = some (outputs, { s with machine := s.machine.step }) := by
  simp only [resume?, stepOnce_session]
  split
  · exact ⟨_, rfl⟩
  · next running =>
    rw [hasEnded_iff] at running
    have here : s.machine.step.pc ∈ s.breakpoints := stops.resolve_left running
    rw [if_pos (List.contains_iff_mem.2 here)]
    exact ⟨_, rfl⟩

theorem resume?_goesOn (fuel : Nat) (before : List Output) (goesOn : ¬ Stops s.breakpoints s.machine.step) :
    ∃ more, s.resume? (fuel + 1) before = resume? fuel more { s with machine := s.machine.step } := by
  simp only [resume?, stepOnce_session]
  have running : ¬ hasEnded { s with machine := s.machine.step } = true :=
    fun ended => goesOn (.inl (hasEnded_iff.1 ended))
  have elsewhere : ¬ s.breakpoints.contains s.machine.step.pc = true :=
    fun here => goesOn (.inr (List.contains_iff_mem.1 here))
  rw [if_neg running, if_neg elsewhere]
  exact ⟨_, rfl⟩

theorem resume?_session {before : List Output} (answered : s.resume? fuel before = some (outputs, t)) :
    ∃ k ≤ fuel, FirstStop s.breakpoints s.machine k ∧ t = { s with machine := s.machine.advance k } := by
  induction fuel generalizing s before with
  | zero => cases answered
  | succ fuel ih =>
    by_cases stops : Stops s.breakpoints s.machine.step
    · obtain ⟨written, last⟩ := resume?_stops fuel before stops
      rw [last] at answered
      cases answered
      exact ⟨1, Nat.le_add_left 1 fuel, firstStop_one.2 stops, by rw [advance_one]⟩
    · obtain ⟨more, next⟩ := resume?_goesOn fuel before stops
      rw [next] at answered
      obtain ⟨k, within, later, rfl⟩ := ih answered
      exact ⟨k + 1, Nat.succ_le_succ within, (firstStop_succ stops later.positive).2 later, by rw [advance_succ]⟩

/-- A machine that stops somewhere comes back to the prompt. -/
theorem resume?_isSome (before : List Output) (within : k ≤ fuel) (stop : FirstStop s.breakpoints s.machine k) :
    (s.resume? fuel before).isSome = true := by
  induction fuel generalizing s before k with
  | zero => exact absurd stop.positive (by omega)
  | succ fuel ih =>
    by_cases stops : Stops s.breakpoints s.machine.step
    · obtain ⟨written, last⟩ := resume?_stops fuel before stops
      rw [last]
      rfl
    · obtain ⟨more, next⟩ := resume?_goesOn fuel before stops
      obtain ⟨k, rfl⟩ := Nat.exists_eq_add_of_le' stop.positive
      have later : 1 ≤ k := by
        by_contra none
        obtain rfl : k = 0 := by omega
        exact stops (firstStop_one.1 stop)
      rw [next]
      exact ih more (Nat.le_of_succ_le_succ within) ((firstStop_succ stops later).1 stop)

/-! ## Breakpoints -/

/-- The address that a location names. -/
def addressOf? (labels : Labels) : Location → Option Nat
  | .offset word => word.address?
  | .label name => labels.address? name

/-- The command sets a breakpoint at an address. -/
def Breaks (labels : Labels) (a : Nat) : Command → Prop
  | .setBreak location => addressOf? labels location = some a
  | _ => False

/-- The command takes a breakpoint at an address away. -/
def Unbreaks (labels : Labels) (a : Nat) : Command → Prop
  | .unsetBreak location => addressOf? labels location = some a
  | _ => False

theorem resolve_eq_ok {location : Location} {a : Nat} :
    s.resolve location = .ok a ↔ addressOf? s.labels location = some a := by
  cases location with
  | offset word =>
    simp only [resolve, resolveOffset, addressOf?]
    cases word.address? <;> simp
  | label name =>
    simp only [resolve, addressOf?]
    cases s.labels.address? name <;> simp

/-! ## Commands -/

/-- What a command does to a session. -/
structure Does (s : Session) (c : Command) (t : Session) : Prop where
  labels : t.labels = s.labels
  last : t.last = s.last
  distinct : t.breakpoints.Nodup
  breakpoints : ∀ a, a ∈ t.breakpoints ↔ Breaks s.labels a c ∨ (a ∈ s.breakpoints ∧ ¬ Unbreaks s.labels a c)
  machine : ∃ k, t.machine = s.machine.advance k ∧ Makes s.breakpoints s.machine c k

/-- What moves the machine leaves the rest, but for where a listing goes on. -/
theorem does_moving {c : Command} {f : Session → Option (List Output × Session)} (distinct : s.breakpoints.Nodup)
    (noBreak : ∀ a, ¬ Breaks s.labels a c) (noUnbreak : ∀ a, ¬ Unbreaks s.labels a c)
    (still : s.machine.status ≠ .running → Makes s.breakpoints s.machine c 0)
    (moves : ∀ outputs t, s.machine.status = .running → f { s with listAt := none } = some (outputs, t) →
      ∃ k, t = { s with listAt := none, machine := s.machine.advance k } ∧ Makes s.breakpoints s.machine c k)
    (done : s.moving f = some (outputs, t)) : Does s c t := by
  have kept (a : Nat) : a ∈ s.breakpoints ↔ Breaks s.labels a c ∨ (a ∈ s.breakpoints ∧ ¬ Unbreaks s.labels a c) := by
    simp [noBreak, noUnbreak]
  unfold moving at done
  split at done
  · next ended =>
    cases done
    exact ⟨rfl, rfl, distinct, kept, 0, rfl, still (hasEnded_iff.1 ended)⟩
  · next running =>
    rw [hasEnded_iff, not_not] at running
    obtain ⟨k, rfl, makes⟩ := moves outputs t running done
    exact ⟨rfl, rfl, distinct, kept, k, rfl, makes⟩

/-- Commands that only show the session. -/
theorem does_showing {c : Command} (distinct : s.breakpoints.Nodup) (noBreak : ∀ a, ¬ Breaks s.labels a c)
    (noUnbreak : ∀ a, ¬ Unbreaks s.labels a c) (still : Makes s.breakpoints s.machine c 0) (listAt : Option Nat) :
    Does s c { s with listAt } :=
  ⟨rfl, rfl, distinct, fun a => by simp [noBreak, noUnbreak], 0, rfl, still⟩

/-- A location that names no address changes nothing. -/
theorem not_named {e : LocationError} {location : Location} (refused : s.resolve location = .error e) (a : Nat) :
    addressOf? s.labels location ≠ some a := by
  intro named
  rw [resolve_eq_ok.2 named] at refused
  cases refused

theorem does_setBreak (distinct : s.breakpoints.Nodup) (location : Location) :
    Does s (.setBreak location) (s.withAddress (s.resolve location) s.addBreakpoint).2 := by
  cases resolved : s.resolve location with
  | error e =>
    exact does_showing (c := .setBreak location) distinct (not_named resolved) (fun _ => id) rfl s.listAt
  | ok address =>
    have named := resolve_eq_ok.1 resolved
    simp only [withAddress, addBreakpoint]
    by_cases known : address ∈ s.breakpoints
    · rw [if_pos (List.contains_iff_mem.2 known)]
      refine ⟨rfl, rfl, distinct, fun a => ?_, 0, rfl, rfl⟩
      simp only [Breaks, Unbreaks, named, Option.some.injEq, not_false_eq_true, and_true]
      constructor
      · exact .inr
      · rintro (rfl | set)
        · exact known
        · exact set
    · rw [if_neg (mt List.contains_iff_mem.1 known)]
      refine ⟨rfl, rfl, List.nodup_cons.2 ⟨known, distinct⟩, fun a => ?_, 0, rfl, rfl⟩
      simp [Breaks, Unbreaks, named, eq_comm]

theorem does_unsetBreak (distinct : s.breakpoints.Nodup) (location : Location) :
    Does s (.unsetBreak location) (s.withAddress (s.resolve location) s.removeBreakpoint).2 := by
  cases resolved : s.resolve location with
  | error e =>
    exact does_showing (c := .unsetBreak location) distinct (fun _ => id) (not_named resolved) rfl s.listAt
  | ok address =>
    have named := resolve_eq_ok.1 resolved
    simp only [withAddress, removeBreakpoint]
    by_cases known : address ∈ s.breakpoints
    · rw [if_pos (List.contains_iff_mem.2 known)]
      refine ⟨rfl, rfl, distinct.erase address, fun a => ?_, 0, rfl, rfl⟩
      simp only [Breaks, Unbreaks, named, Option.some.injEq, false_or, distinct.mem_erase_iff]
      rw [and_comm, eq_comm]
    · rw [if_neg (mt List.contains_iff_mem.1 known)]
      refine ⟨rfl, rfl, distinct, fun a => ?_, 0, rfl, rfl⟩
      simp only [Breaks, Unbreaks, named, Option.some.injEq, false_or]
      constructor
      · intro set
        refine ⟨set, ?_⟩
        rintro rfl
        exact known set
      · exact And.left

theorem does_execute? {c : Command} (distinct : s.breakpoints.Nodup) (done : s.execute? fuel c = some (outputs, t)) :
    Does s c t := by
  have showing {c : Command} (noBreak : ∀ a, ¬ Breaks s.labels a c) (noUnbreak : ∀ a, ¬ Unbreaks s.labels a c)
      (still : Makes s.breakpoints s.machine c 0) : Does s c s :=
    does_showing distinct noBreak noUnbreak still s.listAt
  cases c with
  | step n =>
    simp only [execute?] at done
    refine does_moving distinct (fun _ => id) (fun _ => id) ?_ ?_ done
    · exact fun ended => ⟨alive_zero _, Nat.zero_le n, fun _ => ended⟩
    · intro written t running moved
      obtain ⟨k, same, makes⟩ := stepMany_session (s := { s with listAt := none }) n running
      refine ⟨k, ?_, makes⟩
      rw [← same]
      exact (congrArg Prod.snd (Option.some.inj moved)).symm
  | resume =>
    simp only [execute?] at done
    refine does_moving distinct (fun _ => id) (fun _ => id) ?_ ?_ done
    · exact fun ended => ⟨alive_zero _, fun running => absurd running ended⟩
    · intro written t running moved
      obtain ⟨k, -, stop, same⟩ := resume?_session moved
      exact ⟨k, same, stop.alive running, fun _ => stop⟩
  | setBreak location =>
    obtain rfl : _ = t := congrArg Prod.snd (Option.some.inj done)
    exact does_setBreak distinct location
  | unsetBreak location =>
    obtain rfl : _ = t := congrArg Prod.snd (Option.some.inj done)
    exact does_unsetBreak distinct location
  | list n =>
    cases done
    exact does_showing (c := .list n) distinct (fun _ => id) (fun _ => id) rfl _
  | memory offset n =>
    simp only [execute?, withAddress, Option.some.injEq] at done
    split at done <;> cases done <;> exact showing (fun _ => id) (fun _ => id) rfl
  | info topic =>
    cases topic <;> cases done <;> exact showing (fun _ => id) (fun _ => id) rfl
  | exit | stack | returns =>
    cases done
    exact showing (fun _ => id) (fun _ => id) rfl

/-- Every command is answered, but for a `continue` that does not stop within the fuel. -/
theorem execute?_isSome (fuel : Nat) (s : Session) (c : Command) : (s.execute? fuel c).isSome = true ↔
    (c = .resume → s.machine.status = .running → ∃ k ≤ fuel, FirstStop s.breakpoints s.machine k) := by
  cases c with
  | resume =>
    simp only [execute?, moving, forall_const]
    split
    · next ended => simp [hasEnded_iff.1 ended]
    · next running =>
      rw [hasEnded_iff, not_not] at running
      constructor
      · intro answered _
        obtain ⟨⟨written, t⟩, answer⟩ := Option.isSome_iff_exists.1 answered
        obtain ⟨k, within, stop, -⟩ := resume?_session answer
        exact ⟨k, within, stop⟩
      · intro stopping
        obtain ⟨k, within, stop⟩ := stopping running
        exact resume?_isSome [] within stop
  | step n =>
    simp only [execute?, moving]
    split <;> simp
  | info topic => cases topic <;> simp [execute?]
  | exit | stack | returns | memory _ _ | list _ | setBreak _ | unsetBreak _ => simp [execute?]

end Gosub.Driving
