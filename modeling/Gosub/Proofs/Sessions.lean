import Mathlib.Order.Nat
import Gosub.Proofs.Commands
import Gosub.Proofs.Completing
import Gosub.Proofs.Driving

/-!
# Sessions of the debugger

A debugger only drives its machine (`debugger_drives`). At every prompt the machine is where so many steps lead, the
breakpoints are those that were set and not taken away since, and a session that is continued to the end comes to
where the run of the machine ends. What a line stands for is told by the words that it is made of (`meant?_eq_some`).
-/

namespace Gosub.Debugger

open Gosub.Driving

/-- The command that a line spells out. -/
def spelled? (line : String) : Option Command := (Words.split? line).bind Command.ofWords?

/-- The last command that one of some lines spells out. -/
def lastSpelled? (lines : List String) : Option Command := (lines.filterMap spelled?).getLast?

/-- The command that a line stands for behind others: an empty one for the last that was spelled out. -/
def meant? (earlier : List String) (line : String) : Option Command :=
  if line.isEmpty then lastSpelled? earlier else spelled? line

/-- A breakpoint stands behind some lines: one of them set it, and none since took it away. -/
inductive Standing (labels : Labels) (a : Nat) : List String → Prop
  | set {lines : List String} {line : String} {c : Command} : meant? lines line = some c → Breaks labels a c →
      Standing labels a (lines ++ [line])
  | kept {lines : List String} {line : String} : Standing labels a lines →
      (∀ c, meant? lines line = some c → ¬ Unbreaks labels a c) → Standing labels a (lines ++ [line])

/-- How many steps a line makes the machine of a session take, behind other lines. -/
def LineMakes (s : Session) (earlier : List String) (line : String) (k : Nat) : Prop :=
  match meant? earlier line with
  | some c => Makes s.breakpoints s.machine c k
  | none => k = 0

/-- The session at the prompt behind some lines, unless one of them ends it or is never answered. -/
def Session.prompt? (fuel : Nat) : Session → List String → Option Session
  | s, [] => some s
  | s, line :: rest => do
    let (_, next) ← s.answer? fuel line
    prompt? fuel (← next) rest

end Gosub.Debugger

namespace Gosub.Sessions

open Debugger Debugger.Session
open Gosub.Steps Gosub.Commands Gosub.Driving

variable {m : Machine} {labels : Labels} {s t : Session} {lines : List String} {line : String} {fuel k : Nat}
  {c : Command} {outputs : List Output}

/-! ## What lines stand for -/

theorem spelled?_empty : spelled? "" = none := by decide +kernel

/-- A line spells a command if its words do. -/
theorem spelled?_eq_some : spelled? line = some c ↔ ∃ words, Words.split? line = some words ∧ Spells words c := by
  rw [spelled?, Option.bind_eq_some_iff]
  simp only [ofWords?_eq_some]

/-- Where nothing is quoted, the words of a line are parted by its blanks. -/
theorem spelled?_plain (plain : ∀ ch ∈ line.toList, Completing.Plain ch) :
    spelled? line = some c ↔ Spells ((Completing.runs line.toList).map String.ofList) c := by
  have split := Completing.split?_plain plain
  rw [String.ofList_toList] at split
  simp [spelled?_eq_some, split]

/-- An empty line stands for the command before it, and any other line for the one that it spells. -/
theorem meant?_eq_some : meant? lines line = some c ↔ (line = "" ∧ lastSpelled? lines = some c) ∨
    ∃ words, Words.split? line = some words ∧ Spells words c := by
  rw [← spelled?_eq_some, meant?]
  split
  · next empty =>
    obtain rfl := String.isEmpty_iff.1 empty
    simp [spelled?_empty]
  · next full =>
    rw [String.isEmpty_iff] at full
    simp [full]

theorem lastSpelled?_concat (lines : List String) (line : String) :
    lastSpelled? (lines ++ [line]) = (spelled? line).or (lastSpelled? lines) := by
  unfold lastSpelled?
  rw [List.filterMap_append, List.getLast?_append]
  cases said : spelled? line <;> simp [said]

theorem lastSpelled?_of_meant (meant : meant? lines line = some c) : lastSpelled? (lines ++ [line]) = some c := by
  rw [lastSpelled?_concat]
  unfold meant? at meant
  split at meant
  · next empty =>
    rw [String.isEmpty_iff.1 empty, spelled?_empty]
    exact meant
  · rw [meant]
    rfl

theorem lastSpelled?_of_none (nothing : meant? lines line = none) :
    lastSpelled? (lines ++ [line]) = lastSpelled? lines := by
  rw [lastSpelled?_concat]
  unfold meant? at nothing
  split at nothing
  · next empty =>
    rw [String.isEmpty_iff.1 empty, spelled?_empty]
    rfl
  · rw [nothing]
    rfl

theorem standing_concat {a : Nat} : Standing labels a (lines ++ [line]) ↔
    (∃ c, meant? lines line = some c ∧ Breaks labels a c) ∨
      (Standing labels a lines ∧ ∀ c, meant? lines line = some c → ¬ Unbreaks labels a c) := by
  constructor
  · intro standing
    generalize whole : lines ++ [line] = all at standing
    cases standing with
    | set meant breaks =>
      obtain ⟨rfl, rfl⟩ := List.append_singleton_inj.1 whole
      exact .inl ⟨_, meant, breaks⟩
    | kept before others =>
      obtain ⟨rfl, rfl⟩ := List.append_singleton_inj.1 whole
      exact .inr ⟨before, others⟩
  · rintro (⟨c, meant, breaks⟩ | ⟨before, others⟩)
    · exact .set meant breaks
    · exact .kept before others

/-! ## Answers -/

theorem request_eq_command (last : s.last = lastSpelled? lines) :
    s.request line = .command c ↔ meant? lines line = some c := by
  unfold request meant? spelled?
  rw [last]
  split
  · cases lastSpelled? lines <;> simp
  · cases (Words.split? line).bind Command.ofWords? <;> simp

/-- A line that stands for no command leaves the session as it is. -/
theorem answer?_nothing (fuel : Nat) (last : s.last = lastSpelled? lines) (nothing : meant? lines line = none) :
    ∃ outputs, s.answer? fuel line = some (outputs, some s) := by
  unfold answer?
  cases requested : s.request line with
  | nothing => exact ⟨_, rfl⟩
  | wrong => exact ⟨_, rfl⟩
  | command c =>
    rw [(request_eq_command last).1 requested] at nothing
    cases nothing

theorem answer?_exit (fuel : Nat) (last : s.last = lastSpelled? lines) (meant : meant? lines line = some .exit) :
    ∃ outputs, s.answer? fuel line = some (outputs, none) := by
  unfold answer?
  rw [(request_eq_command last).2 meant]
  exact ⟨_, rfl⟩

theorem answer?_command (fuel : Nat) (last : s.last = lastSpelled? lines) (meant : meant? lines line = some c)
    (noExit : c ≠ .exit) : ∃ record, s.answer? fuel line =
      (execute? fuel { s with last := some c } c).map fun a => (record :: a.1, some a.2) := by
  unfold answer?
  rw [(request_eq_command last).2 meant]
  simp only [if_neg noExit]
  exact ⟨_, rfl⟩

/-- What an answer leaves of the session: all of it, nothing, or what a command does. -/
theorem answer?_next {next : Option Session} (last : s.last = lastSpelled? lines)
    (answered : s.answer? fuel line = some (outputs, next)) :
    (meant? lines line = none ∧ next = some s) ∨ (meant? lines line = some .exit ∧ next = none) ∨
      ∃ c written t, meant? lines line = some c ∧ next = some t ∧
        execute? fuel { s with last := some c } c = some (written, t) := by
  cases meant : meant? lines line with
  | none =>
    obtain ⟨written, same⟩ := answer?_nothing fuel last meant
    rw [same] at answered
    cases answered
    exact .inl ⟨rfl, rfl⟩
  | some c =>
    by_cases exit : c = .exit
    · subst exit
      obtain ⟨written, ends⟩ := answer?_exit fuel last meant
      rw [ends] at answered
      cases answered
      exact .inr (.inl ⟨rfl, rfl⟩)
    · obtain ⟨record, executes⟩ := answer?_command fuel last meant exit
      rw [executes, Option.map_eq_some_iff] at answered
      obtain ⟨⟨written, t⟩, done, same⟩ := answered
      cases same
      exact .inr (.inr ⟨c, written, t, rfl, rfl, done⟩)

/-- Every line is answered, but for a `continue` that does not stop within the fuel. -/
theorem answer?_isSome (last : s.last = lastSpelled? lines) : (s.answer? fuel line).isSome = true ↔
    (meant? lines line = some .resume → s.machine.status = .running →
      ∃ k ≤ fuel, FirstStop s.breakpoints s.machine k) := by
  cases meant : meant? lines line with
  | none =>
    obtain ⟨written, same⟩ := answer?_nothing fuel last meant
    simp [same]
  | some c =>
    by_cases exit : c = .exit
    · subst exit
      obtain ⟨written, ends⟩ := answer?_exit fuel last meant
      simp [ends]
    · obtain ⟨record, executes⟩ := answer?_command fuel last meant exit
      rw [executes, Option.isSome_map, execute?_isSome, Option.some.injEq]

/-! ## Prompts -/

/-- What a session has come to behind some lines. -/
structure Tracks (m : Machine) (labels : Labels) (lines : List String) (s : Session) : Prop where
  machine : ∃ k, s.machine = m.advance k
  names : s.labels = labels
  last : s.last = lastSpelled? lines
  distinct : s.breakpoints.Nodup
  breakpoints : ∀ a, a ∈ s.breakpoints ↔ Standing labels a lines

theorem not_standing_nil (a : Nat) : ¬ Standing labels a [] := by
  intro standing
  generalize none : ([] : List String) = lines at standing
  cases standing <;> simp at none

theorem tracks_start (m : Machine) (labels : Labels) : Tracks m labels [] (.start m labels) where
  machine := ⟨0, rfl⟩
  names := rfl
  last := rfl
  distinct := List.nodup_nil
  breakpoints a := by simp [Session.start, not_standing_nil]

/-- One line more. -/
theorem answer?_tracks (tracks : Tracks m labels lines s) (answered : s.answer? fuel line = some (outputs, some t)) :
    Tracks m labels (lines ++ [line]) t ∧ ∃ k, t.machine = s.machine.advance k ∧ LineMakes s lines line k := by
  obtain ⟨⟨i, there⟩, names, last, distinct, breakpoints⟩ := tracks
  rcases answer?_next last answered with ⟨nothing, same⟩ | ⟨-, ends⟩ | ⟨c, written, t', meant, same, done⟩
  · cases same
    refine ⟨⟨⟨i, there⟩, names, ?_, distinct, fun a => ?_⟩, 0, rfl, ?_⟩
    · rw [lastSpelled?_of_none nothing, last]
    · rw [standing_concat, breakpoints a]
      simp [nothing]
    · rw [LineMakes, nothing]
  · cases ends
  · cases same
    obtain ⟨names', last', distinct', breakpoints', k, moved, makes⟩ :=
      does_execute? (s := { s with last := some c }) distinct done
    refine ⟨⟨⟨i + k, ?_⟩, names'.trans names, ?_, distinct', fun a => ?_⟩, k, moved, ?_⟩
    · rw [← advance_advance, ← there]
      exact moved
    · rw [lastSpelled?_of_meant meant]
      exact last'
    · rw [standing_concat, ← breakpoints a, breakpoints' a]
      simp [meant, ← names]
    · rw [LineMakes, meant]
      exact makes

/-- Any number of lines more. -/
theorem prompt?_tracks {before : List String} (tracks : Tracks m labels before s)
    (prompt : s.prompt? fuel lines = some t) : Tracks m labels (before ++ lines) t := by
  induction lines generalizing s before with
  | nil =>
    cases prompt
    rw [List.append_nil]
    exact tracks
  | cons line lines ih =>
    simp only [prompt?, Option.bind_eq_bind, Option.bind_eq_some_iff] at prompt
    obtain ⟨⟨outputs, next⟩, answered, s', same, rest⟩ := prompt
    cases same
    have later := ih (answer?_tracks tracks answered).1 rest
    rw [List.append_assoc] at later
    exact later

/-- The session at a prompt is found line by line. -/
theorem prompt?_append (fuel : Nat) (s : Session) (lines others : List String) :
    s.prompt? fuel (lines ++ others) = (s.prompt? fuel lines).bind fun t => t.prompt? fuel others := by
  induction lines generalizing s with
  | nil => rfl
  | cons line lines ih =>
    simp only [List.cons_append, prompt?, Option.bind_eq_bind, Option.bind_assoc, ih]

theorem prompt?_concat (prompt : s.prompt? fuel (lines ++ [line]) = some t) : ∃ s' outputs,
    s.prompt? fuel lines = some s' ∧ s'.answer? fuel line = some (outputs, some t) := by
  rw [prompt?_append] at prompt
  obtain ⟨s', before, last⟩ := Option.bind_eq_some_iff.1 prompt
  simp only [prompt?, Option.bind_eq_bind, Option.bind_eq_some_iff] at last
  obtain ⟨⟨outputs, next⟩, answered, t', rfl, same⟩ := last
  cases same
  exact ⟨s', outputs, before, answered⟩

/-- The session at a prompt is the one that answers the lines behind it. -/
theorem answers?_append (prompt : s.prompt? fuel lines = some t) :
    ∃ outputs, ∀ rest, s.answers? fuel (lines ++ rest) = (t.answers? fuel rest).map (outputs ++ ·) := by
  induction lines generalizing s with
  | nil =>
    cases prompt
    exact ⟨[], fun rest => by simp⟩
  | cons line lines ih =>
    simp only [prompt?, Option.bind_eq_bind, Option.bind_eq_some_iff] at prompt
    obtain ⟨⟨written, next⟩, answered, s', same, rest⟩ := prompt
    cases same
    obtain ⟨more, later⟩ := ih rest
    refine ⟨written ++ more, fun rest => ?_⟩
    simp only [List.cons_append, answers?, answered, Option.bind_eq_bind, Option.bind_some, later rest]
    cases answers? fuel t rest <;> simp

/-! ## The end -/

theorem meant?_continue (lines : List String) : meant? lines "continue" = some .resume := by
  have named : meant? [] "continue" = some .resume := by decide +kernel
  exact named

/-- Where the machine stops within the fuel, `continue` comes back to a prompt, no further on. -/
theorem answer?_continue (tracks : Tracks m labels lines s) (running : s.machine.status = .running)
    (positive : 1 ≤ k) (within : k ≤ fuel) (stops : Stops s.breakpoints (s.machine.advance k)) :
    ∃ outputs t i, s.answer? fuel "continue" = some (outputs, some t) ∧ 1 ≤ i ∧ i ≤ k ∧
      t.machine = s.machine.advance i := by
  have meant := meant?_continue lines
  have answers : (s.answer? fuel "continue").isSome = true := by
    refine (answer?_isSome tracks.last).2 fun _ _ => ?_
    obtain ⟨i, before, stop⟩ := exists_firstStop positive stops
    exact ⟨i, before.trans within, stop⟩
  obtain ⟨⟨outputs, next⟩, answered⟩ := Option.isSome_iff_exists.1 answers
  obtain ⟨t, rfl⟩ : ∃ t, next = some t := by
    rcases answer?_next tracks.last answered with ⟨nothing, -⟩ | ⟨exits, -⟩ | ⟨c, written, t, -, same, -⟩
    · rw [meant] at nothing
      cases nothing
    · rw [meant] at exits
      cases exits
    · exact ⟨t, same⟩
  obtain ⟨i, moved, makes⟩ := (answer?_tracks tracks answered).2
  rw [LineMakes, meant] at makes
  have stop := makes.2 running
  refine ⟨outputs, t, i, answered, stop.positive, ?_, moved⟩
  by_contra further
  exact stop.first k positive (Nat.not_le.1 further) stops

/-- Lines that say `continue` lead to the end, if it is within the fuel. -/
theorem continue_to_end (tracks : Tracks m labels lines s) (within : k ≤ fuel)
    (ended : (s.machine.advance k).status ≠ .running) :
    ∃ j t, s.prompt? fuel (List.replicate j "continue") = some t ∧ t.machine = s.machine.advance k := by
  -- By induction on the steps that are left, of which each `continue` makes at least one.
  induction k using Nat.strongRecOn generalizing s lines with
  | ind k ih =>
    by_cases running : s.machine.status = .running
    · have positive : 1 ≤ k := by
        by_contra none
        obtain rfl : k = 0 := by omega
        exact ended running
      obtain ⟨outputs, t, i, answered, forth, before, moved⟩ :=
        answer?_continue tracks running positive within (.inl ended)
      have rest : t.machine.advance (k - i) = s.machine.advance k := by
        rw [moved, advance_advance, Nat.add_sub_cancel' before]
      rw [← rest] at ended ⊢
      obtain ⟨j, u, prompt, there⟩ :=
        ih (k - i) (by omega) (answer?_tracks tracks answered).1 (by omega) ended
      refine ⟨j + 1, u, ?_, there⟩
      simp only [List.replicate_succ, prompt?, answered, Option.bind_eq_bind, Option.bind_some, prompt]
    · exact ⟨0, s, rfl, (advance_ended k running).symm⟩

/-! ## Debuggers -/

/-- What a debugger does with its machine, as it shows at the prompt behind some lines. -/
structure Driven (m : Machine) (labels : Labels) (fuel : Nat) (lines : List String) (s : Session) : Prop where
  /-- What comes behind these lines is answered by this session. -/
  prompt : ∃ outputs, ∀ rest,
    (Session.start m labels).answers? fuel (lines ++ rest) = (s.answers? fuel rest).map (outputs ++ ·)
  /-- The machine is the one of the beginning, some steps on. -/
  machine : ∃ k, s.machine = m.advance k
  breakpoints : ∀ a, a ∈ s.breakpoints ↔ Standing labels a lines
  /-- The next line is answered, unless it is a `continue` that does not stop within the fuel. -/
  answered : ∀ units line, (s.answer? units line).isSome = true ↔ (meant? lines line = some .resume →
    s.machine.status = .running → ∃ k ≤ units, FirstStop s.breakpoints s.machine k)
  /-- Lines that stand for the same command are answered alike, an empty line and a full one. -/
  alike : ∀ units line other c, meant? lines line = some c → meant? lines other = some c →
    s.answer? units line = s.answer? units other
  /-- The session is over with `exit` alone. -/
  exits : ∀ units line, (∃ outputs, s.answer? units line = some (outputs, none)) ↔ meant? lines line = some .exit
  /-- How far the next line moves the machine. -/
  moves : ∀ units line outputs t, s.answer? units line = some (outputs, some t) →
    ∃ k, t.machine = s.machine.advance k ∧ LineMakes s lines line k
  /-- Once the machine has ended it stays as it is, and it is what its run leaves. -/
  ended : s.machine.status ≠ .running → (∃ units, m.run? units = some s.machine) ∧
    ∀ units line outputs t, s.answer? units line = some (outputs, some t) → t.machine = s.machine
  /-- If the machine runs to an end, the session can be continued to the same end. -/
  continues : ∀ units n, m.run? units = some n →
    ∃ j t, s.prompt? units (List.replicate j "continue") = some t ∧ t.machine = n

/-- Whatever lines a debugger is given, it only drives the machine. -/
theorem debugger_drives (m : Machine) (labels : Labels) (fuel : Nat)
    (prompt : (Session.start m labels).prompt? fuel lines = some s) : Driven m labels fuel lines s := by
  have tracks : Tracks m labels lines s := prompt?_tracks (tracks_start m labels) prompt
  obtain ⟨k, there⟩ := tracks.machine
  refine ⟨answers?_append prompt, ⟨k, there⟩, tracks.breakpoints, ?_, ?_, ?_, ?_, ?_, ?_⟩
  · exact fun units line => answer?_isSome tracks.last
  · intro units line other c meant same
    unfold answer?
    rw [(request_eq_command tracks.last).2 meant, (request_eq_command tracks.last).2 same]
  · intro units line
    constructor
    · rintro ⟨outputs, answered⟩
      rcases answer?_next tracks.last answered with ⟨-, same⟩ | ⟨meant, -⟩ | ⟨c, written, t, -, same, -⟩
      · cases same
      · exact meant
      · cases same
    · exact answer?_exit units tracks.last
  · exact fun units line outputs t answered => (answer?_tracks tracks answered).2
  · intro ended
    refine ⟨⟨k + 1, run?_eq_some.2 ⟨Nat.succ_pos k, ?_, ended⟩⟩, ?_⟩
    · rw [advance_step, ← there, step_ended ended]
    · intro units line outputs t answered
      obtain ⟨i, moved, -⟩ := (answer?_tracks tracks answered).2
      rw [moved, advance_ended i ended]
  · intro units n ran
    obtain ⟨-, arrives, ended⟩ := run?_eq_some.1 ran
    have reaches : s.machine.advance units = n := by
      rw [there, advance_advance, Nat.add_comm, ← advance_advance, arrives, advance_ended k ended]
    rw [← reaches] at ended ⊢
    exact continue_to_end tracks (Nat.le_refl units) ended

/-- With a breakpoint in the subroutine, the second of two `continue`s, which is an empty line, leads to the end. -/
theorem callOnce_driven :
    ∃ s, (Session.start (.start callOnce ⟨.shared, 0⟩) .empty).prompt? 9 ["break 5", "wrong", "c", ""] = some s ∧
      s.machine.halt? = some .stop ∧
      Driven (.start callOnce ⟨.shared, 0⟩) .empty 9 ["break 5", "wrong", "c", ""] s := by
  have reached : ((Session.start (.start callOnce ⟨.shared, 0⟩) .empty).prompt? 9 ["break 5", "wrong", "c", ""]).map
      (·.machine.halt?) = some (some .stop) := by decide +kernel
  obtain ⟨s, prompt, halted⟩ := Option.map_eq_some_iff.1 reached
  exact ⟨s, prompt, halted, debugger_drives _ _ _ prompt⟩

end Gosub.Sessions
