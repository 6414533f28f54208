import Mathlib.Data.List.Induction
import Gosub.Proofs.ControlFlow
import Gosub.Proofs.Listings
import Gosub.Proofs.Sessions

/-!
# Listings of a session

The `list` command shows the code part by part (`listings_contiguous`). At every prompt there is a rest of the walk over
the code that is still ahead: it begins at the next instruction, until something of it was listed, and then behind what
was listed last. A listing shows as much of it as it is asked for, if there is so much.
-/

namespace Gosub.Debugger.Session

/-- The instructions that listings have ahead. -/
def ahead (s : Session) : List (Nat × Instruction) := s.machine.code.instructionsFrom s.listStart

def instructionLine (s : Session) (p : Nat × Instruction) : Output :=
  info (s.gutter p.1 ++ " " ++ showAddress p.1 ++ "    " ++ p.2.render)

/-- Shows one instruction behind the other from an address on, so many of them, until the code ends. -/
def showFrom (s : Session) : Nat → Nat → List Output × Nat
  | 0, address => ([], address)
  | n + 1, address =>
    if s.machine.code.size ≤ address then ([info "End of code"], address)
    else
      let (outputs, behind) := s.showFrom n (address + (s.machine.code.fetch address).size)
      (s.showInstruction address ++ outputs, behind)

end Gosub.Debugger.Session

namespace Gosub.Paging

open Debugger Debugger.Session
open Gosub.Walk Gosub.Steps Gosub.ControlFlow Gosub.Driving Gosub.Sessions Gosub.Listings

variable {code : Code} {config : Configuration} {m : Machine} {labels : Labels} {s t : Session} {lines : List String}
  {line : String} {fuel n a : Nat} {c : Command} {outputs : List Output}

/-! ## Parts of the walk -/

/-- From an address on the walk or past its end, there is a rest of the walk. -/
theorem rest_of_onTrack (track : OnTrack code a) : code.instructionsFrom a <:+ code.instructions := by
  rcases track with outside | listed
  · rw [instructionsFrom_outside outside]
    exact List.nil_suffix
  · exact instructionsFrom_suffix listed

/-- The address behind some instructions that begin at an address. -/
def behind (a : Nat) (row : List (Nat × Instruction)) : Nat := (row.getLast?.map fun p => p.1 + p.2.size).getD a

theorem behind_cons (a : Nat) (p : Nat × Instruction) (row : List (Nat × Instruction)) :
    behind a (p :: row) = behind (p.1 + p.2.size) row := by
  rw [behind, behind, List.getLast?_cons]
  cases row.getLast? <;> rfl

/-- What is left of a walk begins behind what was taken of it. -/
theorem instructionsFrom_drop (code : Code) (a n : Nat) :
    (code.instructionsFrom a).drop n = code.instructionsFrom (behind a ((code.instructionsFrom a).take n)) := by
  induction n generalizing a with
  | zero => rfl
  | succ n ih =>
    by_cases inside : a < code.size
    · rw [instructionsFrom_inside inside, List.drop_succ_cons, List.take_succ_cons, behind_cons, ih]
    · rw [instructionsFrom_outside (Nat.not_lt.1 inside), List.drop_nil, List.take_nil]
      exact (instructionsFrom_outside (Nat.not_lt.1 inside)).symm

theorem onTrack_behind (track : OnTrack code a) (n : Nat) :
    OnTrack code (behind a ((code.instructionsFrom a).take n)) := by
  rw [behind]
  cases last : ((code.instructionsFrom a).take n).getLast? with
  | none => exact track
  | some p =>
    have taken : p ∈ code.instructionsFrom a := List.mem_of_mem_take (List.mem_of_getLast? last)
    have member := (rest_of_onTrack track).subset taken
    have next := onTrack_next (.inr (listed_of_mem member) : OnTrack code p.1)
    rw [← (mem_instructions member).2] at next
    exact next

/-! ## One listing -/

theorem listEnd_eq (s : Session) (n : Nat) : s.listEnd n = behind s.listStart (s.ahead.take n) := by
  unfold listEnd behind
  rw [listed, ← ahead]
  cases (s.ahead.take n).getLast? <;> rfl

/-- One turn after the other, a listing shows what is ahead of it. -/
theorem showFrom_eq (s : Session) (n a : Nat) : s.showFrom n a =
    (((s.machine.code.instructionsFrom a).take n).flatMap (fun p => s.showInstruction p.1) ++
      (if ((s.machine.code.instructionsFrom a).take n).length < n then [info "End of code"] else []),
    behind a ((s.machine.code.instructionsFrom a).take n)) := by
  induction n generalizing a with
  | zero => rfl
  | succ n ih =>
    rw [showFrom]
    by_cases inside : a < s.machine.code.size
    · rw [if_neg (Nat.not_le.2 inside), ih, instructionsFrom_inside inside, List.take_succ_cons, behind_cons]
      simp
    · rw [if_pos (Nat.not_lt.1 inside), instructionsFrom_outside (Nat.not_lt.1 inside), List.take_nil]
      simp [behind]

theorem showFrom_listStart (s : Session) (n : Nat) : s.showFrom n s.listStart = (s.showList n, s.listEnd n) := by
  rw [showFrom_eq, listEnd_eq, ← ahead, showList, listed, ← ahead]

/-- A listing comes to its end with the code, however much it is asked for. -/
theorem showFrom_ends (beyond : s.ahead.length < n) :
    s.showFrom n s.listStart = s.showFrom (s.ahead.length + 1) s.listStart := by
  rw [showFrom_eq, showFrom_eq, ← ahead, List.take_of_length_le (Nat.le_succ _), List.take_of_length_le beyond.le,
    if_pos beyond, if_pos (Nat.lt_succ_self _)]

/-- Behind a listing there is ahead what it has left. -/
theorem ahead_of_listed (code : t.machine.code = s.machine.code) (listed : t.listAt = some (s.listEnd n)) :
    t.ahead = s.ahead.drop n := by
  rw [ahead, listStart, listed, Option.getD_some, code, listEnd_eq, ahead, instructionsFrom_drop]

/-! ## Lines of instructions -/

/-- The address and the text of an instruction that is shown. -/
def shown? : Output → Option (Nat × String)
  | .record r => ((r.message.toList.drop 3).dropPrefix? ['0', 'x']).bind fun rest =>
    (address? rest).map fun a => (a, .ofList ((rest.dropWhile (· ≠ ' ')).drop 4))
  | .text _ => none

/-- The output is the line of an instruction. -/
def isShown (output : Output) : Bool := (shown? output).isSome

theorem length_gutter (s : Session) (a : Nat) : (s.gutter a).toList.length = 2 := by
  unfold gutter
  split <;> split <;> decide

theorem shown?_instructionLine (s : Session) (p : Nat × Instruction) :
    shown? (s.instructionLine p) = some (p.1, p.2.render) := by
  have text : (s.gutter p.1 ++ " " ++ showAddress p.1 ++ "    " ++ p.2.render).toList =
      ((s.gutter p.1).toList ++ [' ']) ++ (['0', 'x'] ++
        (Numeral.writePadded 16 4 p.1 ++ (' ' :: ' ' :: ' ' :: ' ' :: p.2.render.toList))) := by
    simp [showAddress, Numeral.hexPadded]
  have front : ((s.gutter p.1).toList ++ [' ']).length = 3 := by
    rw [List.length_append, length_gutter]
    rfl
  rw [instructionLine, info, Output.log, shown?, Record.of, text, List.drop_left' front,
    List.dropPrefix?_append_of_beq _ (beq_self_eq_true _), Option.bind_some, address?_padded 4 p.1 rfl,
    List.dropWhile_append_of_pos (noBlank_padded 4 p.1)]
  simp

theorem shown?_label (name : String) : shown? (info ("          " ++ name ++ ":")) = none := by
  simp [info, Output.log, shown?, Record.of, List.dropPrefix?]

theorem shown?_command (c : Command) : shown? (.log .debug ("Executing command: " ++ c.render) []) = none := by
  simp [Output.log, shown?, Record.of, List.dropPrefix?]

/-- A listing shows the lines of instructions that are ahead, as many as it is asked for. -/
theorem filter_showFrom (s : Session) (n : Nat) :
    (s.showFrom n s.listStart).1.filter isShown = (s.ahead.take n).map s.instructionLine := by
  have line (p : Nat × Instruction) : isShown (s.instructionLine p) = true := by
    rw [isShown, shown?_instructionLine]
    rfl
  have block (p : Nat × Instruction) (member : p ∈ s.ahead) :
      (s.showInstruction p.1).filter isShown = [s.instructionLine p] := by
    have fetched := (mem_instructionsFrom member).2.2
    have labels : ((s.labels.namesAt p.1).map fun name => info ("          " ++ name ++ ":")).filter isShown = [] := by
      rw [List.filter_map, List.filter_eq_nil_iff.2, List.map_nil]
      intro name _
      rw [Function.comp_apply, isShown, shown?_label]
      decide
    rw [showInstruction, List.filter_append, labels, ← fetched, List.nil_append]
    exact List.filter_cons_of_pos (line p)
  have last : (if (s.ahead.take n).length < n then [info "End of code"] else []).filter isShown = [] := by
    split <;> rfl
  rw [showFrom_eq, ← ahead, List.filter_append, last, List.append_nil, List.filter_flatMap,
    List.flatMap_congr fun p taken => block p (List.mem_of_mem_take taken)]
  exact (List.map_eq_flatMap ..).symm

theorem filterMap_isShown (outputs : List Output) :
    (outputs.filter isShown).filterMap shown? = outputs.filterMap shown? := by
  rw [List.filterMap_filter]
  refine List.filterMap_congr fun output _ => ?_
  unfold isShown
  cases shown? output <;> rfl

theorem filterMap_showFrom (s : Session) (n : Nat) :
    (s.showFrom n s.listStart).1.filterMap shown? = (s.ahead.take n).map fun p => (p.1, p.2.render) := by
  have read : shown? ∘ s.instructionLine = some ∘ fun p => (p.1, p.2.render) := by
    funext p
    rw [Function.comp_apply, shown?_instructionLine]
    rfl
  rw [← filterMap_isShown, filter_showFrom, List.filterMap_map, read, List.filterMap_eq_map]

/-! ## Turns of a session -/

/-- What a line that stands for a command, or for none, does to the place where the next listing begins. -/
inductive Turn (s : Session) (c? : Option Command) (t : Session) : Prop
  | lists {n : Nat} : c? = some (.list n) → t.machine = s.machine → t.listAt = some (s.listEnd n) → Turn s c? t
  | moves : s.machine.status = .running → (c? = some .resume ∨ ∃ n, c? = some (.step n)) → t.listAt = none →
      Turn s c? t
  | stays : (s.machine.status = .running → c? ≠ some .resume ∧ ∀ n, c? ≠ some (.step n)) →
      (∀ n, c? ≠ some (.list n)) → t.machine = s.machine → t.listAt = s.listAt → Turn s c? t

theorem turn_moving {f : Session → Option (List Output × Session)} (going : c = .resume ∨ ∃ n, c = .step n)
    (moves : ∀ outputs t, s.machine.status = .running → f { s with listAt := none } = some (outputs, t) →
      t.listAt = none) (done : s.moving f = some (outputs, t)) : Turn s (some c) t := by
  unfold moving at done
  split at done
  · next ended =>
    cases done
    refine .stays (fun running => absurd running (hasEnded_iff.1 ended)) ?_ rfl rfl
    rintro n listing
    rcases going with rfl | ⟨k, rfl⟩ <;> cases listing
  · next running =>
    rw [hasEnded_iff, not_not] at running
    refine .moves running ?_ (moves outputs t running done)
    rcases going with rfl | ⟨n, rfl⟩
    · exact .inl rfl
    · exact .inr ⟨n, rfl⟩

/-- An answer that depends on an address leaves what all answers to addresses leave. -/
theorem withAddress_keeps {address : Except LocationError Nat} {f : Nat → List Output × Session}
    (keeps : ∀ a, (f a).2.machine = s.machine ∧ (f a).2.listAt = s.listAt) :
    (s.withAddress address f).2.machine = s.machine ∧ (s.withAddress address f).2.listAt = s.listAt := by
  cases address with
  | ok a => exact keeps a
  | error e => exact ⟨rfl, rfl⟩

theorem addBreakpoint_keeps (s : Session) (a : Nat) :
    (s.addBreakpoint a).2.machine = s.machine ∧ (s.addBreakpoint a).2.listAt = s.listAt := by
  unfold addBreakpoint
  split <;> exact ⟨rfl, rfl⟩

theorem removeBreakpoint_keeps (s : Session) (a : Nat) :
    (s.removeBreakpoint a).2.machine = s.machine ∧ (s.removeBreakpoint a).2.listAt = s.listAt := by
  unfold removeBreakpoint
  split <;> exact ⟨rfl, rfl⟩

theorem turn_execute? (done : s.execute? fuel c = some (outputs, t)) : Turn s (some c) t := by
  have showing {c : Command} {t : Session} (still : ∀ n, c ≠ .step n ∧ c ≠ .list n ∧ c ≠ .resume)
      (kept : t.machine = s.machine ∧ t.listAt = s.listAt) : Turn s (some c) t :=
    .stays (fun _ => ⟨by simpa using (still 0).2.2, fun n => by simpa using (still n).1⟩)
      (fun n => by simpa using (still n).2.1) kept.1 kept.2
  cases c with
  | step n =>
    simp only [execute?] at done
    refine turn_moving (.inr ⟨n, rfl⟩) ?_ done
    intro written t running moved
    obtain ⟨k, same, -⟩ := stepMany_session (s := { s with listAt := none }) n running
    obtain rfl : _ = t := congrArg Prod.snd (Option.some.inj moved)
    exact congrArg Session.listAt same
  | resume =>
    simp only [execute?] at done
    refine turn_moving (.inl rfl) ?_ done
    intro written t running moved
    obtain ⟨k, -, -, rfl⟩ := resume?_session moved
    rfl
  | list n =>
    cases done
    exact .lists rfl rfl rfl
  | setBreak location =>
    obtain rfl := congrArg Prod.snd (Option.some.inj done)
    exact showing (by simp) (withAddress_keeps (addBreakpoint_keeps s))
  | unsetBreak location =>
    obtain rfl := congrArg Prod.snd (Option.some.inj done)
    exact showing (by simp) (withAddress_keeps (removeBreakpoint_keeps s))
  | memory offset n =>
    obtain rfl := congrArg Prod.snd (Option.some.inj done)
    exact showing (by simp) (withAddress_keeps fun _ => ⟨rfl, rfl⟩)
  | info topic =>
    cases topic <;> cases done <;> exact showing (by simp) ⟨rfl, rfl⟩
  | exit | stack | returns =>
    cases done
    exact showing (by simp) ⟨rfl, rfl⟩

theorem turn_answer? (last : s.last = lastSpelled? lines) (answered : s.answer? fuel line = some (outputs, some t)) :
    Turn s (meant? lines line) t := by
  rcases answer?_next last answered with ⟨nothing, same⟩ | ⟨-, ends⟩ | ⟨c, written, t', meant, same, done⟩
  · cases same
    rw [nothing]
    exact .stays (by simp) (by simp) rfl rfl
  · cases ends
  · cases same
    rw [meant]
    cases turn_execute? done with
    | lists listing machine listAt => exact .lists listing machine listAt
    | moves running going listAt => exact .moves running going listAt
    | stays still notListing machine listAt => exact .stays still notListing machine listAt

/-! ## What was listed before -/

section History

variable (m : Machine) (labels : Labels) (fuel : Nat)

/-- Behind some lines, a line tells a machine to go on that has not ended. -/
def Moved (lines : List String) (line : String) : Prop :=
  ∃ s, (Session.start m labels).prompt? fuel lines = some s ∧ s.machine.status = .running ∧
    (meant? lines line = some .resume ∨ ∃ n, meant? lines line = some (.step n))

/-- There was no `list` since the beginning, or since the machine was last told to go on. -/
inductive Unlisted : List String → Prop
  | start : Unlisted []
  | moved {lines : List String} {line : String} : Moved m labels fuel lines line → Unlisted (lines ++ [line])
  | kept {lines : List String} {line : String} : Unlisted lines → (∀ n, meant? lines line ≠ some (.list n)) →
      Unlisted (lines ++ [line])

/-- Among some lines, the last `list` came behind certain lines and was for so many instructions, and the machine was
not told to go on since. -/
inductive LastListed : List String → List String → Nat → Prop
  | here {lines : List String} {line : String} {n : Nat} : meant? lines line = some (.list n) →
      LastListed (lines ++ [line]) lines n
  | kept {lines earlier : List String} {line : String} {n : Nat} : LastListed lines earlier n →
      ¬ Moved m labels fuel lines line → (∀ k, meant? lines line ≠ some (.list k)) →
      LastListed (lines ++ [line]) earlier n

end History

theorem unlisted_concat : Unlisted m labels fuel (lines ++ [line]) ↔ Moved m labels fuel lines line ∨
    (Unlisted m labels fuel lines ∧ ∀ n, meant? lines line ≠ some (.list n)) := by
  constructor
  · intro unlisted
    generalize whole : lines ++ [line] = all at unlisted
    cases unlisted with
    | start => simp at whole
    | moved moved =>
      obtain ⟨rfl, rfl⟩ := List.append_singleton_inj.1 whole
      exact .inl moved
    | kept before others =>
      obtain ⟨rfl, rfl⟩ := List.append_singleton_inj.1 whole
      exact .inr ⟨before, others⟩
  · rintro (moved | ⟨before, others⟩)
    · exact .moved moved
    · exact .kept before others

theorem lastListed_concat {earlier : List String} : LastListed m labels fuel (lines ++ [line]) earlier n ↔
    (earlier = lines ∧ meant? lines line = some (.list n)) ∨ (LastListed m labels fuel lines earlier n ∧
      ¬ Moved m labels fuel lines line ∧ ∀ k, meant? lines line ≠ some (.list k)) := by
  constructor
  · intro listed
    generalize whole : lines ++ [line] = all at listed
    cases listed with
    | here meant =>
      obtain ⟨rfl, rfl⟩ := List.append_singleton_inj.1 whole
      exact .inl ⟨rfl, meant⟩
    | kept before still others =>
      obtain ⟨rfl, rfl⟩ := List.append_singleton_inj.1 whole
      exact .inr ⟨before, still, others⟩
  · rintro (⟨rfl, meant⟩ | ⟨before, still, others⟩)
    · exact .here meant
    · exact .kept before still others

theorem not_lastListed_nil (earlier : List String) (n : Nat) : ¬ LastListed m labels fuel [] earlier n := by
  intro listed
  generalize none : ([] : List String) = lines at listed
  cases listed <;> simp at none

/-- The place where the next listing begins, as the lines tell it. -/
structure Placed (m : Machine) (labels : Labels) (fuel : Nat) (lines : List String) (s : Session) : Prop where
  begun : Unlisted m labels fuel lines ∨ ∃ earlier n, LastListed m labels fuel lines earlier n
  unlisted : Unlisted m labels fuel lines → s.listAt = none
  listed : ∀ earlier n, LastListed m labels fuel lines earlier n →
    ∃ s₀, (Session.start m labels).prompt? fuel earlier = some s₀ ∧ s.listAt = some (s₀.listEnd n)

theorem placed_of_prompt? (prompt : (Session.start m labels).prompt? fuel lines = some s) :
    Placed m labels fuel lines s := by
  induction lines using List.reverseRecOn generalizing s with
  | nil =>
    cases prompt
    exact ⟨.inl .start, fun _ => rfl, fun earlier n listed => absurd listed (not_lastListed_nil earlier n)⟩
  | append_singleton lines line ih =>
    obtain ⟨s', outputs, before, answered⟩ := prompt?_concat prompt
    obtain ⟨begun, unlisted, listed⟩ := ih before
    have tracks : Tracks m labels lines s' := prompt?_tracks (tracks_start m labels) before
    cases turn_answer? tracks.last answered with
    | @lists n meant machine listAt =>
      have still : ¬ Moved m labels fuel lines line := by
        rintro ⟨_, _, _, going | ⟨k, going⟩⟩ <;> rw [meant] at going <;> cases going
      refine ⟨.inr ⟨lines, n, .here meant⟩, fun none => ?_, fun earlier k last => ?_⟩
      · rcases unlisted_concat.1 none with moved | ⟨-, others⟩
        · exact absurd moved still
        · exact absurd meant (others n)
      · rcases lastListed_concat.1 last with ⟨rfl, same⟩ | ⟨-, -, others⟩
        · rw [meant] at same
          cases same
          exact ⟨s', before, listAt⟩
        · exact absurd meant (others n)
    | moves running going listAt =>
      have moved : Moved m labels fuel lines line := ⟨s', before, running, going⟩
      refine ⟨.inl (.moved moved), fun _ => listAt, fun earlier k last => ?_⟩
      rcases lastListed_concat.1 last with ⟨-, meant⟩ | ⟨-, still, -⟩
      · rcases going with going | ⟨n, going⟩ <;> rw [meant] at going <;> cases going
      · exact absurd moved still
    | stays waits others machine listAt =>
      have still : ¬ Moved m labels fuel lines line := by
        rintro ⟨s₁, same, running, going⟩
        rw [before] at same
        cases same
        obtain ⟨noResume, noStep⟩ := waits running
        rcases going with going | ⟨n, going⟩
        · exact noResume going
        · exact noStep n going
      refine ⟨begun.imp (fun none => .kept none others) ?_, fun none => ?_, fun earlier k last => ?_⟩
      · rintro ⟨earlier, n, last⟩
        exact ⟨earlier, n, .kept last still others⟩
      · rw [listAt]
        rcases unlisted_concat.1 none with moved | ⟨none, -⟩
        · exact absurd moved still
        · exact unlisted none
      · rw [listAt]
        rcases lastListed_concat.1 last with ⟨-, meant⟩ | ⟨last, -, -⟩
        · exact absurd meant (others k)
        · exact listed earlier k last

/-! ## Where listings are -/

theorem onTrack_pc (reachable : Reachable code config m)
    (prompt : (Session.start m labels).prompt? fuel lines = some s) :
    s.machine.code = code ∧ OnTrack code s.machine.pc := by
  obtain ⟨k, there⟩ := (prompt?_tracks (tracks_start m labels) prompt).machine
  obtain ⟨rfl, sound⟩ := reachable_sound (reachable.advance k)
  rw [there]
  exact ⟨rfl, sound.pc⟩

/-- The next listing begins on the walk over the code, or past its end. -/
theorem onTrack_listStart (reachable : Reachable code config m)
    (prompt : (Session.start m labels).prompt? fuel lines = some s) : OnTrack code s.listStart := by
  have ⟨same, here⟩ := onTrack_pc reachable prompt
  induction lines using List.reverseRecOn generalizing s with
  | nil =>
    cases prompt
    exact here
  | append_singleton lines line ih =>
    obtain ⟨s', outputs, before, answered⟩ := prompt?_concat prompt
    have tracks : Tracks m labels lines s' := prompt?_tracks (tracks_start m labels) before
    have ⟨same', here'⟩ := onTrack_pc reachable before
    have track := ih before same' here'
    rw [listStart]
    cases turn_answer? tracks.last answered with
    | @lists n _ _ listAt =>
      rw [listAt, Option.getD_some, listEnd_eq, ahead, same']
      exact onTrack_behind track n
    | moves _ _ listAt =>
      rw [listAt]
      exact here
    | stays _ _ machine listAt =>
      rw [listAt, machine]
      exact track

/-- What is ahead is a rest of the walk. -/
theorem ahead_suffix (reachable : Reachable code config m)
    (prompt : (Session.start m labels).prompt? fuel lines = some s) : s.ahead <:+ code.instructions := by
  have rest := rest_of_onTrack (onTrack_listStart reachable prompt)
  rw [← (onTrack_pc reachable prompt).1] at rest ⊢
  exact rest

/-! ## Listings one after the other -/

/-- Behind certain lines, none of some others says `list`, `step` or `continue`. -/
def Idle (before : List String) : List String → Prop
  | [] => True
  | line :: others =>
    (∀ c, meant? before line = some c → c ≠ .resume ∧ ∀ n, c ≠ .step n ∧ c ≠ .list n) ∧ Idle (before ++ [line]) others

theorem idle_prompt? {before : List String} (tracks : Tracks m labels before s) (idle : Idle before lines)
    (prompt : s.prompt? fuel lines = some t) : t.machine = s.machine ∧ t.listAt = s.listAt := by
  induction lines generalizing s before with
  | nil =>
    cases prompt
    exact ⟨rfl, rfl⟩
  | cons line lines ih =>
    simp only [prompt?, Option.bind_eq_bind, Option.bind_eq_some_iff] at prompt
    obtain ⟨⟨outputs, next⟩, answered, s', same, rest⟩ := prompt
    cases same
    obtain ⟨here, later⟩ := idle
    obtain ⟨machine, listAt⟩ := ih (answer?_tracks tracks answered).1 later rest
    rw [machine, listAt]
    cases turn_answer? tracks.last answered with
    | lists meant => exact absurd rfl ((here _ meant).2 _).2
    | moves _ going =>
      rcases going with meant | ⟨n, meant⟩
      · exact absurd rfl (here _ meant).1
      · exact absurd rfl ((here _ meant).2 n).1
    | stays _ _ machine listAt => exact ⟨machine, listAt⟩

/-- A line for a listing is answered at once, by a record of the command and the listing. -/
theorem answer?_list (last : s.last = lastSpelled? lines) (meant : meant? lines line = some (.list n)) :
    s.answer? fuel line = some (.log .debug ("Executing command: " ++ (Command.list n).render) [] ::
      (s.showFrom n s.listStart).1, some { s with last := some (.list n), listAt := some (s.listEnd n) }) := by
  unfold answer?
  rw [(request_eq_command last).2 meant, showFrom_listStart]
  rfl

theorem filter_answer (record : Output) (hidden : shown? record = none) (outputs : List Output) :
    (record :: outputs).filter isShown = outputs.filter isShown := by
  rw [List.filter_cons_of_neg]
  simp [isShown, hidden]

/-- A line says `list` for so many instructions, behind other lines, and this is the answer. -/
def Lists (fuel : Nat) (lines : List String) (s : Session) (line : String) (n : Nat) (outputs : List Output)
    (t : Session) : Prop :=
  meant? lines line = some (.list n) ∧ s.answer? fuel line = some (outputs, some t)

/-- What two listings show together is what one listing shows. -/
structure Joined (s s' : Session) (whole first second : List Output) : Prop where
  instructions : whole.filterMap shown? = first.filterMap shown? ++ second.filterMap shown?
  /-- The very lines are the same, if both sessions have the same breakpoints. -/
  lines : (∀ a, a ∈ s'.breakpoints ↔ a ∈ s.breakpoints) →
    whole.filter isShown = first.filter isShown ++ second.filter isShown

theorem instructionLine_eq {s' : Session} (machine : s'.machine = s.machine)
    (breakpoints : ∀ a, a ∈ s'.breakpoints ↔ a ∈ s.breakpoints) : s'.instructionLine = s.instructionLine := by
  funext p
  have known : s'.breakpoints.contains p.1 = s.breakpoints.contains p.1 :=
    Bool.eq_iff_iff.2 (by simpa using breakpoints p.1)
  rw [instructionLine, instructionLine, gutter, gutter, known, machine]

theorem joined_of_lists {one two both : String} {between : List String} {j k : Nat} {s₁ s₂ t' : Session}
    {whole first second : List Output} (tracks : Tracks m labels lines s) (listed : Lists fuel lines s one j first s₁)
    (idle : Idle (lines ++ [one]) between) (later : s₁.prompt? fuel between = some s₂)
    (listed' : Lists fuel (lines ++ one :: between) s₂ two k second t)
    (together : Lists fuel lines s both (j + k) whole t') : Joined s s₂ whole first second := by
  have tracks₁ := (answer?_tracks tracks listed.2).1
  have tracks₂ := prompt?_tracks tracks₁ later
  rw [List.append_assoc, List.singleton_append] at tracks₂
  have ⟨still, kept⟩ := idle_prompt? tracks₁ idle later
  obtain ⟨meant, answered⟩ := listed
  obtain ⟨meant', answered'⟩ := listed'
  obtain ⟨meantBoth, answeredBoth⟩ := together
  rw [answer?_list tracks.last meant] at answered
  rw [answer?_list tracks₂.last meant'] at answered'
  rw [answer?_list tracks.last meantBoth] at answeredBoth
  cases answered
  cases answered'
  cases answeredBoth
  have machine : s₂.machine = s.machine := still
  have rest : s₂.ahead = s.ahead.drop j := ahead_of_listed (congrArg Machine.code machine) kept
  constructor
  · simp only [List.filterMap_cons_none (shown?_command _), filterMap_showFrom, rest, List.take_add, List.map_append]
  · intro breakpoints
    simp only [filter_answer _ (shown?_command _), filter_showFrom, rest, List.take_add, List.map_append,
      instructionLine_eq machine breakpoints]

/-- As long as nothing was listed, listings begin at the next instruction. -/
theorem ahead_fresh (listAt : s.listAt = none) :
    (s.machine.pc < s.machine.code.size → s.ahead.head? = some (s.machine.pc, s.machine.next)) ∧
      (s.machine.code.size ≤ s.machine.pc → s.ahead = []) := by
  rw [ahead, listStart, listAt, Option.getD_none]
  constructor
  · intro inside
    rw [instructionsFrom_inside inside]
    rfl
  · exact instructionsFrom_outside

/-- What a session shows of a code at the prompt behind some lines. -/
structure Browses (code : Code) (m : Machine) (labels : Labels) (fuel : Nat) (lines : List String) (s : Session) :
    Prop where
  segment : s.ahead <:+ code.instructions
  begun : Unlisted m labels fuel lines ∨ ∃ earlier n, LastListed m labels fuel lines earlier n
  fresh : Unlisted m labels fuel lines →
    (s.machine.pc < code.size → s.ahead.head? = some (s.machine.pc, s.machine.next)) ∧
      (code.size ≤ s.machine.pc → s.ahead = [])
  goesOn : ∀ earlier n, LastListed m labels fuel lines earlier n →
    ∃ s₀, (Session.start m labels).prompt? fuel earlier = some s₀ ∧ s.ahead = s₀.ahead.drop n
  shown : ∀ units line n, meant? lines line = some (.list n) → ∃ record t,
    s.answer? units line = some (record :: (s.showFrom n s.listStart).1, some t) ∧
      (record :: (s.showFrom n s.listStart).1).filterMap shown? = (s.ahead.take n).map fun p => (p.1, p.2.render)
  /-- No more turns are taken than there are instructions ahead, and one for the end. -/
  ends : ∀ n, s.ahead.length < n → s.showFrom n s.listStart = s.showFrom (s.ahead.length + 1) s.listStart
  joins : ∀ one two both between j k whole first second s₁ s₂ t t', Lists fuel lines s one j first s₁ →
    Idle (lines ++ [one]) between → s₁.prompt? fuel between = some s₂ →
    Lists fuel (lines ++ one :: between) s₂ two k second t → Lists fuel lines s both (j + k) whole t' →
    Joined s s₂ whole first second

/-- In every session of a debugger, listings show the walk over the code part by part, without a gap: from the next
instruction on, until there was a listing since the machine was last told to go on, and from then on behind what was
listed last. -/
theorem listings_contiguous (reachable : Reachable code config m)
    (prompt : (Session.start m labels).prompt? fuel lines = some s) : Browses code m labels fuel lines s := by
  have tracks : Tracks m labels lines s := prompt?_tracks (tracks_start m labels) prompt
  have placed := placed_of_prompt? prompt
  have same := (onTrack_pc reachable prompt).1
  refine ⟨ahead_suffix reachable prompt, placed.begun, ?_, ?_, ?_, fun _ => showFrom_ends, ?_⟩
  · intro none
    rw [← same]
    exact ahead_fresh (placed.unlisted none)
  · intro earlier n last
    obtain ⟨s₀, before, listAt⟩ := placed.listed earlier n last
    exact ⟨s₀, before, ahead_of_listed (same.trans (onTrack_pc reachable before).1.symm) listAt⟩
  · intro units line n meant
    refine ⟨_, _, answer?_list tracks.last meant, ?_⟩
    rw [List.filterMap_cons_none (shown?_command _), filterMap_showFrom]
  · intro one two both between j k whole first second s₁ s₂ t t' listed idle later listed' together
    exact joined_of_lists tracks listed idle later listed' together

/-- One step on, the call at 2 was listed, and the next listing begins behind it. -/
theorem callOnce_browsed : ∃ s, Reachable callOnce ⟨.shared, 0⟩ (.start callOnce ⟨.shared, 0⟩) ∧
    (Session.start (.start callOnce ⟨.shared, 0⟩) .empty).prompt? 9 ["step", "list 1", "break 5"] = some s ∧
    s.ahead.map (·.1) = [3, 4, 5, 6] ∧
    Browses callOnce (.start callOnce ⟨.shared, 0⟩) .empty 9 ["step", "list 1", "break 5"] s := by
  have reached : ((Session.start (.start callOnce ⟨.shared, 0⟩) .empty).prompt? 9 ["step", "list 1", "break 5"]).map
      (fun s => s.ahead.map (·.1)) = some [3, 4, 5, 6] := by decide +kernel
  obtain ⟨s, prompt, rest⟩ := Option.map_eq_some_iff.1 reached
  exact ⟨s, .start, prompt, rest, listings_contiguous .start prompt⟩

end Gosub.Paging
