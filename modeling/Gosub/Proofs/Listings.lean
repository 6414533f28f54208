import Mathlib.Data.List.Sublists
import Mathlib.Data.List.Sort
import Mathlib.Data.Char
import Gosub.CommandLine.Execution
import Gosub.Proofs.Disassembly
import Gosub.Proofs.Printing
import Gosub.Proofs.Scan

/-!
# Destinations in a listing

A listing has a line for each instruction of the walk, and notes there which kinds of destination the address is. The
addresses that a kind is noted at are therefore all destinations of this kind, in their order, and those that are
printed when one asks for them (`listing_agrees`). All this is read off the text again, where no label is written so
that its line could pass for another.
-/

namespace Gosub.Listings

open Gosub.CommandLine
open Gosub.Walk Gosub.Encoding Gosub.Decoding Gosub.Grammar Gosub.Parsing Gosub.Disassembly Gosub.Scan

variable {code : Code} {labels : Labels} {policy : Policy} {destinations : Option Destinations} {d : Destinations}
  {kind : DestinationKind} {kinds : List DestinationKind} {i : Instruction} {address n : Nat} {name : String}

/-! ## Lines -/

/-- The instruction of a line, with its address. -/
def instruction? : ListingLine → Option (Nat × Instruction)
  | .label _ => none
  | .instruction address i _ => some (address, i)

/-- The address of a line that notes a kind. -/
def noted? (kind : DestinationKind) : ListingLine → Option Nat
  | .label _ => none
  | .instruction address _ kinds => if kind ∈ kinds then some address else none

theorem mem_kindsAt : kind ∈ d.kindsAt address ↔ d.isValid kind address = true := by
  have known : kind ∈ DestinationKind.all := by cases kind <;> decide
  simp [Destinations.kindsAt, known]

/-- The kinds of a line are some of all, in the same order. -/
theorem kindsOf_sublist (destinations : Option Destinations) (address : Nat) :
    (kindsOf destinations address).Sublist DestinationKind.all := by
  cases destinations with
  | none => exact List.nil_sublist _
  | some d => exact List.filter_sublist

theorem noted?_eq_some {a : Nat} :
    noted? kind (.instruction address i kinds) = some a ↔ a = address ∧ kind ∈ kinds := by
  by_cases noted : kind ∈ kinds <;> simp [noted?, noted, eq_comm]

theorem mem_block {row : List (Nat × Instruction)} {l : ListingLine} :
    l ∈ block labels destinations row ↔ ∃ p ∈ row, (∃ name ∈ labels.namesAt p.1, l = .label name) ∨
      l = .instruction p.1 p.2 (kindsOf destinations p.1) := by
  simp [block, eq_comm]

/-! ## Texts of lines -/

/-- The line of a label. -/
def labelLine (name : String) : List Char := name.toList ++ [':']

theorem toList_render_label (name : String) : (ListingLine.label name).render.toList = labelLine name := by
  simp [ListingLine.render, labelLine]

/-- What stands in front of the notes of a line. -/
def inBody (ch : Char) : Bool := Cursor.isNameChar ch || ch = ' '

/-- The notes of a line. -/
def noteText (kinds : List DestinationKind) : List Char :=
  if kinds.isEmpty then [] else (("; " : String) ++ ", ".intercalate (kinds.map DestinationKind.name)).toList

theorem isNameChar_of_isDigit {ch : Char} (digit : Numeral.isDigit 16 ch = true) : Cursor.isNameChar ch = true := by
  obtain ⟨d, small, writes⟩ := (isDigit_iff_digitOf le_rfl).1 digit
  have digits : ∀ d < 16, Cursor.isNameChar (Nat.digitChar d) = true ∧
      Cursor.isNameChar (Nat.digitChar d).toUpper = true := by
    decide
  rcases writes with rfl | rfl
  · exact (digits d small).1
  · exact (digits d small).2

/-- Zeros in front of a number change nothing. -/
theorem denotes_writePadded (width n : Nat) : Denotes 16 (Numeral.writePadded 16 width n) n := by
  obtain ⟨nonempty, digits, writes, below, value⟩ := denotes_write (by decide) (le_refl 16) n
  have zeros : List.Forall₂ Writes (List.replicate (width - (Numeral.write 16 n).length) '0')
      (List.replicate (width - (Numeral.write 16 n).length) 0) :=
    List.forall₂_iff_get.2 ⟨by simp, fun i _ _ => by simp [Writes]⟩
  refine ⟨by simpa [Numeral.writePadded, List.leftpad] using fun _ => nonempty, _, List.rel_append zeros writes, ?_, ?_⟩
  · intro d among
    rcases List.mem_append.1 among with zero | other
    · simp [List.eq_of_mem_replicate zero]
    · exact below d other
  · rw [List.reverse_append, List.reverse_replicate, Nat.ofDigits_append_replicate_zero]
    exact value

theorem body_of_names {text : List Char} (names : ∀ ch ∈ text, Cursor.isNameChar ch = true) :
    ∀ ch ∈ text, inBody ch = true := by
  intro ch among
  simp [inBody, names ch among]

theorem body_padded (width n : Nat) : ∀ ch ∈ Numeral.writePadded 16 width n, inBody ch = true :=
  body_of_names fun ch among => isNameChar_of_isDigit ((denotes_writePadded width n).digits le_rfl |>.2 ch among)

theorem body_invalid (b : UInt8) : ∀ ch ∈ (Instruction.invalid b).render.toList, inBody ch = true := by
  have text : (Instruction.invalid b).render.toList = "invalid 0x".toList ++ Numeral.writePadded 16 2 b.toNat := by
    simp [Instruction.render, Numeral.hexPadded]
  rw [text, List.forall_mem_append]
  exact ⟨List.all_eq_true.1 (by decide +kernel), body_padded 2 b.toNat⟩

/-- The text of an instruction has no semicolon and ends no line. -/
theorem body_render (encodable : Encodable i) : ∀ ch ∈ i.render.toList, inBody ch = true := by
  have mnemonic (o : Opcode) : ∀ ch ∈ o.mnemonic.toList, inBody ch = true :=
    body_of_names (ident_iff.1 (ident_mnemonic o)).2
  have form := form_encode encodable
  generalize i.encode = bytes at form
  cases form with
  | plain o noImmediate =>
    by_cases invalid : o = .invalid
    · subst invalid
      exact body_invalid _
    · rw [render_ofOpcode invalid noImmediate]
      exact mnemonic o
  | push k value _ =>
    have digits := (denotes_write (by decide) (le_refl 16) value.toNat).digits le_rfl
    rw [toList_render_push, toList_render]
    simp only [List.forall_mem_append, List.forall_mem_cons]
    exact ⟨⟨mnemonic _, by decide, List.forall_mem_nil _⟩, by decide, by decide,
      body_of_names fun ch among => isNameChar_of_isDigit (digits.2 ch among)⟩
  | unassigned b _ => exact body_invalid b

/-- The line of an instruction is its address, something without a semicolon, and its notes. -/
theorem toList_render_instruction (address : Nat) (kinds : List DestinationKind) (encodable : Encodable i) :
    ∃ body, (∀ ch ∈ body, inBody ch = true) ∧ (ListingLine.instruction address i kinds).render.toList =
      Numeral.writePadded 16 4 address ++ (' ' :: body ++ noteText kinds) := by
  have text := body_render encodable
  by_cases bare : kinds.isEmpty = true
  · refine ⟨[' ', ' ', ' '] ++ i.render.toList, List.forall_mem_append.2 ⟨by simp [inBody], text⟩, ?_⟩
    simp [ListingLine.render, noteText, bare, Numeral.hexPadded]
  · -- The text is filled up to the column of the notes.
    refine ⟨[' ', ' ', ' '] ++ i.render.toList ++
      List.replicate (24 - (Numeral.writePadded 16 4 address ++ "    ".toList ++ i.render.toList).length) ' ', ?_, ?_⟩
    · simp only [List.forall_mem_append]
      exact ⟨⟨by simp [inBody], text⟩, fun ch fill => by rw [List.eq_of_mem_replicate fill]; rfl⟩
    · simp [ListingLine.render, noteText, bare, Numeral.hexPadded, List.rightpad]

/-! ## Reading a text -/

/-- The address that a text begins with. -/
def address? (text : List Char) : Option Nat := Numeral.read? 16 (text.takeWhile (· ≠ ' '))

/-- The words behind the semicolon of a line. -/
def notes (line : List Char) : List (List Char) := (line.dropWhile (· ≠ ';')).splitOnP fun ch => !ch.isAlpha

/-- The address of a line that has a kind among its notes. -/
def notedIn? (kind : DestinationKind) (line : List Char) : Option Nat :=
  if kind.name.toList ∈ notes line then address? line else none

theorem noBlank_padded (width n : Nat) : ∀ ch ∈ Numeral.writePadded 16 width n, decide (ch ≠ ' ') = true := by
  intro ch among
  have digit := ((denotes_writePadded width n).digits le_rfl).2 ch among
  apply decide_eq_true
  rintro rfl
  exact absurd digit (by decide)

theorem address?_padded (width n : Nat) {rest : List Char} (ended : rest.takeWhile (· ≠ ' ') = []) :
    address? (Numeral.writePadded 16 width n ++ rest) = some n := by
  rw [address?, List.takeWhile_append_of_pos (noBlank_padded width n), ended, List.append_nil]
  exact (read?_eq_some le_rfl).2 (denotes_writePadded width n)

/-- The line of a label begins with no address, for its colon is no digit. -/
theorem address?_label (ident : Ident name.toList) : address? (labelLine name) = none := by
  have noBlank : ∀ ch ∈ name.toList, decide (ch ≠ ' ') = true := by
    intro ch among
    have char := (ident_iff.1 ident).2 ch among
    apply decide_eq_true
    rintro rfl
    exact absurd char (by decide)
  have whole : (labelLine name).takeWhile (· ≠ ' ') = labelLine name := by
    rw [labelLine, List.takeWhile_append_of_pos noBlank]
    rfl
  rw [address?, whole, Option.eq_none_iff_forall_ne_some]
  intro n read
  have digits := (((read?_eq_some le_rfl).1 read).digits le_rfl).2 ':' (by simp [labelLine])
  exact absurd digits (by decide)

theorem address?_instruction (address : Nat) (kinds : List DestinationKind) (encodable : Encodable i) :
    address? (ListingLine.instruction address i kinds).render.toList = some address := by
  obtain ⟨body, -, text⟩ := toList_render_instruction address kinds encodable
  rw [text]
  exact address?_padded 4 address rfl

theorem inLine_noteText (known : kinds.Sublist DestinationKind.all) : InLine (noteText kinds) := by
  have all : ∀ kinds ∈ DestinationKind.all.sublists,
      (noteText kinds).all (fun ch => inBody ch || ch = ';' || ch = ',') = true := by
    decide +kernel
  exact inLine_of_all (by decide) (by decide) (List.all_eq_true.1 (all kinds (List.mem_sublists.2 known)))

theorem mem_notes_noteText (known : kinds.Sublist DestinationKind.all) (kind : DestinationKind) :
    kind.name.toList ∈ notes (noteText kinds) ↔ kind ∈ kinds := by
  have all : ∀ kinds ∈ DestinationKind.all.sublists, ∀ kind ∈ DestinationKind.all,
      (kind.name.toList ∈ notes (noteText kinds) ↔ kind ∈ kinds) := by
    decide
  exact all kinds (List.mem_sublists.2 known) kind (by cases kind <;> decide)

theorem notes_instruction (address : Nat) (kinds : List DestinationKind) (encodable : Encodable i) :
    notes (ListingLine.instruction address i kinds).render.toList = notes (noteText kinds) := by
  obtain ⟨body, inside, text⟩ := toList_render_instruction address kinds encodable
  have passed {front : List Char} (chars : ∀ ch ∈ front, inBody ch = true) (rest : List Char) :
      (front ++ rest).dropWhile (· ≠ ';') = rest.dropWhile (· ≠ ';') := by
    refine List.dropWhile_append_of_pos fun ch among => decide_eq_true ?_
    rintro rfl
    exact absurd (chars _ among) (by decide)
  have blank : ∀ ch ∈ ' ' :: body, inBody ch = true := List.forall_mem_cons.2 ⟨by decide, inside⟩
  rw [notes, text, passed (body_padded 4 address), passed blank]
  rfl

theorem notedIn?_instruction (kind : DestinationKind) (address : Nat) (known : kinds.Sublist DestinationKind.all)
    (encodable : Encodable i) :
    notedIn? kind (ListingLine.instruction address i kinds).render.toList =
      noted? kind (.instruction address i kinds) := by
  simp only [notedIn?, noted?, notes_instruction address kinds encodable, mem_notes_noteText known,
    address?_instruction address kinds encodable]

theorem notedIn?_label (kind : DestinationKind) (ident : Ident name.toList) :
    notedIn? kind (labelLine name) = none := by
  simp [notedIn?, address?_label ident]

theorem inLine_label (ident : Ident name.toList) : InLine (labelLine name) :=
  inLine_append.2 ⟨inLine_ident ident, by simp [InLine]⟩

theorem inLine_instruction (address : Nat) (known : kinds.Sublist DestinationKind.all) (encodable : Encodable i) :
    InLine (ListingLine.instruction address i kinds).render.toList := by
  obtain ⟨body, inside, text⟩ := toList_render_instruction address kinds encodable
  have blank : ∀ ch ∈ ' ' :: body, inBody ch = true := List.forall_mem_cons.2 ⟨by decide, inside⟩
  have body {front : List Char} (chars : ∀ ch ∈ front, inBody ch = true) : InLine front :=
    inLine_of_all (by decide) (by decide) chars
  rw [text]
  exact inLine_append.2 ⟨body (body_padded 4 address), inLine_append.2 ⟨body blank, inLine_noteText known⟩⟩

theorem encodable_listed {p : Nat × Instruction} (listed : p ∈ code.instructions) : Encodable p.2 :=
  encodable_instructions code p.2 (List.mem_map_of_mem listed)

/-- The texts of the lines of some instructions. -/
def texts (labels : Labels) (destinations : Option Destinations) (row : List (Nat × Instruction)) : List (List Char) :=
  (block labels destinations row).map fun l => l.render.toList

/-- The lines of the text of a listing are those of its instructions, and behind the last an empty one begins. -/
theorem sourceLines_listing (idents : ∀ name ∈ labels.names, Ident name.toList) (code : Code)
    (destinations : Option Destinations) :
    sourceLines (renderListing (code.listing labels destinations)).toList =
      texts labels destinations code.instructions ++ [[]] := by
  have text : (renderListing (code.listing labels destinations)).toList =
      (texts labels destinations code.instructions).flatMap (· ++ ['\n']) := by
    simp [renderListing, texts, listing_eq, List.flatMap_map]
  rw [text]
  apply Printing.sourceLines_ended
  intro line among
  obtain ⟨l, member, rfl⟩ := List.mem_map.1 among
  obtain ⟨p, listed, ⟨name, named, rfl⟩ | rfl⟩ := mem_block.1 member
  · rw [toList_render_label]
    exact inLine_label (idents name (mem_names_of_namesAt named))
  · exact inLine_instruction p.1 (kindsOf_sublist destinations p.1) (encodable_listed listed)

/-- What is found in lines of text and in none of a label is found in the lines of the instructions. -/
theorem filterMap_texts {α : Type} {f : List Char → Option α}
    (unlabelled : ∀ name ∈ labels.names, f (labelLine name) = none) (destinations : Option Destinations)
    (row : List (Nat × Instruction)) :
    (texts labels destinations row).filterMap f = row.filterMap fun p =>
      f (ListingLine.instruction p.1 p.2 (kindsOf destinations p.1)).render.toList := by
  rw [texts, List.filterMap_map]
  exact filterMap_block (fun name named => by rw [Function.comp_apply, toList_render_label, unlabelled name named]) _ _

/-- The addresses in the lines of some instructions. -/
theorem addresses_texts (idents : ∀ name ∈ labels.names, Ident name.toList) (destinations : Option Destinations)
    {row : List (Nat × Instruction)} (encodable : ∀ p ∈ row, Encodable p.2) :
    (texts labels destinations row).filterMap address? = row.map (·.1) := by
  rw [filterMap_texts fun name named => address?_label (idents name named), ← List.filterMap_eq_map]
  exact List.filterMap_congr fun p among => address?_instruction p.1 _ (encodable p among)

theorem addresses_listing (idents : ∀ name ∈ labels.names, Ident name.toList) (code : Code)
    (destinations : Option Destinations) :
    (sourceLines (renderListing (code.listing labels destinations)).toList).filterMap address? =
      code.instructions.map (·.1) := by
  rw [sourceLines_listing idents, List.filterMap_append, addresses_texts idents destinations fun _ => encodable_listed]
  exact List.append_nil _

theorem notedIn_listing (idents : ∀ name ∈ labels.names, Ident name.toList) (code : Code)
    (destinations : Option Destinations) (kind : DestinationKind) :
    (sourceLines (renderListing (code.listing labels destinations)).toList).filterMap (notedIn? kind) =
      (code.listing labels destinations).filterMap (noted? kind) := by
  have empty : notedIn? kind [] = none := ite_self none
  rw [sourceLines_listing idents, List.filterMap_append, List.filterMap_cons_none empty, List.filterMap_nil,
    List.append_nil, filterMap_texts fun name named => notedIn?_label kind (idents name named), listing_eq,
    filterMap_block fun _ _ => rfl]
  exact List.filterMap_congr fun p listed =>
    notedIn?_instruction kind p.1 (kindsOf_sublist destinations p.1) (encodable_listed listed)

/-! ## Destinations -/

/-- The address of a printed destination of a kind. -/
def printed? (kind : DestinationKind) : Output → Option Nat
  | .text line =>
    (line.toList.dropPrefix? (kind.name.toList.rightpad 10 ' ' ++ [' ', '0', 'x'])).bind address?
  | .record _ => none

theorem instructions_listing (code : Code) (labels : Labels) (destinations : Option Destinations) :
    (code.listing labels destinations).filterMap instruction? = code.instructions := by
  rw [listing_eq, filterMap_block fun _ _ => rfl]
  exact List.filterMap_some

/-- Every destination is the address of an instruction, and so it is noted in the line of this instruction. -/
theorem noted_listing (code : Code) (labels : Labels) (policy : Policy) (kind : DestinationKind) :
    (code.listing labels (some (code.destinations policy))).filterMap (noted? kind) =
      (code.destinations policy).ofKind kind := by
  rw [listing_eq, filterMap_block fun _ _ => rfl]
  have increasing : (code.instructions.filterMap fun p =>
      noted? kind (.instruction p.1 p.2 (kindsOf (some (code.destinations policy)) p.1))).Pairwise (· < ·) := by
    refine (pairwise_instructionsFrom code 0).filterMap _ fun p q before a here b there => ?_
    rw [(noted?_eq_some.1 here).1, (noted?_eq_some.1 there).1]
    exact before
  refine increasing.eq_of_mem_iff (increasing_ofKind code policy kind) fun a => ?_
  rw [mem_ofKind, List.mem_filterMap]
  constructor
  · rintro ⟨p, -, found⟩
    obtain ⟨rfl, noted⟩ := noted?_eq_some.1 found
    exact mem_kindsAt.1 noted
  · intro valid
    exact ⟨_, (valid_iff.1 valid).1, noted?_eq_some.2 ⟨rfl, mem_kindsAt.2 valid⟩⟩

/-- The line of a destination is its kind in ten columns, a marker, its address and maybe names. -/
theorem toList_showDestination (kind : DestinationKind) (labels : Labels) (address : Nat) :
    ∃ line names, showDestination kind labels address = .text line ∧ names.takeWhile (· ≠ ' ') = [] ∧
      line.toList = kind.name.toList.rightpad 10 ' ' ++ [' ', '0', 'x'] ++
        (Numeral.writePadded 16 4 address ++ names) := by
  unfold showDestination
  cases labels.namesAt address with
  | nil => exact ⟨_, [], rfl, rfl, by simp [Numeral.hexPadded]⟩
  | cons name names =>
    exact ⟨_, ' ' :: ' ' :: (", ".intercalate (name :: names)).toList, rfl, rfl, by simp [Numeral.hexPadded]⟩

theorem printed?_showDestination (kind other : DestinationKind) (labels : Labels) (address : Nat) :
    printed? kind (showDestination other labels address) = if other = kind then some address else none := by
  obtain ⟨line, names, shown, ended, text⟩ := toList_showDestination other labels address
  rw [shown, printed?, text]
  by_cases same : other = kind
  · subst same
    rw [List.dropPrefix?_append_of_beq _ (beq_self_eq_true _), if_pos rfl]
    exact address?_padded 4 address ended
  · -- The names of the kinds differ in the first letter.
    rw [if_neg same]
    cases other <;> cases kind <;> first | exact absurd rfl same | rfl

theorem printed_showKind (kind other : DestinationKind) (code : Code) (labels : Labels) (policy : Policy) :
    (showKind policy ⟨code, labels⟩ other).filterMap (printed? kind) =
      if other = kind then (code.destinations policy).ofKind kind else [] := by
  have lines (offsets : List Nat) : (offsets.map (showDestination other labels)).filterMap (printed? kind) =
      if other = kind then offsets else [] := by
    rw [List.filterMap_map]
    simp only [Function.comp_def, printed?_showDestination]
    split <;> simp
  have heading (fields : List (String × String)) : printed? kind (.log .info "Destinations" fields) = none := rfl
  rw [showKind, List.filterMap_cons_none (heading _), lines]
  split
  · next same => rw [same]
  · rfl

/-- What a listing says of a code, and how it is found in its text and in what is printed of the destinations. -/
structure Agrees (code : Code) (labels : Labels) (policy : Policy) : Prop where
  instructions : (code.listing labels (some (code.destinations policy))).filterMap instruction? = code.instructions
  kinds : ∀ kind, (code.listing labels (some (code.destinations policy))).filterMap (noted? kind) =
    (code.destinations policy).ofKind kind
  increasing : ∀ kind, ((code.destinations policy).ofKind kind).Pairwise (· < ·)
  /-- The text of a line of an instruction says the same, whatever the labels are. -/
  rendered : ∀ l ∈ code.listing labels (some (code.destinations policy)), ∀ q, instruction? l = some q →
    address? l.render.toList = some q.1 ∧ ∀ kind, notedIn? kind l.render.toList = noted? kind l
  addresses : (∀ name ∈ labels.names, Ident name.toList) →
    (sourceLines (renderListing (code.listing labels (some (code.destinations policy)))).toList).filterMap address? =
      code.instructions.map (·.1)
  text : (∀ name ∈ labels.names, Ident name.toList) → ∀ kind,
    (sourceLines (renderListing (code.listing labels (some (code.destinations policy)))).toList).filterMap
      (notedIn? kind) = (code.destinations policy).ofKind kind
  printed : ∀ kind only, only = none ∨ only = some kind →
    (showDestinations policy only [] ⟨code, labels⟩).outputs.filterMap (printed? kind) =
      (code.destinations policy).ofKind kind

/-- Every code has a listing with one line for each instruction, where each kind of destination is noted at the
addresses that are printed when one asks for them, and nowhere else. -/
theorem listing_agrees (code : Code) (labels : Labels) (policy : Policy) : Agrees code labels policy where
  instructions := instructions_listing code labels _
  kinds := noted_listing code labels policy
  increasing := increasing_ofKind code policy
  rendered l member q instruction := by
    rw [listing_eq] at member
    obtain ⟨p, listed, ⟨name, -, rfl⟩ | rfl⟩ := mem_block.1 member
    · cases instruction
    · cases instruction
      have encodable := encodable_listed listed
      exact ⟨address?_instruction p.1 _ encodable,
        fun kind => notedIn?_instruction kind p.1 (kindsOf_sublist _ p.1) encodable⟩
  addresses idents := addresses_listing idents code _
  text idents kind := by
    rw [notedIn_listing idents, noted_listing]
  printed kind only asked := by
    rcases asked with rfl | rfl
    · cases kind <;> simp [showDestinations, Report.success, DestinationKind.all, printed_showKind]
    · simp [showDestinations, Report.success, printed_showKind]

/-- The byte of a mark inside the push is not listed, and the mark at the end is noted for both kinds. -/
example : renderListing (hiddenMark.listing .empty (some (hiddenMark.destinations .shared))) =
    "0000    push1 0x5b\n0002    jump\n0003    jumpdest        ; jump, subroutine\n" := by
  decide +kernel

end Gosub.Listings
