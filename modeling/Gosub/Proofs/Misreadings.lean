import Gosub.Proofs.Parsing
import Gosub.Proofs.Parsing.Offsets
import Mathlib.Data.List.Forall2

/-!
# What keeps a source from being read

The error of a source is in its first line that has not the form of one. What is in front of the error is accepted by
itself, and then so is the source up to there, unless it ends with the marker of a hexadecimal number: the digits that
have to follow are missing (`error_pointed`).
-/

namespace Gosub.Misreadings

open Gosub.Grammar Gosub.Parsing

variable {c d : Cursor} {tree : ErrorTree}

/-! ## Parts of a line -/

theorem literalOf_broken {text : List Char} (broken : c.literalOf text .broken = .broken tree) :
    tree.offset? = some c.offset := by
  unfold Cursor.literalOf at broken
  split at broken
  · cases broken
  · cases broken
    rfl

/-- What begins as a decimal number may be something else. -/
theorem decimalLiteral_not_broken (c : Cursor) : c.decimalLiteral ≠ .broken tree := by
  unfold Cursor.decimalLiteral
  split
  · nofun
  · unfold Cursor.literalOf
    split
    · nofun
    · nofun

/-- A hexadecimal number is refused as a whole, or behind its marker. -/
theorem literal_broken (broken : c.literal = .broken tree) : tree.offset? = some c.offset ∨
    ∃ x rest, c.rest = '0' :: x :: rest ∧ (x = 'x' ∨ x = 'X') ∧ Stops (Numeral.isDigit 16) rest ∧
      tree.offset? = some (c.offset + Text.byteLength ['0', x]) := by
  unfold Cursor.literal at broken
  split at broken
  · next x rest text =>
    split_ifs at broken with marker
    · unfold Cursor.hexLiteral at broken
      split at broken
      · next none =>
        cases broken
        exact .inr ⟨x, rest, text, marker, stops_of_takeWhile none, rfl⟩
      · exact .inl (literalOf_broken broken)
    · exact absurd broken (decimalLiteral_not_broken c)
  · exact absurd broken (decimalLiteral_not_broken c)

theorem argument_eq_error :
    c.argument = .error tree ↔ c.rest.head?.any Cursor.isBlank = true ∧ c.skipBlanks.literal = .broken tree := by
  unfold Cursor.argument
  split_ifs with blank
  · split
    · next found => simp [found]
    · next broken => simp [broken, blank]
    · next absent =>
      rw [absent]
      split <;> simp
  · simp [blank]

theorem statement_eq_error : c.statement = .error tree ↔
    ∃ mnemonic d, c.name? = some (mnemonic, d) ∧ d.argument = .error tree := by
  unfold Cursor.statement
  split
  · next none => simp [none]
  · next mnemonic d named =>
    rw [named]
    cases asked : d.argument <;> simp [bind, Except.bind, pure, Except.pure, asked]

theorem line_eq_error : c.line = .error tree ↔ c.skipBlanks.definitions.2.statement = .error tree ∨
    ∃ s e, c.skipBlanks.definitions.2.statement = .ok (s, e) ∧ e.skipBlanks.comment.2.rest ≠ [] ∧
      tree = e.skipBlanks.comment.2.endExpected := by
  rw [line_eq]
  cases c.skipBlanks.definitions.2.statement with
  | error cause => simp [bind, Except.bind]
  | ok p =>
    obtain ⟨s, e⟩ := p
    simp only [bind, Except.bind, List.isEmpty_iff]
    constructor
    · intro failed
      split_ifs at failed with whole
      cases failed
      exact .inr ⟨s, e, rfl, whole, rfl⟩
    · rintro (refused | ⟨s', e', same, left, rfl⟩)
      · cases refused
      · cases same
        rw [if_neg left]

/-- A comment is taken to its end, or not at all. -/
theorem comment_left (left : c.comment.2.rest ≠ []) : c.comment.2 = c := by
  unfold Cursor.comment at left ⊢
  split_ifs at left ⊢
  · exact absurd rfl left
  · rfl

/-! ## Lines -/

/-- A line up to behind the marker of a hexadecimal number, which is its argument. -/
inductive Unfinished : List Char → Prop
  | intro {indent labels between : List Char} {names : List String} {mnemonic : String} {x : Char} : Blanks indent →
      Defined names labels → Ident mnemonic.toList → between ≠ [] → Blanks between → x = 'x' ∨ x = 'X' →
      Unfinished (indent ++ labels ++ mnemonic.toList ++ between ++ ['0', x])

theorem form_bare {indent labels said gap : List Char} {names : List String}
    {statement : Option (String × Option Argument.Content)} (indented : Blanks indent) (defined : Defined names labels)
    (stated : Stated statement said) (blanks : Blanks gap) :
    Form ⟨names, statement, none⟩ (indent ++ labels ++ said ++ gap) := by
  have form : Form ⟨names, statement, none⟩ (indent ++ labels ++ said ++ gap ++ []) :=
    .intro indented defined stated blanks .none
  rw [List.append_nil] at form
  exact form

/-- The error of a line is behind a text that is a line by itself, or behind the marker of a number without digits. -/
theorem line_refused (failed : c.line = .error tree) : ∃ front back, c.rest = front ++ back ∧
    tree.offset? = some (c.offset + Text.byteLength front) ∧
    ((∃ content, Form content front) ∨ Unfinished front ∧ Stops (Numeral.isDigit 16) back) := by
  obtain ⟨indent, indented, start, -⟩ := skipBlanks_sound c
  obtain ⟨labels, defined, behind⟩ := definitions_sound c.skipBlanks
  have stop : c.skipBlanks.definitions.2.stop = c.stop := (stop_definitions _).trans (stop_skipBlanks c)
  -- Either the argument is broken, or something is left over that is no comment. What was read by then is a line.
  rcases line_eq_error.1 failed with refused | ⟨s, e, asked, left, rfl⟩
  · obtain ⟨mnemonic, d, named, missing⟩ := statement_eq_error.1 refused
    obtain ⟨ident, name⟩ := name?_sound named
    obtain ⟨blank, broken⟩ := argument_eq_error.1 missing
    obtain ⟨between, blanks, gap, nonempty⟩ := skipBlanks_sound d
    have front : c.rest = indent ++ labels ++ mnemonic.text.toList ++ between ++ d.skipBlanks.rest := by
      rw [start, behind, name, gap]
      simp only [List.append_assoc]
    have offset := offset_of_stop ((stop_skipBlanks d).trans ((stop_name? named).2.trans stop)) front
    rcases literal_broken broken with whole | ⟨x, rest, text, marker, digitless, place⟩
    · rw [offset] at whole
      exact ⟨_, _, front, whole, .inl ⟨_, form_bare indented defined (.bare ident) blanks⟩⟩
    · have unfinished := Unfinished.intro indented defined ident (nonempty blank) blanks marker
      refine ⟨_, rest, ?_, ?_, .inr ⟨unfinished, digitless⟩⟩
      · rw [front, text, List.append_assoc _ ['0', x]]
        rfl
      · rw [place, offset, Nat.add_assoc, ← Text.byteLength_append]
  · obtain ⟨statement, stated, later⟩ := statement_sound asked
    obtain ⟨gap, blanks, last, -⟩ := skipBlanks_sound e
    have front : c.rest = indent ++ labels ++ statement ++ gap ++ e.skipBlanks.rest := by
      rw [start, behind, later, last]
      simp only [List.append_assoc]
    have offset := offset_of_stop ((stop_skipBlanks e).trans ((stop_statement asked).trans stop)) front
    refine ⟨_, _, front, ?_, .inl ⟨_, form_bare indented defined stated blanks⟩⟩
    rw [comment_left left, ← offset]
    rfl

theorem argument_unfinished {between : List Char} {x : Char} (nonempty : between ≠ []) (blanks : Blanks between)
    (marker : x = 'x' ∨ x = 'X') (text : c.rest = between ++ ['0', x]) :
    c.skipBlanks.rest = ['0', x] ∧ ∃ tree, c.argument = .error tree := by
  have skipped : c.skipBlanks.rest = ['0', x] := skipBlanks_complete blanks (stops_isBlank (by decide)) text
  obtain ⟨tree, broken⟩ := literal_digitless marker skipped (by simp [Stops])
  refine ⟨skipped, tree, argument_eq_error.2 ⟨?_, broken⟩⟩
  obtain ⟨first, more, rfl⟩ := List.exists_cons_of_ne_nil nonempty
  rw [text]
  exact isBlank_iff.2 (blanks first List.mem_cons_self)

/-- The text in front of the missing digits is no line. -/
theorem line_unfinished (unfinished : Unfinished c.rest) : ∃ tree, c.line = .error tree := by
  generalize text : c.rest = rest at unfinished
  obtain @⟨indent, labels, between, _, mnemonic, x, indented, defined, ident, nonempty, blanks, marker⟩ := unfinished
  have split : c.rest = indent ++ labels ++ (mnemonic.toList ++ (between ++ ['0', x])) := by
    rw [text]
    simp only [List.append_assoc]
  -- No colon follows the mnemonic, so the reader takes it for one and gets as far as the argument.
  have named (e : Cursor) (front : e.rest = (mnemonic.toList ++ (between ++ ['0', x])).dropWhile Cursor.isBlank) :
      ∃ d, e.name? = some (⟨e.offset, mnemonic⟩, d) ∧ d.rest = between ++ ['0', x] := by
    rw [dropWhile_nothing (stops_ident ident)] at front
    exact name?_complete ident (stops_behind blanks (by decide) fun empty => absurd empty nonempty) front
  have ends (e : Cursor) (front : e.rest = (mnemonic.toList ++ (between ++ ['0', x])).dropWhile Cursor.isBlank) :
      e.definition? = none := by
    obtain ⟨d, read, left⟩ := named e front
    refine definition?_none read ?_
    rw [(argument_unfinished nonempty blanks marker left).1]
    rintro ch ⟨⟩
    decide
  obtain ⟨fragments, e, labelled, -, front⟩ := definitions_complete defined indented split ends
  obtain ⟨d, read, left⟩ := named e front
  obtain ⟨-, tree, missing⟩ := argument_unfinished nonempty blanks marker left
  have refused : e.statement = .error tree := statement_eq_error.2 ⟨_, d, read, missing⟩
  refine ⟨tree, line_eq_error.2 (.inl ?_)⟩
  rw [labelled]
  exact refused

theorem accepted_of_form {content : Line.Content} (form : Form content c.rest) : ∃ l, c.line = .ok l := by
  obtain ⟨l, accepted, -⟩ := line_complete form rfl
  exact ⟨l, accepted⟩

theorem accepted_iff (inLine : '\n' ∉ c.rest) : (∃ l, c.line = .ok l) ↔ ∃ content, Form content c.rest := by
  constructor
  · rintro ⟨l, accepted⟩
    exact ⟨l.content, line_sound inLine accepted⟩
  · rintro ⟨content, form⟩
    exact accepted_of_form form

theorem not_form_of_refused (refused : c.line = .error tree) (content : Line.Content) : ¬ Form content c.rest := by
  intro form
  obtain ⟨l, accepted⟩ := accepted_of_form form
  cases refused.symm.trans accepted

theorem not_form_of_unfinished {text : List Char} (unfinished : Unfinished text) :
    ¬ ∃ content, Form content text := by
  obtain ⟨tree, refused⟩ := line_unfinished (c := ⟨0, text⟩) unfinished
  exact not_exists.2 (not_form_of_refused refused)

/-! ## Sources -/

variable {text before line front back behind : List Char} {i : Nat}

/-- All lines can be read, up to the one that would begin where the text ends. -/
def Readable (before : List Char) : Prop := ∀ d ∈ (linesFrom 0 before).dropLast, ∃ l, d.line = .ok l

theorem parse_eq_error {source : String} {e : SyntaxError} :
    Program.parse source = .error e ↔ (linesFrom 0 source.toList).mapM Cursor.line = .error e.tree := by
  unfold Program.parse
  cases (linesFrom 0 source.toList).mapM Cursor.line with
  | ok lines => simp
  | error tree =>
    constructor
    · rintro ⟨⟩
      rfl
    · rintro ⟨⟩
      rfl

/-- The error of a source is that of its first line that cannot be read. -/
theorem parse_error_iff {e : SyntaxError} : Program.parse (String.ofList text) = .error e ↔
    ∃ i before line behind, LineAt text i before line behind ∧ Readable before ∧
      Cursor.line ⟨Text.byteLength before, line⟩ = .error e.tree := by
  rw [parse_eq_error, String.toList_ofList, mapM_line_eq_error]
  constructor
  · rintro ⟨earlier, c, later, split, read, failed⟩
    have listed : (linesFrom 0 text)[earlier.length]? = some c := by simp [split]
    obtain ⟨before, behind, found, offset⟩ := linesFrom_getElem?.1 listed
    obtain ⟨more, lines⟩ := found.linesFrom
    obtain ⟨rfl, -⟩ := List.append_inj (split.symm.trans lines) (length_before found).symm
    exact ⟨_, before, c.rest, behind, found, read, offset ▸ failed⟩
  · rintro ⟨i, before, line, behind, found, read, failed⟩
    obtain ⟨more, lines⟩ := found.linesFrom
    exact ⟨_, _, more, lines, read, failed⟩

theorem parse_ok_iff : (∃ p, Program.parse (String.ofList text) = .ok p) ↔
    ∀ c ∈ linesFrom 0 text, ∃ l, c.line = .ok l := by
  rw [← exists_forall₂]
  simp only [parse_eq_ok, String.toList_ofList, mapM_line_eq_ok]
  constructor
  · rintro ⟨p, read⟩
    exact ⟨p.lines, read.flip⟩
  · rintro ⟨lines, read⟩
    exact ⟨⟨lines⟩, read.flip⟩

/-- Of a line that is cut off the rest has to have the form of one. -/
theorem parse_up_to (found : LineAt text i before (front ++ back) behind) (read : Readable before) :
    (∃ p, Program.parse (String.ofList (before ++ front)) = .ok p) ↔ ∃ content, Form content front := by
  have inside : '\n' ∉ front := fun feed => found.inside (List.mem_append_left _ feed)
  rw [parse_ok_iff, linesFrom_behind found.whole, linesFrom_last inside, List.forall_mem_append,
    List.forall_mem_singleton, accepted_iff inside]
  exact and_iff_right read

/-- The lines in front of a readable line have the form of one. -/
theorem forms_of_readable (found : LineAt text i before line behind) (read : Readable before) {j : Nat}
    (earlier : j < i) {before' line' behind' : List Char} (other : LineAt text j before' line' behind') :
    ∃ content, Form content line' := by
  have listed : (linesFrom 0 text)[j]? = some ⟨Text.byteLength before', line'⟩ :=
    linesFrom_getElem?.2 ⟨before', behind', other, rfl⟩
  obtain ⟨more, lines⟩ := found.linesFrom
  rw [lines, List.getElem?_append_left (earlier.trans_eq (length_before found).symm)] at listed
  obtain ⟨l, accepted⟩ := read _ (List.mem_of_getElem? listed)
  exact ⟨l.content, line_sound other.inside accepted⟩

/-- What follows the ending of a line does not end it. -/
theorem replace_behind {ending rest other : List Char} (ended : Ended line (ending ++ rest))
    (feed : ending = ['\n'] ∨ ending = ['\r', '\n']) : Ended line (ending ++ other) := by
  rcases feed with rfl | rfl
  · cases ended with
    | feed noReturn => exact .feed noReturn
  · exact .returned

/-- What an error tells of a source: the line that it is in is `front ++ back`, and it is behind `front`. -/
structure Points (source : String) (e : SyntaxError) (i : Nat) (before front back behind : List Char) : Prop where
  line : LineAt source.toList i before (front ++ back) behind
  earlier : ∀ j < i, ∀ before' line' behind', LineAt source.toList j before' line' behind' →
    ∃ content, Form content line'
  unformed : ∀ content, ¬ Form content (front ++ back)
  offset : e.offset = Text.byteLength (before ++ front)
  /-- The error does not depend on what follows the line. -/
  stays : ∀ ending rest other, ending = ['\n'] ∨ ending = ['\r', '\n'] → behind = ending ++ rest →
    Program.parse (String.ofList (before ++ (front ++ back) ++ (ending ++ other))) = .error e
  accepted : (∃ p, Program.parse (String.ofList (before ++ front)) = .ok p) ↔ ¬ Unfinished front
  digitless : Unfinished front → Stops (Numeral.isDigit 16) back

theorem error_pointed {source : String} {e : SyntaxError} (failed : Program.parse source = .error e) :
    ∃ i before front back behind, Points source e i before front back behind := by
  rw [← String.ofList_toList (s := source)] at failed
  obtain ⟨i, before, line, behind, found, read, refused⟩ := parse_error_iff.1 failed
  obtain ⟨front, back, split, offset, ends⟩ := line_refused refused
  obtain rfl : line = front ++ back := split
  refine ⟨i, before, front, back, behind, found, fun j earlier _ _ _ => forms_of_readable found read earlier,
    not_form_of_refused refused, ?_, ?_, ?_, ?_⟩
  · rw [SyntaxError.offset, offset, Text.byteLength_append]
    rfl
  · rintro ending rest other feed rfl
    have found' : LineAt (before ++ (front ++ back) ++ (ending ++ other)) i before (front ++ back) (ending ++ other) :=
      ⟨rfl, found.number, found.whole, found.inside, replace_behind found.ended feed⟩
    exact parse_error_iff.2 ⟨i, before, _, _, found', read, refused⟩
  · rw [parse_up_to found read]
    exact ⟨fun form unfinished => not_form_of_unfinished unfinished form,
      fun finished => ends.resolve_right fun cut => finished cut.1⟩
  · exact fun unfinished => (ends.resolve_left (not_form_of_unfinished unfinished)).2

/-- Digits are missing behind the four bytes of the first line, of which the accent takes two, and eight more. -/
theorem digitless_pointed : Program.parse ";é\npush1 0x\nstop" = .error ⟨.expected 12 .run none⟩ ∧
    ∃ i before front back behind, Points ";é\npush1 0x\nstop" ⟨.expected 12 .run none⟩ i before front back behind := by
  have failed : Program.parse ";é\npush1 0x\nstop" = .error ⟨.expected 12 .run none⟩ := by
    with_unfolding_all rfl
  exact ⟨failed, error_pointed failed⟩

end Gosub.Misreadings
