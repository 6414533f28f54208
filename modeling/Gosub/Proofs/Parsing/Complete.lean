import Gosub.Proofs.Parsing.Sound

/-!
# Where the reader of lines stops

Each part of the reader takes as much as it can. That this is what the grammar has there depends on the
characters that may follow (`Stops`, `Trailing`); with them, what has the form of a line is accepted
(`line_complete`).
-/

namespace Gosub.Parsing

open Gosub.Grammar

variable {c d : Cursor}

/-- The text does not go on with a character of the class. -/
def Stops (p : Char → Bool) (text : List Char) : Prop := ∀ ch ∈ text.head?, p ch = false

theorem takeWhile_stops {p : Char → Bool} {run tail : List Char} (all : ∀ ch ∈ run, p ch = true)
    (stops : Stops p tail) : (run ++ tail).takeWhile p = run := by
  rw [List.takeWhile_append_of_pos all]
  cases tail with
  | nil => rw [List.takeWhile_nil, List.append_nil]
  | cons first rest => rw [List.takeWhile_cons_of_neg (by simp [stops first rfl]), List.append_nil]

theorem dropWhile_stops {p : Char → Bool} {run tail : List Char} (all : ∀ ch ∈ run, p ch = true)
    (stops : Stops p tail) : (run ++ tail).dropWhile p = tail := by
  rw [List.dropWhile_append_of_pos all]
  cases tail with
  | nil => rfl
  | cons first rest => rw [List.dropWhile_cons_of_neg (by simp [stops first rfl])]

theorem takeWhile_nothing {p : Char → Bool} {text : List Char} (stops : Stops p text) : text.takeWhile p = [] :=
  takeWhile_stops (fun _ among => absurd among List.not_mem_nil) stops

theorem stops_of_takeWhile {p : Char → Bool} {text : List Char} (nothing : text.takeWhile p = []) : Stops p text := by
  cases text with
  | nil => nofun
  | cons first rest =>
    rintro ch ⟨⟩
    refine Bool.eq_false_iff.2 fun member => ?_
    rw [List.takeWhile_cons_of_pos member] at nothing
    cases nothing

theorem dropWhile_nothing {p : Char → Bool} {text : List Char} (stops : Stops p text) : text.dropWhile p = text :=
  dropWhile_stops (fun _ among => absurd among List.not_mem_nil) stops

/-- What may follow a statement: blanks, a comment, or nothing. -/
def Trailing (text : List Char) : Prop := ∀ ch ∈ text.head?, ch ∈ [' ', '\t', ';', '#']

theorem Trailing.stops {p : Char → Bool} {text : List Char} (trailing : Trailing text)
    (others : [' ', '\t', ';', '#'].any p = false) : Stops p text :=
  fun ch first => Bool.eq_false_iff.2 (List.any_eq_false.1 others ch (trailing ch first))

theorem head_of_commented {comment : Option String} {text : List Char} (commented : Commented comment text) :
    ∀ ch ∈ text.head?, ch ∈ [';', '#'] := by
  cases commented with
  | none =>
    intro ch first
    cases first
  | some spelled marker _ =>
    rw [spelled]
    rintro ch ⟨⟩
    simpa using marker

theorem stops_commented {p : Char → Bool} {comment : Option String} {text : List Char}
    (commented : Commented comment text) (others : [';', '#'].any p = false) : Stops p text :=
  fun ch first => Bool.eq_false_iff.2 (List.any_eq_false.1 others ch (head_of_commented commented ch first))

theorem stops_behind {p : Char → Bool} {between tail : List Char} (blanks : Blanks between)
    (others : [' ', '\t'].any p = false) (stops : between = [] → Stops p tail) : Stops p (between ++ tail) := by
  cases between with
  | nil => exact stops rfl
  | cons blank rest =>
    rintro ch ⟨⟩
    exact Bool.eq_false_iff.2 (List.any_eq_false.1 others blank (by simpa using blanks blank List.mem_cons_self))

theorem stops_isBlank {first : Char} {rest : List Char} (member : Cursor.isNameChar first = true) :
    Stops Cursor.isBlank (first :: rest) := by
  rintro ch ⟨⟩
  refine Bool.eq_false_iff.2 fun blank => ?_
  rcases isBlank_iff.1 blank with rfl | rfl
  · exact absurd member (by decide)
  · exact absurd member (by decide)

theorem trailing_gap {gap text : List Char} {comment : Option String} (blanks : Blanks gap)
    (commented : Commented comment text) : Trailing (gap ++ text) := by
  cases gap with
  | nil => exact fun ch first => List.mem_append_right [' ', '\t'] (head_of_commented commented ch first)
  | cons blank rest =>
    rintro ch ⟨⟩
    rcases blanks blank List.mem_cons_self with rfl | rfl <;> decide

theorem stops_ident {name : String} {tail : List Char} (ident : Ident name.toList) :
    Stops Cursor.isBlank (name.toList ++ tail) := by
  obtain ⟨⟨first, rest, front, -⟩, chars⟩ := ident_iff.1 ident
  rw [front] at chars ⊢
  exact stops_isBlank (chars first List.mem_cons_self)

theorem skipBlanks_complete {between tail : List Char} (blanks : Blanks between)
    (stops : Stops Cursor.isBlank tail) (text : c.rest = between ++ tail) : c.skipBlanks.rest = tail := by
  show c.rest.dropWhile Cursor.isBlank = tail
  rw [text, dropWhile_stops blanks.all stops]

theorem name?_none (stops : Stops Cursor.isNameStart c.rest) : c.name? = none := by
  unfold Cursor.name?
  split
  · next first rest text =>
    have noStart : Cursor.isNameStart first = false := stops first (by rw [text]; rfl)
    rw [noStart]
    rfl
  · rfl

theorem name?_complete {name : String} {tail : List Char} (ident : Ident name.toList)
    (stops : Stops Cursor.isNameChar tail) (text : c.rest = name.toList ++ tail) :
    ∃ d, c.name? = some (⟨c.offset, name⟩, d) ∧ d.rest = tail := by
  obtain ⟨⟨first, rest, split, start⟩, chars⟩ := ident_iff.1 ident
  have taken : c.rest.takeWhile Cursor.isNameChar = name.toList := by rw [text, takeWhile_stops chars stops]
  have left : c.rest.dropWhile Cursor.isNameChar = tail := by rw [text, dropWhile_stops chars stops]
  have read : c.name? = some (c.takeWhile Cursor.isNameChar) := by
    rw [split, List.cons_append] at text
    rw [Cursor.name?, text]
    exact if_pos start
  rw [read, Cursor.takeWhile, taken, left, String.ofList_toList]
  exact ⟨_, rfl, rfl⟩

theorem eat?_none {ch : Char} (other : ∀ first ∈ c.rest.head?, first ≠ ch) : c.eat? ch = none := by
  unfold Cursor.eat?
  split
  · next first rest text => exact if_neg (other first (by rw [text]; rfl))
  · rfl

theorem eat?_complete {ch : Char} {tail : List Char} (text : c.rest = ch :: tail) :
    ∃ d, c.eat? ch = some d ∧ d.rest = tail := by
  rw [Cursor.eat?, text]
  exact ⟨_, if_pos rfl, rfl⟩

theorem definition?_complete {name : String} {before tail : List Char} (ident : Ident name.toList)
    (blanks : Blanks before) (text : c.rest = name.toList ++ before ++ ':' :: tail) :
    ∃ d, c.definition? = some (⟨c.offset, name⟩, d) ∧ d.rest = tail := by
  have stops : Stops Cursor.isNameChar (before ++ ':' :: tail) := by
    refine stops_behind blanks (by decide) fun _ => ?_
    rintro ch ⟨⟩
    decide
  rw [List.append_assoc] at text
  obtain ⟨d, named, behind⟩ := name?_complete ident stops text
  have colon : d.skipBlanks.rest = ':' :: tail := by
    refine skipBlanks_complete blanks ?_ behind
    rintro ch ⟨⟩
    decide
  obtain ⟨e, eaten, left⟩ := eat?_complete colon
  refine ⟨e, ?_, left⟩
  rw [Cursor.definition?, named]
  show (d.skipBlanks.eat? ':').map _ = _
  rw [eaten, Option.map_some]

theorem definition?_none {f : Fragment} (named : c.name? = some (f, d))
    (other : ∀ first ∈ d.skipBlanks.rest.head?, first ≠ ':') : c.definition? = none := by
  rw [Cursor.definition?, named]
  show (d.skipBlanks.eat? ':').map _ = none
  rw [eat?_none other, Option.map_none]

theorem literalOf_complete {text tail : List Char} {value : Word} {fail : ErrorTree → Reading NumberLiteral}
    (spelled : Literal text value.toNat) (whole : c.rest = text ++ tail) :
    ∃ d, c.literalOf text fail = .found ⟨⟨c.offset, String.ofList text⟩, value⟩ d ∧ d.rest = tail := by
  rw [Cursor.literalOf, ofLiteral?_eq_some.2 spelled, whole, List.drop_left]
  exact ⟨_, rfl, rfl⟩

theorem literal_marked {x : Char} {rest : List Char} (marker : x = 'x' ∨ x = 'X') (text : c.rest = '0' :: x :: rest) :
    c.literal = c.hexLiteral '0' x rest := by
  rw [Cursor.literal, text]
  exact if_pos marker

theorem literal_unmarked (unmarked : ¬ Marked c.rest) : c.literal = c.decimalLiteral := by
  unfold Cursor.literal
  split
  · next x rest text => exact if_neg fun marker => unmarked ⟨x, rest, text, marker⟩
  · rfl

theorem literal_decimal {text tail : List Char} {n : Nat} (denotes : Denotes 10 text n)
    (stops : Stops (Numeral.isDigit 10) tail) (unmarked : ¬ Marked (text ++ tail)) (whole : c.rest = text ++ tail) :
    c.literal = c.literalOf text
      fun tree => .absent (.allFailed c.offset (.expected c.offset .spelling none) tree) := by
  obtain ⟨nonempty, digits⟩ := denotes.digits (by decide)
  have taken : c.rest.takeWhile (Numeral.isDigit 10) = text := by
    rw [whole, takeWhile_stops digits stops]
  rw [literal_unmarked (whole ▸ unmarked), Cursor.decimalLiteral, taken]
  split
  · exact absurd rfl nonempty
  · rfl

theorem literal_hexadecimal {x : Char} {digits tail : List Char} {n : Nat} (marker : x = 'x' ∨ x = 'X')
    (denotes : Denotes 16 digits n) (stops : Stops (Numeral.isDigit 16) tail)
    (whole : c.rest = '0' :: x :: (digits ++ tail)) : c.literal = c.literalOf ('0' :: x :: digits) .broken := by
  obtain ⟨nonempty, members⟩ := denotes.digits le_rfl
  rw [literal_marked marker whole, Cursor.hexLiteral, takeWhile_stops members stops]
  split
  · exact absurd rfl nonempty
  · rfl

/-- The marker of a hexadecimal number is no digit, and cannot follow a decimal number either. -/
theorem no_marker {text tail : List Char} {n : Nat} (denotes : Denotes 10 text n) (trailing : Trailing tail) :
    ¬ Marked (text ++ tail) := by
  rintro ⟨x, rest, whole, marker⟩
  obtain ⟨nonempty, digits⟩ := denotes.digits (by decide)
  rcases text with _ | ⟨first, _ | ⟨second, more⟩⟩
  · exact nonempty rfl
  · obtain ⟨-, rfl⟩ := List.cons.inj whole
    have follows := trailing x rfl
    rcases marker with rfl | rfl
    · exact absurd follows (by decide)
    · exact absurd follows (by decide)
  · obtain ⟨-, behind⟩ := List.cons.inj whole
    obtain ⟨rfl, -⟩ := List.cons.inj behind
    have digit := digits second (by simp)
    rcases marker with rfl | rfl
    · exact absurd digit (by decide)
    · exact absurd digit (by decide)

theorem literal_complete {text tail : List Char} {value : Word} (spelled : Literal text value.toNat)
    (trailing : Trailing tail) (whole : c.rest = text ++ tail) :
    ∃ d, c.literal = .found ⟨⟨c.offset, String.ofList text⟩, value⟩ d ∧ d.rest = tail := by
  cases spelled with
  | decimal denotes =>
    rw [literal_decimal denotes (trailing.stops (by decide)) (no_marker denotes trailing) whole]
    exact literalOf_complete (.decimal denotes) whole
  | hexadecimal marker denotes =>
    rw [literal_hexadecimal marker denotes (trailing.stops (by decide)) whole]
    exact literalOf_complete (.hexadecimal marker denotes) whole

theorem literal_absent (stops : Stops (Numeral.isDigit 10) c.rest) : ∃ tree, c.literal = .absent tree := by
  have unmarked : ¬ Marked c.rest := by
    rintro ⟨x, rest, front, -⟩
    rw [front] at stops
    exact absurd (stops '0' rfl) (by decide)
  have none : c.rest.takeWhile (Numeral.isDigit 10) = [] := takeWhile_nothing stops
  rw [literal_unmarked unmarked, Cursor.decimalLiteral, none]
  exact ⟨_, rfl⟩

/-- A marker without a digit behind it can only be a literal, and is none. -/
theorem literal_digitless {x : Char} {rest : List Char} (marker : x = 'x' ∨ x = 'X') (text : c.rest = '0' :: x :: rest)
    (stops : Stops (Numeral.isDigit 16) rest) : ∃ tree, c.literal = .broken tree := by
  rw [literal_marked marker text, Cursor.hexLiteral, takeWhile_nothing stops]
  exact ⟨_, rfl⟩

theorem head_of_literal {text : List Char} {n : Nat} (spelled : Literal text n) :
    ∃ first rest, text = first :: rest ∧ Cursor.isNameChar first = true := by
  cases spelled with
  | decimal denotes =>
    obtain ⟨nonempty, digits⟩ := denotes.digits (by decide)
    obtain ⟨first, rest, rfl⟩ := List.exists_cons_of_ne_nil nonempty
    have digit := digit_of_isDigit (digits first List.mem_cons_self)
    exact ⟨first, rest, rfl, isNameChar_iff.2 (.inr (.inl digit))⟩
  | hexadecimal _ _ => exact ⟨'0', _, rfl, by decide⟩

/-- An argument begins with a character that names may have, a number too. -/
theorem head_of_given {argument : Argument.Content} {text : List Char} (given : Given argument text) :
    ∃ first rest, text = first :: rest ∧ Cursor.isNameChar first = true := by
  cases given with
  | number spelled => exact head_of_literal spelled
  | label ident =>
    obtain ⟨⟨first, rest, front, -⟩, chars⟩ := ident_iff.1 ident
    exact ⟨first, rest, front, chars first (by rw [front]; exact List.mem_cons_self)⟩

theorem skipBlanks_given {argument : Argument.Content} {between text tail : List Char} (blanks : Blanks between)
    (given : Given argument text) (rest : c.rest = between ++ text ++ tail) : c.skipBlanks.rest = text ++ tail := by
  obtain ⟨first, more, rfl, member⟩ := head_of_given given
  exact skipBlanks_complete blanks (stops_isBlank member) (rest.trans (List.append_assoc _ _ _))

theorem skipBlanks_gap {gap text : List Char} {comment : Option String} (blanks : Blanks gap)
    (commented : Commented comment text) (rest : c.rest = gap ++ text) : c.skipBlanks.rest = text :=
  skipBlanks_complete blanks (stops_commented commented (by decide)) rest

theorem argument_none {gap text : List Char} {comment : Option String} (blanks : Blanks gap)
    (commented : Commented comment text) (rest : c.rest = gap ++ text) : c.argument = .ok (none, c) := by
  have skipped := skipBlanks_gap blanks commented rest
  obtain ⟨tree, absent⟩ : ∃ tree, c.skipBlanks.literal = .absent tree :=
    literal_absent (skipped.symm ▸ stops_commented commented (by decide))
  have noName : c.skipBlanks.name? = none := name?_none (skipped.symm ▸ stops_commented commented (by decide))
  unfold Cursor.argument
  split_ifs with blank
  · simp only [absent, noName]
  · rfl

theorem argument_complete {argument : Argument.Content} {between text tail : List Char} (nonempty : between ≠ [])
    (blanks : Blanks between) (given : Given argument text) (trailing : Trailing tail)
    (rest : c.rest = between ++ text ++ tail) :
    ∃ a d, c.argument = .ok (some a, d) ∧ a.content = argument ∧ d.rest = tail := by
  have skipped := skipBlanks_given blanks given rest
  have blank : c.rest.head?.any Cursor.isBlank = true := by
    obtain ⟨first, more, rfl⟩ := List.exists_cons_of_ne_nil nonempty
    rw [rest]
    exact isBlank_iff.2 (blanks first List.mem_cons_self)
  rw [Cursor.argument, if_pos blank]
  cases given with
  | number spelled =>
    obtain ⟨d, found, left⟩ := literal_complete spelled trailing skipped
    rw [String.ofList_toList] at found
    simp only [found]
    exact ⟨_, d, rfl, rfl, left⟩
  | @label name ident =>
    have stops : Stops (Numeral.isDigit 10) c.skipBlanks.rest := by
      obtain ⟨⟨first, more, front, start⟩, -⟩ := ident_iff.1 ident
      rw [skipped, front]
      rintro ch ⟨⟩
      exact Bool.eq_false_iff.2 fun digit => not_digit_of_isNameStart start (digit_of_isDigit digit)
    obtain ⟨tree, absent⟩ := literal_absent stops
    obtain ⟨d, named, left⟩ := name?_complete ident (trailing.stops (by decide)) skipped
    simp only [absent, named]
    exact ⟨_, d, rfl, rfl, left⟩

theorem statement_complete {statement : Option (String × Option Argument.Content)} {comment : Option String}
    {said gap text : List Char} (stated : Stated statement said) (blanks : Blanks gap)
    (commented : Commented comment text) (rest : c.rest = (said ++ gap ++ text).dropWhile Cursor.isBlank) :
    c.definition? = none ∧ ∃ s d, c.statement = .ok (s, d) ∧ s.map Statement.content = statement ∧
      d.skipBlanks.rest = text := by
  have trailing := trailing_gap blanks commented
  -- By what comes first behind the blanks: a comment or the end, or else a mnemonic. Without an argument the
  -- blanks behind it belong to the gap, and no colon follows that would make a label of it.
  cases stated with
  | none =>
    have text : c.rest = text := by
      rw [rest, List.nil_append, dropWhile_stops blanks.all (stops_commented commented (by decide))]
    have noName : c.name? = Option.none := name?_none (text.symm ▸ stops_commented commented (by decide))
    refine ⟨?_, Option.none, c, ?_, rfl, ?_⟩
    · rw [Cursor.definition?, noName]
    · rw [Cursor.statement, noName]
    · show c.rest.dropWhile Cursor.isBlank = _
      rw [text, dropWhile_nothing (stops_commented commented (by decide))]
  | @bare mnemonic ident =>
    have front : c.rest = mnemonic.toList ++ (gap ++ text) := by
      rw [rest, List.append_assoc, dropWhile_nothing (stops_ident ident)]
    obtain ⟨d, named, left⟩ := name?_complete ident (trailing.stops (by decide)) front
    have skipped := skipBlanks_gap blanks commented left
    refine ⟨definition?_none named ?_, some ⟨⟨c.offset, mnemonic⟩, Option.none⟩, d, ?_, rfl, skipped⟩
    · rw [skipped]
      rintro ch first rfl
      exact absurd (head_of_commented commented _ first) (by decide)
    · simp only [Cursor.statement, named, argument_none blanks commented left]
      rfl
  | @given mnemonic argument between spelled ident nonempty apart given =>
    have front : c.rest = mnemonic.toList ++ (between ++ spelled ++ (gap ++ text)) := by
      rw [rest, List.append_assoc, List.append_assoc, List.append_assoc, dropWhile_nothing (stops_ident ident),
        List.append_assoc]
    have stops : Stops Cursor.isNameChar (between ++ spelled ++ (gap ++ text)) := by
      rw [List.append_assoc]
      exact stops_behind apart (by decide) fun empty => absurd empty nonempty
    obtain ⟨d, named, left⟩ := name?_complete ident stops front
    obtain ⟨a, e, asked, same, tail⟩ := argument_complete nonempty apart given trailing left
    have skipped := skipBlanks_gap blanks commented tail
    refine ⟨definition?_none named ?_, some ⟨⟨c.offset, mnemonic⟩, some a⟩, e, ?_, ?_, skipped⟩
    · obtain ⟨first, more, rfl, member⟩ := head_of_given given
      rw [skipBlanks_given apart given left]
      rintro ch ⟨⟩ rfl
      exact absurd member (by decide)
    · simp only [Cursor.statement, named, asked]
      rfl
    · rw [← same]
      rfl

theorem comment_complete {comment : Option String} {text : List Char} (commented : Commented comment text)
    (rest : c.rest = text) : ∃ d, c.comment = (comment, d) ∧ d.rest = [] := by
  cases commented with
  | none =>
    refine ⟨c, ?_, rest⟩
    rw [Cursor.comment, rest]
    rfl
  | @some comment mark tail spelled marker unbroken =>
    have marked : (c.rest.head?.any Cursor.isCommentStart && c.rest.all (· ≠ '\r')) = true := by
      rw [rest, spelled, Bool.and_eq_true_iff]
      refine ⟨by simpa [Cursor.isCommentStart] using marker, ?_⟩
      rw [List.all_cons, Bool.and_eq_true_iff]
      refine ⟨?_, List.all_eq_true.2 fun ch among => decide_eq_true (unbroken ch among).1⟩
      rcases marker with rfl | rfl <;> decide
    rw [Cursor.comment, if_pos marked, Cursor.takeAll, rest, String.ofList_toList]
    exact ⟨_, rfl, rfl⟩

theorem definitions_complete {names : List String} {text : List Char} (defined : Defined names text)
    {c : Cursor} {indent tail : List Char} (blanks : Blanks indent) (rest : c.rest = indent ++ text ++ tail)
    (ends : ∀ e : Cursor, e.rest = tail.dropWhile Cursor.isBlank → e.definition? = none) :
    ∃ fragments e, c.skipBlanks.definitions = (fragments, e) ∧ fragments.map Fragment.text = names ∧
      e.rest = tail.dropWhile Cursor.isBlank := by
  -- The blanks behind one definition are skipped like an indent, before the next is looked for.
  induction defined generalizing c indent with
  | none =>
    have skipped : c.skipBlanks.rest = tail.dropWhile Cursor.isBlank := by
      show c.rest.dropWhile Cursor.isBlank = _
      rw [rest, List.append_nil, List.dropWhile_append_of_pos blanks.all]
    exact ⟨[], c.skipBlanks, definitions_none (ends _ skipped), rfl, skipped⟩
  | @one name names before after behind ident apart between _ ih =>
    have skipped : c.skipBlanks.rest = name.toList ++ before ++ ':' :: (after ++ behind ++ tail) := by
      refine skipBlanks_complete blanks ?_ ?_
      · rw [List.append_assoc]
        exact stops_ident ident
      · rw [rest]
        simp only [List.append_assoc, List.cons_append]
    obtain ⟨d, read, left⟩ := definition?_complete ident apart skipped
    obtain ⟨fragments, e, later, same, ending⟩ := ih between left
    refine ⟨⟨c.skipBlanks.offset, name⟩ :: fragments, e, ?_, ?_, ending⟩
    · rw [definitions_some read, later]
    · rw [List.map_cons, same]

/-- What has the form of a line is accepted, for what it says. -/
theorem line_complete {content : Line.Content} {text : List Char} (form : Form content text) (rest : c.rest = text) :
    ∃ l, c.line = .ok l ∧ l.content = content := by
  obtain ⟨indented, defined, stated, blanks, commented⟩ := form
  obtain ⟨fragments, e, labels, same, behind⟩ := definitions_complete defined indented
    (rest.trans (by simp only [List.append_assoc])) fun e behind =>
      (statement_complete stated blanks commented behind).1
  obtain ⟨-, s, d, asked, statement, gap⟩ := statement_complete stated blanks commented behind
  obtain ⟨f, remark, whole⟩ := comment_complete commented gap
  refine ⟨⟨fragments, s, content.comment⟩, line_eq_ok.2 ⟨s, d, ?_, ?_, ?_⟩, ?_⟩
  · rw [labels, asked]
  · rw [remark, whole]
  · rw [labels, remark]
  · rw [Line.content, same, statement]

/-- The grammar is unambiguous, as the reader takes a line in one way only. -/
theorem form_unique {one other : Line.Content} {text : List Char} (first : Form one text) (second : Form other text) :
    one = other := by
  obtain ⟨l, read, rfl⟩ := line_complete (c := ⟨0, text⟩) first rfl
  obtain ⟨l', again, rfl⟩ := line_complete (c := ⟨0, text⟩) second rfl
  rw [read] at again
  cases again
  rfl

end Gosub.Parsing
