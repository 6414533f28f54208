import Gosub.Proofs.Grammar
import Mathlib.Data.List.TakeWhile

/-!
# What the reader of lines takes

Each part of the reader takes a piece in front of the text that has the form of that part, and so a line that
is accepted has the form of one (`line_sound`).
-/

namespace Gosub.Parsing

open Gosub.Grammar

variable {c d : Cursor}

theorem skipBlanks_sound (c : Cursor) :
    ∃ blanks, Blanks blanks ∧ c.rest = blanks ++ c.skipBlanks.rest ∧
      (c.rest.head?.any Cursor.isBlank = true → blanks ≠ []) := by
  refine ⟨c.rest.takeWhile Cursor.isBlank, ?_, List.takeWhile_append_dropWhile.symm, ?_⟩
  · exact fun _ taken => isBlank_iff.1 (List.mem_takeWhile_imp taken)
  · intro blank
    cases text : c.rest with
    | nil =>
      rw [text] at blank
      cases blank
    | cons first rest =>
      have blank : Cursor.isBlank first = true := by
        rw [text] at blank
        exact blank
      rw [List.takeWhile_cons, if_pos blank]
      exact List.cons_ne_nil _ _

theorem name?_sound {f : Fragment} (read : c.name? = some (f, d)) :
    Ident f.text.toList ∧ c.rest = f.text.toList ++ d.rest := by
  unfold Cursor.name? at read
  split at read
  · next first rest text =>
    split_ifs at read with start
    cases read
    have taken : c.rest.takeWhile Cursor.isNameChar = first :: rest.takeWhile Cursor.isNameChar := by
      rw [text, List.takeWhile_cons, if_pos (by rw [Cursor.isNameChar, start, Bool.true_or])]
    refine ⟨?_, ?_⟩
    · show Ident (String.ofList (c.rest.takeWhile Cursor.isNameChar)).toList
      rw [String.toList_ofList]
      refine ident_iff.2 ⟨⟨first, _, taken, start⟩, fun ch among => List.mem_takeWhile_imp among⟩
    · show c.rest = (String.ofList (c.rest.takeWhile Cursor.isNameChar)).toList ++ _
      rw [String.toList_ofList]
      exact List.takeWhile_append_dropWhile.symm
  · cases read

theorem eat?_sound {ch : Char} (read : c.eat? ch = some d) : c.rest = ch :: d.rest := by
  unfold Cursor.eat? at read
  split at read
  · next first rest text =>
    split_ifs at read with same
    cases read
    rw [text, same]
  · cases read

theorem definition?_sound {f : Fragment} (read : c.definition? = some (f, d)) :
    Ident f.text.toList ∧ ∃ before, Blanks before ∧ c.rest = f.text.toList ++ before ++ ':' :: d.rest := by
  unfold Cursor.definition? at read
  split at read
  · next name e named =>
    obtain ⟨d', colon, same⟩ := Option.map_eq_some_iff.1 read
    cases same
    obtain ⟨ident, text⟩ := name?_sound named
    obtain ⟨before, blanks, gap, -⟩ := skipBlanks_sound e
    refine ⟨ident, before, blanks, ?_⟩
    rw [text, gap, eat?_sound colon, List.append_assoc]
  · cases read

theorem definitions_none (absent : c.definition? = none) : c.definitions = ([], c) := by
  unfold Cursor.definitions
  split
  · rfl
  · next found =>
    rw [absent] at found
    cases found

theorem definitions_some {f : Fragment} (read : c.definition? = some (f, d)) :
    c.definitions = (f :: d.skipBlanks.definitions.1, d.skipBlanks.definitions.2) := by
  rw [Cursor.definitions]
  split
  · next absent =>
    rw [read] at absent
    cases absent
  · next found =>
    rw [read] at found
    cases found
    rfl

theorem definitions_sound (c : Cursor) :
    ∃ text, Defined (c.definitions.1.map Fragment.text) text ∧ c.rest = text ++ c.definitions.2.rest := by
  induction c using Cursor.definitions.induct with
  | case1 c absent =>
    rw [definitions_none absent]
    exact ⟨[], .none, rfl⟩
  | case2 c f d read _ _ _ ih =>
    obtain ⟨rest, defined, later⟩ := ih
    obtain ⟨ident, before, gap, text⟩ := definition?_sound read
    obtain ⟨after, blanks, behind, -⟩ := skipBlanks_sound d
    rw [definitions_some read]
    refine ⟨_, .one ident gap blanks defined, ?_⟩
    rw [text, behind, later]
    simp only [List.append_assoc, List.cons_append]

/-- The literal is the text in front of a cursor, with its value, and the other cursor is behind it. -/
def Heads (c : Cursor) (l : NumberLiteral) (d : Cursor) : Prop :=
  ∃ text tail value, c.rest = text ++ tail ∧ Word.ofLiteral? text = some value ∧
    l = ⟨⟨c.offset, String.ofList text⟩, value⟩ ∧ d = ⟨c.offset + Text.byteLength text, tail⟩

theorem literalOf_found {text tail : List Char} {fail : ErrorTree → Reading NumberLiteral} {l : NumberLiteral}
    (failing : ∀ tree, fail tree ≠ .found l d) (front : c.rest = text ++ tail)
    (read : c.literalOf text fail = .found l d) : Heads c l d := by
  unfold Cursor.literalOf at read
  split at read
  · next value known =>
    cases read
    refine ⟨text, tail, value, front, known, rfl, ?_⟩
    rw [front, List.drop_left]
  · exact absurd read (failing _)

theorem decimalLiteral_found {l : NumberLiteral} (read : c.decimalLiteral = .found l d) : Heads c l d := by
  unfold Cursor.decimalLiteral at read
  split at read
  · cases read
  · refine literalOf_found ?_ List.takeWhile_append_dropWhile.symm read
    intro tree refused
    cases refused

theorem literal_found {l : NumberLiteral} (read : c.literal = .found l d) : Heads c l d := by
  unfold Cursor.literal at read
  split at read
  · next x rest text =>
    split_ifs at read with marker
    · unfold Cursor.hexLiteral at read
      split at read
      · cases read
      · have front : c.rest =
            '0' :: x :: rest.takeWhile (Numeral.isDigit 16) ++ rest.dropWhile (Numeral.isDigit 16) := by
          rw [text, List.cons_append, List.cons_append, List.takeWhile_append_dropWhile]
        refine literalOf_found ?_ front read
        intro tree refused
        cases refused
    · exact decimalLiteral_found read
  · exact decimalLiteral_found read

theorem literal_sound {l : NumberLiteral} (read : c.literal = .found l d) :
    Literal l.spelling.text.toList l.value.toNat ∧ c.rest = l.spelling.text.toList ++ d.rest := by
  obtain ⟨text, tail, value, front, known, rfl, rfl⟩ := literal_found read
  rw [String.toList_ofList]
  exact ⟨ofLiteral?_eq_some.1 known, front⟩

/-- An argument is a literal or a name behind blanks. -/
theorem argument_found {a : Option Argument} (read : c.argument = .ok (a, d)) :
    a = none ∧ d = c ∨ c.rest.head?.any Cursor.isBlank = true ∧
      ((∃ l, a = some (.number l) ∧ c.skipBlanks.literal = .found l d) ∨
        ∃ name, a = some (.label name) ∧ c.skipBlanks.name? = some (name, d)) := by
  unfold Cursor.argument at read
  split_ifs at read with blank
  · split at read
    · next l d' found =>
      cases read
      exact .inr ⟨blank, .inl ⟨l, rfl, found⟩⟩
    · cases read
    · split at read
      · next name d' named =>
        cases read
        exact .inr ⟨blank, .inr ⟨name, rfl, named⟩⟩
      · cases read
        exact .inl ⟨rfl, rfl⟩
  · cases read
    exact .inl ⟨rfl, rfl⟩

theorem argument_sound {a : Option Argument} (read : c.argument = .ok (a, d)) :
    a = none ∧ d = c ∨ ∃ argument between text, a = some argument ∧ between ≠ [] ∧ Blanks between ∧
      Given argument.content text ∧ c.rest = between ++ text ++ d.rest := by
  obtain ⟨between, blanks, behind, nonempty⟩ := skipBlanks_sound c
  rcases argument_found read with none | ⟨blank, ⟨l, rfl, found⟩ | ⟨name, rfl, named⟩⟩
  · exact .inl none
  · obtain ⟨spelled, text⟩ := literal_sound found
    refine .inr ⟨_, between, _, rfl, nonempty blank, blanks, .number spelled, ?_⟩
    rw [behind, text, List.append_assoc]
  · obtain ⟨ident, text⟩ := name?_sound named
    refine .inr ⟨_, between, _, rfl, nonempty blank, blanks, .label ident, ?_⟩
    rw [behind, text, List.append_assoc]

/-- A statement is a mnemonic and what follows it, if there is a mnemonic. -/
theorem statement_found {s : Option Statement} (read : c.statement = .ok (s, d)) :
    s = none ∧ d = c ∨ ∃ mnemonic e a, s = some ⟨mnemonic, a⟩ ∧ c.name? = some (mnemonic, e) ∧
      e.argument = .ok (a, d) := by
  unfold Cursor.statement at read
  split at read
  · cases read
    exact .inl ⟨rfl, rfl⟩
  · next mnemonic e named =>
    cases asked : e.argument with
    | error tree =>
      rw [asked] at read
      cases read
    | ok p =>
      rw [asked] at read
      cases read
      exact .inr ⟨mnemonic, e, p.1, rfl, named, asked⟩

theorem statement_sound {s : Option Statement} (read : c.statement = .ok (s, d)) :
    ∃ text, Stated (s.map Statement.content) text ∧ c.rest = text ++ d.rest := by
  rcases statement_found read with ⟨rfl, rfl⟩ | ⟨mnemonic, e, a, rfl, named, asked⟩
  · exact ⟨[], .none, rfl⟩
  · obtain ⟨ident, text⟩ := name?_sound named
    rcases argument_sound asked with ⟨rfl, rfl⟩ | ⟨argument, between, spelled, rfl, nonempty, blanks, given, behind⟩
    · exact ⟨_, .bare ident, text⟩
    · refine ⟨_, .given ident nonempty blanks given, ?_⟩
      rw [text, behind]
      simp only [List.append_assoc]

theorem comment_sound {text : Option String} (read : c.comment = (text, d)) (whole : d.rest = [])
    (inLine : '\n' ∉ c.rest) : Commented text c.rest := by
  unfold Cursor.comment at read
  split_ifs at read with marked
  · cases read
    obtain ⟨marker, unbroken⟩ := Bool.and_eq_true_iff.1 marked
    have spelled : (String.ofList c.rest).toList = c.rest := String.toList_ofList
    have comment : Commented (some (String.ofList c.rest)) (String.ofList c.rest).toList := by
      cases text : c.rest with
      | nil =>
        rw [text] at marker
        cases marker
      | cons mark rest =>
        rw [text] at marker unbroken inLine
        refine .some String.toList_ofList ?_ fun ch among => ⟨?_, ?_⟩
        · simpa [Cursor.isCommentStart] using marker
        · simpa using List.all_eq_true.1 unbroken ch (List.mem_cons_of_mem mark among)
        · rintro rfl
          exact inLine (List.mem_cons_of_mem mark among)
    rw [spelled] at comment
    exact comment
  · cases read
    rw [whole]
    exact .none

/-- A statement behind the labels, and a comment or nothing behind that. -/
theorem line_eq (c : Cursor) : c.line = c.skipBlanks.definitions.2.statement >>= fun p =>
    if p.2.skipBlanks.comment.2.rest.isEmpty then .ok ⟨c.skipBlanks.definitions.1, p.1, p.2.skipBlanks.comment.1⟩
    else .error p.2.skipBlanks.comment.2.endExpected := rfl

theorem line_eq_ok {l : Line} : c.line = .ok l ↔
    ∃ s e, c.skipBlanks.definitions.2.statement = .ok (s, e) ∧ e.skipBlanks.comment.2.rest = [] ∧
      l = ⟨c.skipBlanks.definitions.1, s, e.skipBlanks.comment.1⟩ := by
  rw [line_eq]
  cases c.skipBlanks.definitions.2.statement with
  | error tree => simp [bind, Except.bind]
  | ok p =>
    obtain ⟨s, e⟩ := p
    simp only [bind, Except.bind, List.isEmpty_iff]
    constructor
    · intro read
      split_ifs at read with whole
      cases read
      exact ⟨s, e, rfl, whole, rfl⟩
    · rintro ⟨s', e', same, whole, rfl⟩
      cases same
      rw [if_pos whole]

/-- A line that is accepted has the form of one. -/
theorem line_sound {l : Line} (inLine : '\n' ∉ c.rest) (read : c.line = .ok l) : Form l.content c.rest := by
  obtain ⟨indent, indented, front, -⟩ := skipBlanks_sound c
  obtain ⟨labels, defined, behind⟩ := definitions_sound c.skipBlanks
  obtain ⟨s, e, asked, whole, rfl⟩ := line_eq_ok.1 read
  obtain ⟨statement, stated, later⟩ := statement_sound asked
  obtain ⟨gap, blanks, last, -⟩ := skipBlanks_sound e
  have text : c.rest = indent ++ labels ++ statement ++ gap ++ e.skipBlanks.rest := by
    rw [front, behind, later, last]
    simp only [List.append_assoc]
  have unbroken : '\n' ∉ e.skipBlanks.rest := fun inside => inLine (text ▸ List.mem_append_right _ inside)
  rw [text]
  exact .intro indented defined stated blanks (comment_sound rfl whole unbroken)

end Gosub.Parsing
