import Gosub.Proofs.Parsing
import Gosub.Proofs.Parsing.Offsets
import Gosub.Proofs.Problems

/-!
# Places in a source

The labels, mnemonics and arguments of a program lie in its source one behind the other, each where its offset says
and within its own line, and the report of an error marks those that the error is about (`spans_faithful`).
-/

namespace Gosub

def Statement.fragments (s : Statement) : List Fragment := s.mnemonic :: (s.argument.map Argument.fragment).toList

/-- The labels of a line, then its mnemonic, then its argument. -/
def Line.fragments (l : Line) : List Fragment := l.labels ++ l.statement.toList.flatMap Statement.fragments

def Program.fragments (p : Program) : List Fragment := p.lines.flatMap Line.fragments

end Gosub

namespace Gosub.Spans

open Gosub.Grammar Gosub.Parsing Gosub.Problems

variable {c d : Cursor} {f : Fragment} {fs gs : List Fragment} {gap : List Char}

/-! ## Fragments in a text -/

/-- The fragments lie one behind the other in the text of a cursor. -/
inductive Lies : Cursor → List Fragment → Prop
  | none {c : Cursor} : Lies c []
  | one {c d : Cursor} {gap : List Char} {f : Fragment} {fs : List Fragment} :
      c.rest = gap ++ f.text.toList ++ d.rest → d.stop = c.stop → f.offset = c.offset + Text.byteLength gap →
      f.text.toList ≠ [] → Lies d fs → Lies c (f :: fs)

/-- What lies behind a gap lies in the whole text. -/
theorem Lies.behind (lies : Lies d fs) (text : c.rest = gap ++ d.rest) (stop : d.stop = c.stop) : Lies c fs := by
  have offset := offset_of_stop stop text
  cases lies with
  | none => exact .none
  | @one _ d' more f fs front stop' place nonempty later =>
    have text' : c.rest = gap ++ more ++ f.text.toList ++ d'.rest := by
      rw [text, front]
      simp only [List.append_assoc]
    refine .one text' (stop'.trans stop) ?_ nonempty later
    rw [place, offset, Text.byteLength_append, Nat.add_assoc]

/-- What lies in a text and what lies in the text behind it lie in both together. -/
theorem Lies.append {tail : List Char} (first : Lies c fs) (second : Lies ⟨c.stop, tail⟩ gs) :
    Lies ⟨c.offset, c.rest ++ tail⟩ (fs ++ gs) := by
  have whole (c : Cursor) : (⟨c.offset, c.rest ++ tail⟩ : Cursor).stop = c.stop + Text.byteLength tail := by
    simp only [Cursor.stop, Text.byteLength_append, Nat.add_assoc]
  induction first with
  | none => exact second.behind rfl (whole _).symm
  | @one c d gap f fs front stop place nonempty _ ih =>
    rw [← stop] at second
    refine .one ?_ ?_ place nonempty (ih second)
    · show c.rest ++ tail = gap ++ f.text.toList ++ (d.rest ++ tail)
      rw [front, List.append_assoc]
    · rw [whole, whole, stop]

/-- Each fragment is where its offset says. -/
theorem Lies.placed (lies : Lies c fs) (member : f ∈ fs) : ∃ front back,
    c.rest = front ++ f.text.toList ++ back ∧ f.offset = c.offset + Text.byteLength front := by
  induction lies with
  | none => cases member
  | @one c d gap g fs front stop place _ _ ih =>
    rcases List.mem_cons.1 member with rfl | later
    · exact ⟨gap, d.rest, front, place⟩
    · obtain ⟨more, back, text, offset⟩ := ih later
      refine ⟨gap ++ g.text.toList ++ more, back, ?_, ?_⟩
      · rw [front, text]
        simp only [List.append_assoc]
      · rw [offset, offset_of_stop stop front, Nat.add_assoc, ← Text.byteLength_append]

/-- One fragment ends before the other begins. -/
def Before (f g : Fragment) : Prop := f.offset < g.offset ∧ f.offset + f.length ≤ g.offset

theorem Lies.ordered (lies : Lies c fs) : fs.Pairwise Before := by
  induction lies with
  | none => exact .nil
  | @one c d gap f fs front stop place nonempty later ih =>
    refine .cons (fun g member => ?_) ih
    obtain ⟨more, -, -, offset⟩ := later.placed member
    have length : 0 < f.length := Text.byteLength_pos nonempty
    have ends : d.offset = f.offset + f.length := by
      rw [offset_of_stop stop front, place, Text.byteLength_append, Nat.add_assoc]
      rfl
    unfold Before
    omega

/-! ## Fragments of a line -/

theorem skipBlanks_lies (lies : Lies c.skipBlanks fs) : Lies c fs := by
  obtain ⟨blanks, -, text, -⟩ := skipBlanks_sound c
  exact lies.behind text (stop_skipBlanks c)

theorem Lies.here (lies : Lies d fs) (text : c.rest = f.text.toList ++ d.rest) (stop : d.stop = c.stop)
    (offset : f.offset = c.offset) (nonempty : f.text.toList ≠ []) : Lies c (f :: fs) := by
  have front : c.rest = [] ++ f.text.toList ++ d.rest := text
  exact .one front stop offset nonempty lies

theorem name?_lies (read : c.name? = some (f, d)) (lies : Lies d fs) : Lies c (f :: fs) := by
  obtain ⟨ident, text⟩ := name?_sound read
  obtain ⟨offset, stop⟩ := stop_name? read
  exact lies.here text stop offset ident.nonempty

theorem definition?_lies (read : c.definition? = some (f, d)) (lies : Lies d fs) : Lies c (f :: fs) := by
  obtain ⟨ident, before, -, text⟩ := definition?_sound read
  obtain ⟨offset, stop⟩ := stop_definition? read
  rw [List.append_assoc] at text
  have moved := stop_moved text
  have behind : Lies ⟨c.offset + Text.byteLength f.text.toList, before ++ ':' :: d.rest⟩ fs :=
    lies.behind (List.append_cons before ':' d.rest) (stop.trans moved.symm)
  exact behind.here text moved offset ident.nonempty

theorem definitions_lies (c : Cursor) (lies : Lies c.definitions.2 fs) : Lies c (c.definitions.1 ++ fs) := by
  induction c using Cursor.definitions.induct with
  | case1 c absent =>
    rw [definitions_none absent] at lies ⊢
    exact lies
  | case2 c f d read _ _ _ ih =>
    rw [definitions_some read] at lies ⊢
    exact definition?_lies read (skipBlanks_lies (ih lies))

theorem literal_lies {l : NumberLiteral} (read : c.literal = .found l d) (lies : Lies d fs) :
    Lies c (l.spelling :: fs) := by
  obtain ⟨spelled, text⟩ := literal_sound read
  obtain ⟨offset, stop⟩ := stop_literal read
  obtain ⟨first, rest, nonempty, -⟩ := head_of_literal spelled
  exact lies.here text stop offset (nonempty ▸ List.cons_ne_nil first rest)

theorem argument_lies {a : Option Argument} (read : c.argument = .ok (a, d)) (lies : Lies d fs) :
    Lies c ((a.map Argument.fragment).toList ++ fs) := by
  rcases argument_found read with ⟨rfl, rfl⟩ | ⟨-, ⟨l, rfl, found⟩ | ⟨name, rfl, named⟩⟩
  · exact lies
  · exact skipBlanks_lies (literal_lies found lies)
  · exact skipBlanks_lies (name?_lies named lies)

theorem statement_lies {s : Option Statement} (read : c.statement = .ok (s, d)) (lies : Lies d fs) :
    Lies c (s.toList.flatMap Statement.fragments ++ fs) := by
  rcases statement_found read with ⟨rfl, rfl⟩ | ⟨mnemonic, e, a, rfl, named, asked⟩
  · exact lies
  · have whole : (some (Statement.mk mnemonic a)).toList.flatMap Statement.fragments ++ fs =
        mnemonic :: ((a.map Argument.fragment).toList ++ fs) := by
      simp [Statement.fragments]
    rw [whole]
    exact name?_lies named (argument_lies asked lies)

/-- The fragments of a line lie in it. -/
theorem line_lies {l : Line} (read : c.line = .ok l) : Lies c l.fragments := by
  obtain ⟨s, e, asked, -, rfl⟩ := line_eq_ok.1 read
  have stated := statement_lies asked .none
  rw [List.append_nil] at stated
  exact skipBlanks_lies (definitions_lies c.skipBlanks stated)

/-- Those of all lines lie in the text. -/
theorem lines_lie {offset : Nat} {text : List Char} {lines : List Line}
    (read : List.Forall₂ (fun c l => c.line = .ok l) (linesFrom offset text) lines) :
    Lies ⟨offset, text⟩ (lines.flatMap Line.fragments) := by
  induction text using lines_induction generalizing offset lines with
  | last text inLine =>
    rw [linesFrom_last inLine] at read
    obtain ⟨l, rest, first, others, rfl⟩ := List.forall₂_cons_left_iff.1 read
    obtain rfl := List.forall₂_nil_left_iff.1 others
    rw [List.flatMap_singleton]
    exact line_lies first
  | more line rest inLine ih =>
    rw [linesFrom_append inLine] at read
    obtain ⟨l, others, first, later, rfl⟩ := List.forall₂_cons_left_iff.1 read
    have here := line_lies first
    have behind := ih later
    obtain ⟨ending, split, -⟩ := dropCarriageReturn_split line
    have text : line ++ '\n' :: rest = dropCarriageReturn line ++ (ending ++ ['\n'] ++ rest) := by
      conv_lhs => rw [split]
      simp only [List.append_assoc, List.singleton_append]
    rw [List.flatMap_cons, text]
    -- The ending of the line belongs to the gap in front of what the next lines have.
    refine here.append (behind.behind rfl ?_)
    have length := congrArg Text.byteLength text
    rw [byteLength_feed, Text.byteLength_append] at length
    unfold Cursor.stop
    simp only
    omega

/-! ## Programs -/

/-- This text is at that many bytes of the whole, and takes so many. -/
def Spelled (whole : List Char) (offset length : Nat) (text : List Char) : Prop :=
  ∃ front back, whole = front ++ text ++ back ∧ offset = Text.byteLength front ∧ length = Text.byteLength text

section Source

variable {source : String} {p : Program}

theorem lies_of_parse (read : Program.parse source = .ok p) : Lies ⟨0, source.toList⟩ p.fragments :=
  lines_lie (mapM_line_eq_ok.1 (parse_eq_ok.1 read))

theorem spelled_of_parse (read : Program.parse source = .ok p) (member : f ∈ p.fragments) :
    Spelled source.toList f.offset f.length f.text.toList := by
  obtain ⟨front, back, text, offset⟩ := (lies_of_parse read).placed member
  exact ⟨front, back, text, offset.trans (Nat.zero_add _), rfl⟩

/-- What a line of the program is made of is in that line of the source. -/
theorem line_of_parse {i : Nat} {l : Line} (read : Program.parse source = .ok p) (listed : p.lines[i]? = some l) :
    ∃ before line behind, LineAt source.toList i before line behind ∧
      ∀ f ∈ l.fragments, Text.byteLength before ≤ f.offset ∧
        f.offset + f.length ≤ Text.byteLength before + Text.byteLength line := by
  have lines := mapM_line_eq_ok.1 (parse_eq_ok.1 read)
  obtain ⟨inside, rfl⟩ := List.getElem?_eq_some_iff.1 listed
  have inside' : i < (linesFrom 0 source.toList).length := lines.length_eq ▸ inside
  obtain ⟨before, behind, found, offset⟩ := linesFrom_getElem?.1 (List.getElem?_eq_getElem inside')
  have here : ((linesFrom 0 source.toList)[i]).line = .ok p.lines[i] := lines.get inside' inside
  refine ⟨before, _, behind, found, fun f member => ?_⟩
  obtain ⟨front, back, text, place⟩ := (line_lies here).placed member
  have length : f.length = Text.byteLength f.text.toList := rfl
  rw [place, offset, length, text, Text.byteLength_append, Text.byteLength_append]
  omega

end Source

/-! ## Errors -/

/-- What the marks of an error are on. -/
def subjects : CompileError → List Fragment
  | .unknownMnemonic m => [m]
  | .duplicateLabel l first => [l, first]
  | .unknownLabel l => [l]
  | .unexpectedArgument _ a => [a]
  | .missingArgument m => [m]
  | .literalTooLarge _ _ a => [a]

/-- Which part of a program an error is about, and so what its marks should be on. -/
inductive Concerns (items : List Item) : CompileError → Prop
  | unknownMnemonic {s : Statement} : .statement s ∈ items → Concerns items (.unknownMnemonic s.mnemonic)
  | duplicateLabel {before after : List Item} {l first : Fragment} : items = before ++ .label l :: after →
      .label first ∈ before → first.text = l.text → Concerns items (.duplicateLabel l first)
  | unknownLabel {s : Statement} {l : Fragment} : .statement s ∈ items → s.argument = some (.label l) →
      Concerns items (.unknownLabel l)
  | unexpectedArgument {s : Statement} {a : Argument} : .statement s ∈ items → s.argument = some a →
      Concerns items (.unexpectedArgument s.mnemonic a.fragment)
  | missingArgument {s : Statement} : .statement s ∈ items → s.argument = none →
      Concerns items (.missingArgument s.mnemonic)
  | literalTooLarge {s : Statement} {a : Argument} {value : Word} {w : Nat} : .statement s ∈ items →
      s.argument = some a → Stands items a value → Concerns items (.literalTooLarge value w a.fragment)

section Errors

variable {items before after : List Item} {s : Statement} {p : Program} {e : CompileError}

theorem concerns_of_misused (member : .statement s ∈ items) (misused : Misused s e) : Concerns items e := by
  cases misused with
  | unknown _ _ => exact .unknownMnemonic member
  | missing _ none => exact .missingArgument member none
  | unexpected _ _ given => exact .unexpectedArgument member given

theorem concerns_of_mislaid {item : Item} (split : items = before ++ item :: after) (mislaid : Mislaid before item e) :
    Concerns items e := by
  cases mislaid with
  | @duplicate name first found =>
    have named : first.text = name.text := by simpa using List.find?_some found
    exact .duplicateLabel split (mem_labelsIn.1 (List.mem_of_find?_eq_some found)) named
  | misused misused => exact concerns_of_misused (split ▸ List.mem_append_cons_self) misused

theorem concerns_of_unfit (member : .statement s ∈ items) (unfit : Unfit items s e) : Concerns items e := by
  cases unfit with
  | unknown _ labelled _ => exact .unknownLabel member labelled
  | large _ given _ stands _ => exact .literalTooLarge member given stands

theorem concerns_of_compile (failed : p.compile = .error e) : Concerns p.items e := by
  rcases (compile_fails p e).1 failed with ⟨before, item, after, split, mislaid, -⟩ |
    ⟨-, before, item, after, split, ⟨s, rfl, unfit⟩, -⟩
  · exact concerns_of_mislaid split mislaid
  · exact concerns_of_unfit (split ▸ List.mem_append_cons_self) unfit

theorem label_mem_fragments (member : .label f ∈ p.items) : f ∈ p.fragments := by
  obtain ⟨l, listed, among⟩ := List.mem_flatMap.1 member
  refine List.mem_flatMap.2 ⟨l, listed, List.mem_append_left _ ?_⟩
  simpa [Line.items] using among

theorem statement_mem_fragments (member : .statement s ∈ p.items) (part : f ∈ s.fragments) : f ∈ p.fragments := by
  obtain ⟨l, listed, among⟩ := List.mem_flatMap.1 member
  refine List.mem_flatMap.2 ⟨l, listed, List.mem_append_right _ (List.mem_flatMap.2 ⟨s, ?_, part⟩)⟩
  simpa [Line.items] using among

theorem argument_mem_fragments {a : Argument} (given : s.argument = some a) : a.fragment ∈ s.fragments := by
  rw [Statement.fragments, given]
  exact List.mem_cons_of_mem _ List.mem_cons_self

/-- The marks are on parts of the program. -/
theorem subjects_mem (concerns : Concerns p.items e) : ∀ f ∈ subjects e, f ∈ p.fragments := by
  cases concerns with
  | unknownMnemonic member | missingArgument member _ =>
    exact List.forall_mem_singleton.2 (statement_mem_fragments member List.mem_cons_self)
  | unknownLabel member given | unexpectedArgument member given | literalTooLarge member given _ =>
    exact List.forall_mem_singleton.2 (statement_mem_fragments member (argument_mem_fragments given))
  | @duplicateLabel before after l first split earlier _ =>
    have defined : Item.label l ∈ p.items := split ▸ List.mem_append_cons_self
    have earlier : Item.label first ∈ p.items := split ▸ List.mem_append_left _ earlier
    refine List.forall_mem_cons.2 ⟨label_mem_fragments defined, List.forall_mem_singleton.2 ?_⟩
    exact label_mem_fragments earlier

theorem marks_subjects (e : CompileError) :
    List.Forall₂ (fun f (mark : Mark) => mark.offset = f.offset ∧ mark.length = f.length) (subjects e) e.marks := by
  cases e <;> simp [CompileError.marks, CompileError.markOn, subjects]

end Errors

/-- The places in a program are those where its source has the texts. -/
structure Faithful (source : String) (p : Program) : Prop where
  spelled : ∀ f ∈ p.fragments, Spelled source.toList f.offset f.length f.text.toList
  ordered : p.fragments.Pairwise Before
  within : ∀ i l, p.lines[i]? = some l → ∃ before line behind, LineAt source.toList i before line behind ∧
    ∀ f ∈ l.fragments, Text.byteLength before ≤ f.offset ∧
      f.offset + f.length ≤ Text.byteLength before + Text.byteLength line
  /-- An error is about parts of the program, and marks them. -/
  marked : ∀ e, p.compile = .error e → Concerns p.items e ∧ List.Forall₂
    (fun f (mark : Mark) => f ∈ p.fragments ∧ mark.offset = f.offset ∧ mark.length = f.length)
    (subjects e) e.diagnostic.marks

theorem spans_faithful {source : String} {p : Program} (read : Program.parse source = .ok p) : Faithful source p := by
  refine ⟨fun f => spelled_of_parse read, (lies_of_parse read).ordered, fun i l => line_of_parse read,
    fun e failed => ?_⟩
  have concerns := concerns_of_compile failed
  exact ⟨concerns, (List.forall₂_and_left _ _).2 ⟨subjects_mem concerns, marks_subjects e⟩⟩

/-- The second `a` is marked behind the two bytes of the accent, not the first, and not the argument of the push. -/
theorem redefined_faithful : ∃ p, Program.parse "a: push a ;é\na:" = .ok p ∧
    p.compile = .error (.duplicateLabel ⟨14, "a"⟩ ⟨0, "a"⟩) ∧ Faithful "a: push a ;é\na:" p := by
  have read : Program.parse "a: push a ;é\na:" =
      .ok ⟨[⟨[⟨0, "a"⟩], some ⟨⟨3, "push"⟩, some (.label ⟨8, "a"⟩)⟩, some ";é"⟩, ⟨[⟨14, "a"⟩], none, none⟩]⟩ := by
    with_unfolding_all rfl
  exact ⟨_, read, by decide +kernel, spans_faithful read⟩

end Gosub.Spans
