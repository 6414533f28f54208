import Gosub.Assembly.Line
import Mathlib.Data.List.Forall2
import Mathlib.Data.Nat.Digits.Defs
import Mathlib.Tactic.IntervalCases

/-!
# The grammar of a source

A source is a row of lines, and each line has the form

    ws* (ident ws* ':' ws*)* [ident [ws+ arg]] ws* [comment]

(`Form`). The grammar is told of texts and of what they say. That names, numbers and literals are read as the
grammar has them is shown here; the reader of lines is another matter.
-/

namespace Gosub

/-- What a statement is given, without its place. -/
inductive Argument.Content where
  | number (spelling : String) (value : Word)
  | label (name : String)

/-- What a line says, without the places. -/
structure Line.Content where
  labels : List String
  /-- A mnemonic and maybe an argument. -/
  statement : Option (String × Option Argument.Content)
  comment : Option String

def Argument.content : Argument → Argument.Content
  | number literal => .number literal.spelling.text literal.value
  | label name => .label name.text

def Statement.content (s : Statement) : String × Option Argument.Content :=
  (s.mnemonic.text, s.argument.map Argument.content)

def Line.content (l : Line) : Line.Content where
  labels := l.labels.map Fragment.text
  statement := l.statement.map Statement.content
  comment := l.comment

end Gosub

namespace Gosub.Grammar

/-! ## Forms -/

/-- Spaces and tabs, or nothing. -/
def Blanks (text : List Char) : Prop := ∀ ch ∈ text, ch = ' ' ∨ ch = '\t'

def Letter (ch : Char) : Prop := ('a' ≤ ch ∧ ch ≤ 'z') ∨ ('A' ≤ ch ∧ ch ≤ 'Z')

def Digit (ch : Char) : Prop := '0' ≤ ch ∧ ch ≤ '9'

structure Ident (text : List Char) : Prop where
  nonempty : text ≠ []
  chars : ∀ ch ∈ text, Letter ch ∨ Digit ch ∨ ch = '_' ∨ ch = '.'
  start : ∀ ch ∈ text.head?, ¬ Digit ch

/-- The character is the digit for `d`, in either case. -/
def Writes (ch : Char) (d : Nat) : Prop := ch = Nat.digitChar d ∨ ch = (Nat.digitChar d).toUpper

/-- A run of digits that stands for `n`. -/
def Denotes (base : Nat) (text : List Char) (n : Nat) : Prop :=
  text ≠ [] ∧ ∃ digits, List.Forall₂ Writes text digits ∧ (∀ d ∈ digits, d < base) ∧
    n = Nat.ofDigits base digits.reverse

inductive Literal : List Char → Nat → Prop
  | decimal {text : List Char} {n : Nat} : Denotes 10 text n → Literal text n
  | hexadecimal {x : Char} {digits : List Char} {n : Nat} : x = 'x' ∨ x = 'X' → Denotes 16 digits n →
      Literal ('0' :: x :: digits) n

/-- The text begins with the marker of a hexadecimal literal. -/
def Marked (text : List Char) : Prop := ∃ x rest, text = '0' :: x :: rest ∧ (x = 'x' ∨ x = 'X')

/-- The value of a number fits in a word. -/
inductive Given : Argument.Content → List Char → Prop
  | number {spelling : String} {value : Word} : Literal spelling.toList value.toNat →
      Given (.number spelling value) spelling.toList
  | label {name : String} : Ident name.toList → Given (.label name) name.toList

inductive Defined : List String → List Char → Prop
  | none : Defined [] []
  | one {name : String} {names : List String} {before after rest : List Char} : Ident name.toList →
      Blanks before → Blanks after → Defined names rest →
      Defined (name :: names) (name.toList ++ before ++ ':' :: (after ++ rest))

inductive Stated : Option (String × Option Argument.Content) → List Char → Prop
  | none : Stated none []
  | bare {mnemonic : String} : Ident mnemonic.toList → Stated (some (mnemonic, Option.none)) mnemonic.toList
  | given {mnemonic : String} {argument : Argument.Content} {between text : List Char} : Ident mnemonic.toList →
      between ≠ [] → Blanks between → Given argument text →
      Stated (some (mnemonic, some argument)) (mnemonic.toList ++ between ++ text)

inductive Commented : Option String → List Char → Prop
  | none : Commented none []
  | some {comment : String} {mark : Char} {text : List Char} : comment.toList = mark :: text →
      mark = ';' ∨ mark = '#' → (∀ ch ∈ text, ch ≠ '\r' ∧ ch ≠ '\n') → Commented (some comment) comment.toList

/-- The text is a line, and this is what it says. -/
inductive Form (content : Line.Content) : List Char → Prop
  | intro {indent labels statement gap comment : List Char} : Blanks indent → Defined content.labels labels →
      Stated content.statement statement → Blanks gap → Commented content.comment comment →
      Form content (indent ++ labels ++ statement ++ gap ++ comment)

/-- The text split at each line feed, without the carriage return that may precede it. -/
def sourceLines (text : List Char) : List (List Char) :=
  let pieces := text.splitOn '\n'
  pieces.dropLast.map dropCarriageReturn ++ pieces.getLast?.toList

example : sourceLines "a\r\r\nb\n\r".toList = ["a\r".toList, "b".toList, "\r".toList] := by decide

/-! ## Blanks -/

theorem blanks_nil : Blanks [] := List.forall_mem_nil _

theorem blanks_space : Blanks [' '] := List.forall_mem_singleton.2 (.inl rfl)

/-! ## Names -/

theorem isBlank_iff {ch : Char} : Cursor.isBlank ch = true ↔ ch = ' ' ∨ ch = '\t' := by
  simp [Cursor.isBlank]

theorem Blanks.all {text : List Char} (blanks : Blanks text) : ∀ ch ∈ text, Cursor.isBlank ch = true :=
  fun ch among => isBlank_iff.2 (blanks ch among)

theorem isNameStart_iff {ch : Char} : Cursor.isNameStart ch = true ↔ Letter ch ∨ ch = '_' ∨ ch = '.' := by
  have upper : ch.isUpper = true ↔ 'A' ≤ ch ∧ ch ≤ 'Z' := decide_eq_true_iff
  have lower : ch.isLower = true ↔ 'a' ≤ ch ∧ ch ≤ 'z' := by
    show (decide ('a' ≤ ch) && decide (ch ≤ 'z')) = true ↔ _
    rw [Bool.and_eq_true, decide_eq_true_iff, decide_eq_true_iff]
  have alpha : ch.isAlpha = true ↔ Letter ch := by
    show (ch.isUpper || ch.isLower) = true ↔ _
    rw [Bool.or_eq_true, upper, lower]
    exact or_comm
  rw [← alpha]
  simp only [Cursor.isNameStart, Bool.or_eq_true, decide_eq_true_eq]
  tauto

theorem char_isDigit_iff {ch : Char} : ch.isDigit = true ↔ Digit ch := by
  simp [Char.isDigit, Digit, Char.le_def]

theorem isNameChar_iff {ch : Char} :
    Cursor.isNameChar ch = true ↔ Letter ch ∨ Digit ch ∨ ch = '_' ∨ ch = '.' := by
  rw [Cursor.isNameChar, Bool.or_eq_true, isNameStart_iff, char_isDigit_iff]
  tauto

theorem not_digit_of_isNameStart {ch : Char} (start : Cursor.isNameStart ch = true) : ¬ Digit ch := by
  intro digit
  simp only [isNameStart_iff, Letter, Digit, Char.le_def, UInt32.le_iff_toNat_le] at start digit
  rcases start with (letter | letter) | rfl | rfl
  · exact absurd (letter.1.trans digit.2) (by decide)
  · exact absurd (letter.1.trans digit.2) (by decide)
  · exact absurd digit (by decide)
  · exact absurd digit (by decide)

/-- A name begins with any of its characters but a digit. -/
theorem ident_iff {text : List Char} :
    Ident text ↔ (∃ first rest, text = first :: rest ∧ Cursor.isNameStart first = true) ∧
      ∀ ch ∈ text, Cursor.isNameChar ch = true := by
  constructor
  · rintro ⟨nonempty, chars, start⟩
    obtain ⟨first, rest, rfl⟩ := List.exists_cons_of_ne_nil nonempty
    have noDigit : ¬ Digit first := start first rfl
    have member := chars first List.mem_cons_self
    refine ⟨⟨first, rest, rfl, isNameStart_iff.2 ?_⟩, fun ch among => isNameChar_iff.2 (chars ch among)⟩
    exact member.imp_right fun other => other.resolve_left noDigit
  · rintro ⟨⟨first, rest, rfl, start⟩, chars⟩
    refine ⟨List.cons_ne_nil first rest, fun ch among => isNameChar_iff.1 (chars ch among), ?_⟩
    rintro ch ⟨⟩
    exact not_digit_of_isNameStart start

/-! ## Numbers -/

theorem digitValue_of_writes {ch : Char} {d : Nat} (small : d < 16) (writes : Writes ch d) :
    Numeral.digitValue ch = d := by
  rcases writes with rfl | rfl
  · interval_cases d <;> rfl
  · interval_cases d <;> rfl

theorem writes_digitValue {ch : Char} (digit : Numeral.digitValue ch < 16) : Writes ch (Numeral.digitValue ch) := by
  obtain ⟨n, known⟩ : ∃ n, ch.toNat = n := ⟨_, rfl⟩
  have same : ch = Char.ofNat n := by rw [← known, Char.ofNat_toNat]
  have range {first last : Char} (inside : first ≤ ch ∧ ch ≤ last) : first.toNat ≤ n ∧ n ≤ last.toNat :=
    known ▸ inside
  unfold Numeral.digitValue at digit ⊢
  rw [known] at digit ⊢
  split_ifs at digit ⊢ with decimal lower upper
  · obtain ⟨least, most⟩ : 48 ≤ n ∧ n ≤ 57 := range decimal
    rw [same]
    refine .inl ?_
    interval_cases n <;> rfl
  · obtain ⟨least, most⟩ : 97 ≤ n ∧ n ≤ 102 := range lower
    rw [same]
    refine .inl ?_
    interval_cases n <;> rfl
  · obtain ⟨least, most⟩ : 65 ≤ n ∧ n ≤ 70 := range upper
    rw [same]
    refine .inr ?_
    interval_cases n <;> rfl
  · exact absurd digit (by decide)

theorem map_digitValue {text : List Char} {digits : List Nat} (writes : List.Forall₂ Writes text digits)
    (small : ∀ d ∈ digits, d < 16) : text.map Numeral.digitValue = digits := by
  induction writes with
  | nil => rfl
  | cons first _ ih =>
    obtain ⟨here, later⟩ := List.forall_mem_cons.1 small
    rw [List.map_cons, digitValue_of_writes here first, ih later]

theorem isDigit_iff {base : Nat} {ch : Char} : Numeral.isDigit base ch = true ↔ Numeral.digitValue ch < base := by
  rw [Numeral.isDigit, decide_eq_true_eq]

/-- A digit of the base, in either case. -/
def DigitOf (base : Nat) (ch : Char) : Prop := ∃ d < base, Writes ch d

theorem isDigit_iff_digitOf {base : Nat} {ch : Char} (small : base ≤ 16) :
    Numeral.isDigit base ch = true ↔ DigitOf base ch := by
  rw [isDigit_iff]
  constructor
  · intro below
    exact ⟨_, below, writes_digitValue (below.trans_le small)⟩
  · rintro ⟨d, below, writes⟩
    rwa [digitValue_of_writes (below.trans_le small) writes]

theorem digit_of_isDigit {ch : Char} (member : Numeral.isDigit 10 ch = true) : Digit ch := by
  rw [isDigit_iff, Numeral.digitValue] at member
  split_ifs at member with decimal lower upper
  · exact decimal
  · omega
  · omega
  · omega

theorem value_eq_ofDigits (base : Nat) (text : List Char) :
    Numeral.value base text = Nat.ofDigits base (text.map Numeral.digitValue).reverse := by
  rw [Nat.ofDigits_eq_foldr, List.foldr_reverse, List.foldl_map, Numeral.value]
  simp only [Nat.cast_id, Nat.add_comm]

/-- Reading a run of digits gives what it stands for. -/
theorem read?_eq_some {base n : Nat} {text : List Char} (small : base ≤ 16) :
    Numeral.read? base text = some n ↔ Denotes base text n := by
  unfold Numeral.read?
  constructor
  · intro read
    split_ifs at read with digits
    obtain ⟨nonempty, digits⟩ := digits
    cases read
    have below (ch : Char) (among : ch ∈ text) : Numeral.digitValue ch < base :=
      isDigit_iff.1 (List.all_eq_true.1 digits ch among)
    refine ⟨nonempty, text.map Numeral.digitValue, ?_, ?_, value_eq_ofDigits base text⟩
    · refine List.forall₂_map_right_iff.2 (List.forall₂_same.2 fun ch among => ?_)
      exact writes_digitValue ((below ch among).trans_le small)
    · intro d among
      obtain ⟨ch, source, rfl⟩ := List.mem_map.1 among
      exact below ch source
  · rintro ⟨nonempty, digits, writes, below, rfl⟩
    obtain rfl : text.map Numeral.digitValue = digits :=
      map_digitValue writes fun d among => (below d among).trans_le small
    have digits : text.all (Numeral.isDigit base) = true :=
      List.all_eq_true.2 fun ch among => isDigit_iff.2 (below _ (List.mem_map_of_mem among))
    rw [if_pos ⟨nonempty, digits⟩, value_eq_ofDigits]

/-- What is written of a number stands for it. -/
theorem denotes_write {base : Nat} (two : 1 < base) (small : base ≤ 16) (n : Nat) :
    Denotes base (Numeral.write base n) n := by
  unfold Numeral.write
  induction n using Nat.strongRecOn with
  | ind n ih =>
    by_cases single : n < base
    · rw [Nat.toDigits_of_lt_base single]
      refine ⟨List.cons_ne_nil _ _, [n], .cons (.inl rfl) .nil, ?_, ?_⟩
      · simpa using single
      · simp
    · have shorter : n / base < n := Nat.div_lt_self (by omega) two
      have last : n % base < base := Nat.mod_lt n (by omega)
      obtain ⟨-, digits, writes, below, value⟩ := ih (n / base) shorter
      rw [Nat.toDigits_of_base_le two (Nat.not_lt.1 single)]
      refine ⟨by simp, digits ++ [n % base], List.rel_append writes (.cons (.inl rfl) .nil), ?_, ?_⟩
      · intro d among
        rcases List.mem_append.1 among with front | final
        · exact below d front
        · rw [List.mem_singleton.1 final]
          exact last
      · rw [List.reverse_append, List.reverse_singleton, List.singleton_append, Nat.ofDigits_cons, ← value]
        exact (Nat.mod_add_div n base).symm

theorem Denotes.digits {base n : Nat} {text : List Char} (small : base ≤ 16) (denotes : Denotes base text n) :
    text ≠ [] ∧ ∀ ch ∈ text, Numeral.isDigit base ch = true := by
  have read := (read?_eq_some small).2 denotes
  rw [Numeral.read?] at read
  split_ifs at read with digits
  exact ⟨digits.1, List.all_eq_true.1 digits.2⟩

theorem Denotes.value {base n : Nat} {text : List Char} (small : base ≤ 16) (denotes : Denotes base text n) :
    Numeral.value base text = n := by
  have read := (read?_eq_some small).2 denotes
  rw [Numeral.read?] at read
  split_ifs at read
  exact Option.some.inj read

/-- A run of digits holds no other character. -/
theorem not_denotes {base n : Nat} {text : List Char} {ch : Char} (small : base ≤ 16) (among : ch ∈ text)
    (other : Numeral.isDigit base ch = false) : ¬ Denotes base text n :=
  fun denotes => Bool.eq_false_iff.1 other ((denotes.digits small).2 ch among)

theorem not_denotes_marker {x : Char} {digits : List Char} {n : Nat} (marker : x = 'x' ∨ x = 'X') :
    ¬ Denotes 10 ('0' :: x :: digits) n := by
  have among : x ∈ '0' :: x :: digits := List.mem_cons_of_mem _ List.mem_cons_self
  refine not_denotes (by decide) among ?_
  rcases marker with rfl | rfl <;> decide

theorem literalValue?_eq_some {text : List Char} {n : Nat} : Word.literalValue? text = some n ↔ Literal text n := by
  have decimal (text : List Char) : Numeral.read? 10 text = some n ↔ Denotes 10 text n := read?_eq_some (by decide)
  have hexadecimal (text : List Char) : Numeral.read? 16 text = some n ↔ Denotes 16 text n := read?_eq_some le_rfl
  constructor
  · intro read
    unfold Word.literalValue? at read
    split at read
    · split_ifs at read with marker
      · exact .hexadecimal marker ((hexadecimal _).1 read)
      · exact .decimal ((decimal _).1 read)
    · exact .decimal ((decimal _).1 read)
  · rintro (denotes | ⟨marker, denotes⟩)
    · unfold Word.literalValue?
      split
      · rw [if_neg fun marker => not_denotes_marker marker denotes]
        exact (decimal _).2 denotes
      · exact (decimal _).2 denotes
    · rw [Word.literalValue?, if_pos marker]
      exact (hexadecimal _).2 denotes

theorem ofNat?_eq_some {n : Nat} {w : Word} : Word.ofNat? n = some w ↔ n = w.toNat := by
  unfold Word.ofNat?
  constructor
  · intro fits
    split_ifs at fits with same
    cases fits
    exact same.symm
  · rintro rfl
    have same : Word.ofNat w.toNat = w := by rw [Word.ofNat, BitVec.ofNat_toNat, BitVec.setWidth_eq]
    rw [same, if_pos rfl]

theorem ofLiteral?_eq_some {text : List Char} {w : Word} :
    Word.ofLiteral? text = some w ↔ Literal text w.toNat := by
  rw [Word.ofLiteral?, Option.bind_eq_bind, Option.bind_eq_some_iff]
  simp only [literalValue?_eq_some, ofNat?_eq_some]
  constructor
  · rintro ⟨n, spelled, rfl⟩
    exact spelled
  · exact fun spelled => ⟨_, spelled, rfl⟩

end Gosub.Grammar
