import Gosub.Proofs.Disassembly
import Gosub.Proofs.HexText
import Mathlib.Data.Nat.Digits.Defs
import Mathlib.Tactic.Tauto

/-!
# Literals

A word is read from each of its literals, and written as the shortest hexadecimal one (`literals_exact`). The reader of
a source takes the longest literal in front of a text, and means by it what reading it by itself means; where the
longest is none of a word, it takes no shorter one (`readers_agree`).
-/

namespace Gosub.Literals

open Gosub.Grammar Gosub.Parsing

variable {c d : Cursor} {l : NumberLiteral} {w : Word} {text lit rest tail : List Char} {n : Nat}

/-! ## Words -/

theorem read_eq_ok {text : String} : Word.read text = .ok w ↔ Literal text.toList w.toNat := by
  rw [← ofLiteral?_eq_some, Word.read]
  cases Word.ofLiteral? text.toList <;> simp

theorem literal_unique {m : Nat} (spelled : Literal text m) (again : Literal text n) : m = n := by
  rw [← literalValue?_eq_some] at spelled again
  exact Option.some.inj (spelled.symm.trans again)

theorem read_eq_error {text : String} {e : Word.LiteralError} :
    Word.read text = .error e ↔ e = ⟨text⟩ ∧ ∀ w : Word, ¬ Literal text.toList w.toNat := by
  simp only [← ofLiteral?_eq_some, Word.read]
  cases Word.ofLiteral? text.toList with
  | none => simp [eq_comm]
  | some w => simp

theorem toNat_ofNat (small : n < 2 ^ 256) : (Word.ofNat n).toNat = n := by
  rw [Word.ofNat, BitVec.toNat_ofNat]
  exact Nat.mod_eq_of_lt small

/-- The digits of a number in lower case, and no more zeros than zero needs. -/
structure Shortest (n : Nat) (text : List Char) : Prop where
  denotes : Denotes 16 text n
  lower : ∀ ch ∈ text, ∃ d < 16, ch = Nat.digitChar d
  leading : text.head? = some '0' → text = ['0']

theorem denotes_zero (denotes : Denotes 16 ['0'] n) : n = 0 := by
  rw [← denotes.value le_rfl]
  rfl

theorem shortest_write (n : Nat) : Shortest n (Numeral.write 16 n) := by
  induction n using Nat.strongRecOn with
  | ind n ih =>
    have denotes : Denotes 16 (Numeral.write 16 n) n := denotes_write (by decide) le_rfl n
    by_cases single : n < 16
    · have written : Numeral.write 16 n = [Nat.digitChar n] := Nat.toDigits_of_lt_base single
      refine ⟨denotes, ?_, ?_⟩
      · rw [written]
        simpa using ⟨n, single, rfl⟩
      · rw [written]
        simp
    · have written : Numeral.write 16 n = Numeral.write 16 (n / 16) ++ [Nat.digitChar (n % 16)] :=
        Nat.toDigits_of_base_le (by decide) (Nat.not_lt.1 single)
      obtain ⟨front, lower, leading⟩ := ih (n / 16) (by omega)
      refine ⟨denotes, ?_, ?_⟩
      · rw [written, List.forall_mem_append]
        exact ⟨lower, by simpa using ⟨n % 16, by omega, rfl⟩⟩
      · -- A zero in front would be all that is written of a quotient which is none.
        rw [written, List.head?_append_of_ne_nil _ front.1]
        intro first
        rw [leading first] at front
        have := denotes_zero front
        omega

/-- The digits of a number, the last of them first, are those that its shortest text has. -/
theorem Shortest.eq (short : Shortest n text) :
    text = if n = 0 then ['0'] else (Nat.digits 16 n).reverse.map Nat.digitChar := by
  obtain ⟨denotes, lower, leading⟩ := short
  have value : n = Nat.ofDigits 16 (text.map Numeral.digitValue).reverse := by
    rw [← value_eq_ofDigits, denotes.value le_rfl]
  have digitValue (ch : Char) (among : ch ∈ text) :
      Numeral.digitValue ch < 16 ∧ Nat.digitChar (Numeral.digitValue ch) = ch := by
    obtain ⟨d, small, rfl⟩ := lower ch among
    rw [digitValue_of_writes small (.inl rfl)]
    exact ⟨small, rfl⟩
  have chars : (text.map Numeral.digitValue).map Nat.digitChar = text := by
    rw [List.map_map]
    exact (List.map_congr_left fun ch among => (digitValue ch among).2).trans (List.map_id text)
  obtain ⟨first, rest, rfl⟩ := List.exists_cons_of_ne_nil denotes.1
  by_cases zero : first = '0'
  · rw [leading (by simp [zero])] at denotes ⊢
    rw [if_pos (denotes_zero denotes)]
  · have digits : Nat.digits 16 n = ((first :: rest).map Numeral.digitValue).reverse := by
      rw [value]
      refine Nat.digits_ofDigits 16 (by decide) _ ?_ ?_
      · intro d among
        obtain ⟨ch, source, rfl⟩ := List.mem_map.1 (List.mem_reverse.1 among)
        exact (digitValue ch source).1
      · intro _ last
        have last : Numeral.digitValue first = 0 := by simpa using last
        have same := (digitValue first List.mem_cons_self).2
        rw [last] at same
        exact zero same.symm
    have positive : n ≠ 0 := by
      rintro rfl
      simp at digits
    rw [if_neg positive, digits, List.reverse_reverse, chars]

/-- How words and their texts stand to each other. -/
structure Exact : Prop where
  accepted : ∀ text, (∃ w, Word.read text = .ok w) ↔ ∃ n < 2 ^ 256, Literal text.toList n
  read : ∀ text w, Word.read text = .ok w ↔ Literal text.toList w.toNat
  written : ∀ (w : Word) (text : String),
    w.render = text ↔ ∃ digits, text.toList = '0' :: 'x' :: digits ∧ Shortest w.toNat digits
  back : ∀ w : Word, Word.read w.render = .ok w

/-- A text is read just when it is a literal of a number that fits, for this number. What is written of a word is the
shortest of its hexadecimal literals, and is read back. -/
theorem literals_exact : Exact where
  accepted text := by
    simp only [read_eq_ok]
    constructor
    · rintro ⟨w, spelled⟩
      exact ⟨w.toNat, w.isLt, spelled⟩
    · rintro ⟨n, small, spelled⟩
      exact ⟨.ofNat n, (toNat_ofNat small).symm ▸ spelled⟩
  read _ _ := read_eq_ok
  written w text := by
    have short := shortest_write w.toNat
    constructor
    · rintro rfl
      exact ⟨_, Disassembly.toList_render w, short⟩
    · rintro ⟨digits, whole, other⟩
      rw [other.eq, ← short.eq, ← Disassembly.toList_render] at whole
      exact (String.toList_inj.1 whole).symm
  back w := read_eq_ok.2 (Disassembly.literal_render w)

example : Word.read "0X00fF" = .ok 255 := by decide +kernel

/-! ## Literals in front of a text -/

/-- The base of a literal, sixteen behind a marker. -/
def base : List Char → Nat
  | '0' :: x :: _ => if x = 'x' ∨ x = 'X' then 16 else 10
  | _ => 10

/-- The text begins with a digit of the base. -/
def GoesOn (base : Nat) (text : List Char) : Prop := ∃ ch ∈ text.head?, DigitOf base ch

/-- The text would be a literal if its number were smaller or if it had digits. `rest` follows it. -/
inductive Refused (lit rest : List Char) : Prop
  | size {n : Nat} : Literal lit n → 2 ^ 256 ≤ n → Refused lit rest
  | digits {x : Char} : lit = ['0', x] → x = 'x' ∨ x = 'X' → ¬ GoesOn 16 rest → Refused lit rest
  | nothing : lit = [] → ¬ GoesOn 10 rest → Refused lit rest

/-- The longest literal in front of a text, whatever its size. -/
inductive Longest : List Char → List Char → Nat → Prop
  | decimal {lit rest : List Char} {n : Nat} : Denotes 10 lit n → ¬ GoesOn 10 rest → ¬ Marked (lit ++ rest) →
      Longest lit rest n
  | hexadecimal {x : Char} {digits rest : List Char} {n : Nat} : x = 'x' ∨ x = 'X' → Denotes 16 digits n →
      ¬ GoesOn 16 rest → Longest ('0' :: x :: digits) rest n

theorem base_marked (marked : Marked text) : base text = 16 := by
  obtain ⟨x, rest, rfl, isX⟩ := marked
  exact if_pos isX

theorem base_unmarked (unmarked : ¬ Marked text) : base text = 10 := by
  unfold base
  split
  · next x rest => exact if_neg fun isX => unmarked ⟨x, rest, rfl, isX⟩
  · rfl

theorem not_marked_of_digits (digits : ∀ ch ∈ text, DigitOf 10 ch) : ¬ Marked text := by
  rintro ⟨x, rest, rfl, isX⟩
  have digit := (isDigit_iff_digitOf (by decide)).2 (digits x (by simp))
  rcases isX with rfl | rfl <;> exact absurd digit (by decide)

theorem stops_of_not_goesOn {base : Nat} (small : base ≤ 16) (ends : ¬ GoesOn base text) :
    Stops (Numeral.isDigit base) text := by
  intro ch first
  exact Bool.eq_false_iff.2 fun digit => ends ⟨ch, first, (isDigit_iff_digitOf small).1 digit⟩

theorem denotes_digits {base : Nat} (small : base ≤ 16) (denotes : Denotes base text n) :
    text ≠ [] ∧ ∀ ch ∈ text, DigitOf base ch := by
  obtain ⟨nonempty, digits⟩ := denotes.digits small
  exact ⟨nonempty, fun ch among => (isDigit_iff_digitOf small).1 (digits ch among)⟩

theorem exists_denotes {base : Nat} (small : base ≤ 16) (nonempty : text ≠ []) (digits : ∀ ch ∈ text, DigitOf base ch) :
    ∃ n, Denotes base text n := by
  refine ⟨Numeral.value base text, (read?_eq_some small).1 (if_pos ⟨nonempty, ?_⟩)⟩
  exact List.all_eq_true.2 fun ch among => (isDigit_iff_digitOf small).2 (digits ch among)

/-- A run of digits ends where no other follows. -/
theorem exists_run (base : Nat) (text : List Char) :
    ∃ run rest, text = run ++ rest ∧ (∀ ch ∈ run, DigitOf base ch) ∧ ¬ GoesOn base rest := by
  induction text with
  | nil => exact ⟨[], [], rfl, List.forall_mem_nil _, by simp [GoesOn]⟩
  | cons ch text ih =>
    by_cases digit : DigitOf base ch
    · obtain ⟨run, rest, rfl, digits, ends⟩ := ih
      exact ⟨ch :: run, rest, rfl, List.forall_mem_cons.2 ⟨digit, digits⟩, ends⟩
    · exact ⟨[], ch :: text, rfl, List.forall_mem_nil _, by simpa [GoesOn] using digit⟩

theorem prefix_of_run {base : Nat} {run : List Char} (whole : run ++ rest = lit ++ tail)
    (digits : ∀ ch ∈ run, DigitOf base ch) (ends : ¬ GoesOn base tail) : run <+: lit := by
  rcases List.append_eq_append_iff.1 whole with ⟨more, rfl, -⟩ | ⟨more, rfl, rfl⟩
  · exact List.prefix_append run more
  · cases more with
    | nil => simp
    | cons ch more => exact absurd ⟨ch, rfl, digits ch (by simp)⟩ ends

theorem value_grows {base : Nat} (positive : 0 < base) (digits : List Char) (n : Nat) :
    n ≤ digits.foldl (fun n c => base * n + Numeral.digitValue c) n := by
  induction digits generalizing n with
  | nil => exact le_rfl
  | cons ch digits ih =>
    have step : n ≤ base * n + Numeral.digitValue ch := (Nat.le_mul_of_pos_left n positive).trans (Nat.le_add_right _ _)
    exact step.trans (ih _)

/-- More digits make no smaller number. -/
theorem denotes_le {base m : Nat} {run : List Char} (positive : 0 < base) (small : base ≤ 16)
    (denotes : Denotes base run m) (longer : Denotes base lit n) (front : run <+: lit) : m ≤ n := by
  obtain ⟨more, rfl⟩ := front
  rw [← denotes.value small, ← longer.value small, Numeral.value, Numeral.value, List.foldl_append]
  exact value_grows positive more _

theorem exists_longest (text : List Char) : (∃ lit rest n, text = lit ++ rest ∧ Longest lit rest n) ∨
    (∃ x rest, text = '0' :: x :: rest ∧ (x = 'x' ∨ x = 'X') ∧ ¬ GoesOn 16 rest) ∨ ¬ GoesOn 10 text := by
  by_cases marked : Marked text
  · obtain ⟨x, rest, rfl, isX⟩ := marked
    obtain ⟨run, rest, rfl, digits, ends⟩ := exists_run 16 rest
    by_cases empty : run = []
    · exact .inr (.inl ⟨x, rest, by simp [empty], isX, ends⟩)
    · obtain ⟨n, denotes⟩ := exists_denotes le_rfl empty digits
      exact .inl ⟨_, rest, n, rfl, .hexadecimal isX denotes ends⟩
  · obtain ⟨run, rest, rfl, digits, ends⟩ := exists_run 10 text
    by_cases empty : run = []
    · exact .inr (.inr (by simpa [empty] using ends))
    · obtain ⟨n, denotes⟩ := exists_denotes (by decide) empty digits
      exact .inl ⟨run, rest, n, rfl, .decimal denotes ends marked⟩

theorem Longest.spelled (longest : Longest lit rest n) : Literal lit n ∧ ¬ GoesOn (base lit) rest := by
  cases longest with
  | decimal denotes ends =>
    rw [base_unmarked (not_marked_of_digits (denotes_digits (by decide) denotes).2)]
    exact ⟨.decimal denotes, ends⟩
  | hexadecimal isX denotes ends =>
    rw [base_marked ⟨_, _, rfl, isX⟩]
    exact ⟨.hexadecimal isX denotes, ends⟩

theorem longest_nil : Longest lit [] n ↔ Literal lit n := by
  have ends {base : Nat} : ¬ GoesOn base [] := by simp [GoesOn]
  constructor
  · exact fun longest => longest.spelled.1
  · rintro (denotes | ⟨isX, denotes⟩)
    · refine .decimal denotes ends ?_
      rw [List.append_nil]
      exact not_marked_of_digits (denotes_digits (by decide) denotes).2
    · exact .hexadecimal isX denotes ends

/-- No literal in front of a text has a larger number than the longest one. -/
theorem Longest.largest {m : Nat} (longest : Longest lit rest n) (whole : lit ++ rest = text ++ tail)
    (spelled : Literal text m) : m ≤ n := by
  cases spelled with
  | decimal denotes =>
    obtain ⟨nonempty, digits⟩ := denotes_digits (by decide) denotes
    cases longest with
    | decimal longer ends =>
      exact denotes_le (by decide) (by decide) denotes longer (prefix_of_run whole.symm digits ends)
    | @hexadecimal x _ _ _ isX longer ends =>
      -- What is decimal of it is only the zero of the marker.
      rcases text with _ | ⟨first, _ | ⟨second, more⟩⟩
      · exact absurd rfl nonempty
      · obtain ⟨rfl, -⟩ := List.cons.inj whole
        rw [← denotes.value (by decide)]
        exact Nat.zero_le n
      · obtain ⟨rfl, behind⟩ := List.cons.inj whole
        obtain ⟨rfl, -⟩ := List.cons.inj behind
        exact absurd ⟨_, _, rfl, isX⟩ (not_marked_of_digits digits)
  | @hexadecimal x digits _ isX denotes =>
    cases longest with
    | decimal _ _ unmarked => exact absurd ⟨x, digits ++ tail, whole, isX⟩ unmarked
    | hexadecimal _ longer ends =>
      obtain ⟨-, behind⟩ := List.cons.inj whole
      obtain ⟨-, behind⟩ := List.cons.inj behind
      have front := prefix_of_run behind.symm (denotes_digits le_rfl denotes).2 ends
      exact denotes_le (by decide) le_rfl denotes longer front

/-! ## The reader of a source -/

theorem literalOf_eq_found {fail : ErrorTree → Reading NumberLiteral} (failing : ∀ tree, fail tree ≠ .found l d)
    (whole : c.rest = lit ++ rest) : c.literalOf lit fail = .found l d ↔ Literal lit l.value.toNat ∧
      l.spelling = ⟨c.offset, String.ofList lit⟩ ∧ d = ⟨c.offset + Text.byteLength lit, rest⟩ := by
  unfold Cursor.literalOf
  rw [← ofLiteral?_eq_some, whole, List.drop_left]
  cases Word.ofLiteral? lit with
  | none => simp [failing]
  | some w =>
    obtain ⟨spelling, value⟩ := l
    simp only [Reading.found.injEq, NumberLiteral.mk.injEq, Option.some.injEq]
    tauto

/-- The reader tries the longest literal, and it alone. -/
theorem literal_longest (longest : Longest lit rest n) (whole : c.rest = lit ++ rest) :
    c.literal = .found l d ↔ Literal lit l.value.toNat ∧
      l.spelling = ⟨c.offset, String.ofList lit⟩ ∧ d = ⟨c.offset + Text.byteLength lit, rest⟩ := by
  cases longest with
  | decimal denotes ends unmarked =>
    rw [literal_decimal denotes (stops_of_not_goesOn (by decide) ends) unmarked whole]
    exact literalOf_eq_found (by simp) whole
  | hexadecimal isX denotes ends =>
    rw [literal_hexadecimal isX denotes (stops_of_not_goesOn le_rfl ends) whole]
    exact literalOf_eq_found (by simp) whole

/-- No digit is where a literal would have its first. -/
theorem not_found_digitless (digitless : (∃ x rest, c.rest = '0' :: x :: rest ∧ (x = 'x' ∨ x = 'X') ∧
    ¬ GoesOn 16 rest) ∨ ¬ GoesOn 10 c.rest) : c.literal ≠ .found l d := by
  rcases digitless with ⟨x, rest, text, isX, ends⟩ | ends
  · obtain ⟨tree, broken⟩ := literal_digitless isX text (stops_of_not_goesOn le_rfl ends)
    simp [broken]
  · obtain ⟨tree, absent⟩ := literal_absent (stops_of_not_goesOn (by decide) ends)
    simp [absent]

theorem literal_eq_found : c.literal = .found l d ↔ ∃ lit, c.rest = lit ++ d.rest ∧
    Longest lit d.rest l.value.toNat ∧ l.spelling = ⟨c.offset, String.ofList lit⟩ ∧
      d.offset = c.offset + Text.byteLength lit := by
  constructor
  · intro found
    rcases exists_longest c.rest with ⟨lit, rest, n, whole, longest⟩ | digitless
    · obtain ⟨spelled, spelling, rfl⟩ := (literal_longest longest whole).1 found
      rw [literal_unique longest.spelled.1 spelled] at longest
      exact ⟨lit, whole, longest, spelling, rfl⟩
    · exact absurd found (not_found_digitless digitless)
  · rintro ⟨lit, whole, longest, spelling, offset⟩
    refine (literal_longest longest whole).2 ⟨longest.spelled.1, spelling, ?_⟩
    rw [← offset]

theorem not_found_iff : (∀ l d, c.literal ≠ .found l d) ↔ ∃ lit rest, c.rest = lit ++ rest ∧ Refused lit rest := by
  constructor
  · intro failed
    rcases exists_longest c.rest with ⟨lit, rest, n, whole, longest⟩ | ⟨x, rest, text, isX, ends⟩ | ends
    · refine ⟨lit, rest, whole, .size longest.spelled.1 (Nat.not_lt.1 fun small => ?_)⟩
      rw [← toNat_ofNat small] at longest
      exact failed ⟨⟨c.offset, String.ofList lit⟩, .ofNat n⟩ ⟨c.offset + Text.byteLength lit, rest⟩
        (literal_eq_found.2 ⟨lit, whole, longest, rfl, rfl⟩)
    · exact ⟨['0', x], rest, text, .digits rfl isX ends⟩
    · exact ⟨[], c.rest, rfl, .nothing rfl ends⟩
  · rintro ⟨lit, rest, whole, refused⟩ l d found
    cases refused with
    | size spelled large =>
      obtain ⟨other, split, longest, -⟩ := literal_eq_found.1 found
      have small : _ ≤ l.value.toNat := longest.largest (split.symm.trans whole) spelled
      have := l.value.isLt
      omega
    | digits text isX ends =>
      rw [text] at whole
      exact not_found_digitless (.inl ⟨_, _, whole, isX, ends⟩) found
    | nothing empty ends =>
      rw [empty, List.nil_append] at whole
      exact not_found_digitless (.inr (whole ▸ ends)) found

theorem read_refused (refused : Refused lit rest) : Word.read (String.ofList lit) = .error ⟨String.ofList lit⟩ := by
  refine read_eq_error.2 ⟨rfl, fun w again => ?_⟩
  rw [String.toList_ofList] at again
  cases refused with
  | size spelled large =>
    have small := w.isLt
    rw [← literal_unique spelled again] at small
    omega
  | digits text isX ends =>
    rw [text] at again
    rcases again with denotes | ⟨-, denotes⟩
    · exact not_denotes_marker isX denotes
    · exact denotes.1 rfl
  | nothing empty ends =>
    rw [empty] at again
    cases again with
    | decimal denotes => exact denotes.1 rfl

/-- How the reader of a source and the reader of words stand to each other. -/
structure Agree : Prop where
  whole : ∀ (c : Cursor) (w : Word), (∃ l d, c.literal = .found l d ∧ l.value = w ∧ d.rest = []) ↔
    Word.read (String.ofList c.rest) = .ok w
  /-- What is found in front of a text is as long as it can be. -/
  front : ∀ (c d : Cursor) (l : NumberLiteral), c.literal = .found l d → ∃ lit, c.rest = lit ++ d.rest ∧
    Word.read (String.ofList lit) = .ok l.value ∧ ¬ GoesOn (base lit) d.rest
  /-- Nothing is found just when a literal is in front that is none of a word. -/
  fails : ∀ c : Cursor, (∀ l d, c.literal ≠ .found l d) ↔ ∃ lit rest, c.rest = lit ++ rest ∧ Refused lit rest
  refused : ∀ lit rest, Refused lit rest → Word.read (String.ofList lit) = .error ⟨String.ofList lit⟩

/-- Both readers know the same literals by the same values. In front of a text the longest is taken, and none where
that is too large or lacks its digits. -/
theorem readers_agree : Agree where
  whole c w := by
    rw [read_eq_ok, String.toList_ofList]
    constructor
    · rintro ⟨l, d, found, rfl, ended⟩
      obtain ⟨lit, whole, longest, -⟩ := literal_eq_found.1 found
      rw [ended, List.append_nil] at whole
      rw [whole]
      exact longest.spelled.1
    · intro spelled
      refine ⟨⟨⟨c.offset, String.ofList c.rest⟩, w⟩, ⟨c.offset + Text.byteLength c.rest, []⟩, ?_, rfl, rfl⟩
      exact literal_eq_found.2 ⟨c.rest, (List.append_nil _).symm, longest_nil.2 spelled, rfl, rfl⟩
  front c d l found := by
    obtain ⟨lit, whole, longest, -⟩ := literal_eq_found.1 found
    refine ⟨lit, whole, read_eq_ok.2 ?_, longest.spelled.2⟩
    rw [String.toList_ofList]
    exact longest.spelled.1
  fails _ := not_found_iff
  refused _ _ := read_refused

end Gosub.Literals
