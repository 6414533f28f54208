import Gosub.Code.Basic
import Gosub.Proofs.Parsing.Complete
import Mathlib.Data.List.TakeWhile
import Mathlib.Tactic.IntervalCases

/-!
# Bytes written in digits

A text is read for the bytes that it spells, and no digit of it is dropped (`hex_exact`). A text that spells none is
refused behind the longest part that does. What is there is no byte, unless spaces keep the first byte from the marker
in front of it (`hex_error_pointed`).
-/

namespace Gosub.HexText

open Gosub.Grammar Gosub.Parsing

variable {text row gap back front : List Char} {bytes : List UInt8}

/-! ## Forms -/

def Space (ch : Char) : Prop := ch = ' ' ∨ ch = '\t' ∨ ch = '\r' ∨ ch = '\n'

/-- Spaces, tabs, carriage returns and line feeds, or nothing. -/
def Spaces (text : List Char) : Prop := ∀ ch ∈ text, Space ch

/-- The marker of hexadecimal text, which may be left out. -/
inductive Marker : List Char → Prop
  | none : Marker []
  | some {x : Char} : x = 'x' ∨ x = 'X' → Marker ['0', x]

/-- Two digits for each byte, spaces behind them. -/
inductive Row : List UInt8 → List Char → Prop
  | none : Row [] []
  | more {b : UInt8} {bytes : List UInt8} {high low : Char} {gap rest : List Char} : Denotes 16 [high, low] b.toNat →
      Spaces gap → Row bytes rest → Row (b :: bytes) (high :: low :: (gap ++ rest))

/-- The text spells the bytes. Only without bytes may there be spaces behind the marker. -/
inductive Spells : List UInt8 → List Char → Prop
  | nothing {indent marker gap : List Char} : Spaces indent → Marker marker → Spaces gap →
      Spells [] (indent ++ marker ++ gap)
  | bytes {b : UInt8} {bytes : List UInt8} {indent marker row : List Char} : Spaces indent → Marker marker →
      Row (b :: bytes) row → Spells (b :: bytes) (indent ++ marker ++ row)

/-- The text begins with two digits. -/
def Paired (text : List Char) : Prop :=
  ∃ high low rest, text = high :: low :: rest ∧ DigitOf 16 high ∧ DigitOf 16 low

theorem isBlank_iff_space {ch : Char} : Hex.isBlank ch = true ↔ Space ch := by
  simp only [Hex.isBlank, Space, Bool.or_eq_true, decide_eq_true_eq, or_assoc]

theorem Spaces.all (spaces : Spaces text) : ∀ ch ∈ text, Hex.isBlank ch = true :=
  fun ch among => isBlank_iff_space.2 (spaces ch among)

theorem spaces_append : Spaces (front ++ back) ↔ Spaces front ∧ Spaces back := List.forall_mem_append

theorem not_space_of_digit {ch : Char} (digit : DigitOf 16 ch) : ¬ Space ch := by
  rw [← isDigit_iff_digitOf le_rfl] at digit
  rintro (rfl | rfl | rfl | rfl) <;> exact absurd digit (by decide)

theorem not_paired_of_marked (marked : Marked text) : ¬ Paired text := by
  obtain ⟨x, rest, rfl, marker⟩ := marked
  rintro ⟨high, low, _, split, -, digit⟩
  cases split
  rw [← isDigit_iff_digitOf le_rfl] at digit
  rcases marker with rfl | rfl <;> exact absurd digit (by decide)

/-! ## Two digits -/

theorem denotes_pair {high low : Char} {n : Nat} : Denotes 16 [high, low] n ↔
    DigitOf 16 high ∧ DigitOf 16 low ∧ 16 * Numeral.digitValue high + Numeral.digitValue low = n := by
  have value : Numeral.value 16 [high, low] = 16 * Numeral.digitValue high + Numeral.digitValue low := by
    simp [Numeral.value]
  rw [← read?_eq_some le_rfl, Numeral.read?, value, ← isDigit_iff_digitOf le_rfl, ← isDigit_iff_digitOf le_rfl]
  simp [and_assoc]

theorem Paired.append (paired : Paired front) : Paired (front ++ back) := by
  obtain ⟨high, low, rest, rfl, digits⟩ := paired
  exact ⟨high, low, rest ++ back, rfl, digits⟩

theorem Paired.stops (paired : Paired text) : Stops Hex.isBlank text := by
  obtain ⟨high, low, rest, rfl, digit, -⟩ := paired
  rintro ch ⟨⟩
  exact Bool.eq_false_iff.2 fun blank => not_space_of_digit digit (isBlank_iff_space.1 blank)

theorem Row.cases (written : Row bytes row) : row = [] ∨ Paired row := by
  cases written with
  | none => exact .inl rfl
  | more denotes _ _ =>
    obtain ⟨high, low, -⟩ := denotes_pair.1 denotes
    exact .inr ⟨_, _, _, rfl, high, low⟩

theorem Row.stops (written : Row bytes row) (stops : Stops Hex.isBlank back) : Stops Hex.isBlank (row ++ back) := by
  rcases written.cases with rfl | paired
  · exact stops
  · exact paired.append.stops

/-! ## Where the reader stops -/

/-- How far a text can be read: for the bytes that `front` spells, `back` being left over. -/
inductive Stopped : List UInt8 → List Char → List Char → Prop
  /-- No byte goes on, and no marker that could still come. -/
  | row {bytes : List UInt8} {indent marker row back : List Char} : Spaces indent → Marker marker → Row bytes row →
      Stops Hex.isBlank back → ¬ Paired back → (marker = [] → row = [] → ¬ Marked back) →
      Stopped bytes (indent ++ marker ++ row) back
  /-- The spaces behind the marker are the last that is read. -/
  | detached {indent gap back : List Char} {x : Char} : Spaces indent → x = 'x' ∨ x = 'X' → Spaces gap → gap ≠ [] →
      Stops Hex.isBlank back → Stopped [] (indent ++ ['0', x] ++ gap) back

theorem skipBlanks_spaces (spaces : Spaces gap) (stops : Stops Hex.isBlank back) :
    Hex.skipBlanks (gap ++ back) = back :=
  dropWhile_stops spaces.all stops

theorem skipBlanks_stops (stops : Stops Hex.isBlank back) : Hex.skipBlanks back = back := dropWhile_nothing stops

theorem readBytes_pair {high low : Char} {rest : List Char} {b : UInt8} (denotes : Denotes 16 [high, low] b.toNat) :
    Hex.readBytes (high :: low :: rest) =
      (b :: (Hex.readBytes (Hex.skipBlanks rest)).1, (Hex.readBytes (Hex.skipBlanks rest)).2) := by
  have value := denotes
  rw [← read?_eq_some le_rfl, Numeral.read?] at value
  split_ifs at value with digits
  have both : (Numeral.isDigit 16 high && Numeral.isDigit 16 low) = true := by simpa using digits.2
  rw [Hex.readBytes, if_pos both, Option.some.inj value, UInt8.ofNat_toNat]

theorem readBytes_none (unpaired : ¬ Paired text) : Hex.readBytes text = ([], text) := by
  unfold Hex.readBytes
  split
  · next high low rest =>
    refine if_neg fun digits => unpaired ?_
    rw [Bool.and_eq_true, isDigit_iff_digitOf le_rfl, isDigit_iff_digitOf le_rfl] at digits
    exact ⟨high, low, rest, rfl, digits⟩
  · rfl

/-- A row is read, and then what follows it. -/
theorem readBytes_row (written : Row bytes row) (stops : Stops Hex.isBlank back) :
    Hex.readBytes (row ++ back) = (bytes ++ (Hex.readBytes back).1, (Hex.readBytes back).2) := by
  induction written with
  | none => rfl
  | @more b bytes high low gap rest denotes spaces later ih =>
    have skipped : Hex.skipBlanks (gap ++ (rest ++ back)) = rest ++ back := skipBlanks_spaces spaces (later.stops stops)
    rw [List.cons_append, List.cons_append, List.append_assoc, readBytes_pair denotes, skipped, ih]
    rfl

theorem skipMarker_marked {x : Char} {rest : List Char} (marker : x = 'x' ∨ x = 'X') :
    Hex.skipMarker ('0' :: x :: rest) = rest := if_pos marker

theorem skipMarker_none (unmarked : ¬ Marked text) : Hex.skipMarker text = text := by
  unfold Hex.skipMarker
  split
  · next x rest => exact if_neg fun marker => unmarked ⟨x, rest, rfl, marker⟩
  · rfl

/-- What stands in front of the bytes is skipped. -/
theorem skip_front {indent marker : List Char} (spaces : Spaces indent) (marks : Marker marker)
    (bare : marker = [] → Stops Hex.isBlank back ∧ ¬ Marked back) :
    Hex.skipMarker (Hex.skipBlanks (indent ++ marker ++ back)) = back := by
  rw [List.append_assoc]
  cases marks with
  | none =>
    obtain ⟨stops, unmarked⟩ := bare rfl
    rw [List.nil_append, skipBlanks_spaces spaces stops, skipMarker_none unmarked]
  | @some x isX =>
    have zero : Stops Hex.isBlank (['0', x] ++ back) := by
      rintro ch ⟨⟩
      decide
    rw [skipBlanks_spaces spaces zero]
    exact skipMarker_marked isX

/-- The reader takes what is in front of the place, and stops there. -/
theorem read_stopped {text : String} (whole : text.toList = front ++ back) (stopped : Stopped bytes front back) :
    Hex.read text = if back.isEmpty then .ok bytes else .error ⟨Text.byteLength front⟩ := by
  have result (left : List Char)
      (read : Hex.readBytes (Hex.skipMarker (Hex.skipBlanks (front ++ back))) = (bytes, left))
      (rest : Hex.skipBlanks left = back) :
      Hex.read text = if back.isEmpty then .ok bytes else .error ⟨Text.byteLength front⟩ := by
    rw [Hex.read, whole, read]
    simp only [rest, Text.byteLength_append, Nat.add_sub_cancel]
  cases stopped with
  | row spaces marks written stops unpaired unmarked =>
    refine result back ?_ (skipBlanks_stops stops)
    rw [List.append_assoc, skip_front spaces marks, readBytes_row written stops, readBytes_none unpaired,
      List.append_nil]
    intro bare
    refine ⟨written.stops stops, ?_⟩
    rcases written.cases with rfl | paired
    · exact unmarked bare rfl
    · exact fun marked => not_paired_of_marked marked paired.append
  | @detached _ gap _ _ spaces isX blanks nonempty stops =>
    refine result (gap ++ back) ?_ (skipBlanks_spaces blanks stops)
    have unpaired : ¬ Paired (gap ++ back) := by
      rintro ⟨high, low, rest, split, digit, -⟩
      obtain ⟨first, more, rfl⟩ := List.exists_cons_of_ne_nil nonempty
      obtain ⟨rfl, -⟩ := List.cons.inj split
      exact not_space_of_digit digit (blanks _ List.mem_cons_self)
    rw [List.append_assoc, skip_front spaces (.some isX) nofun, readBytes_none unpaired]

theorem split_spaces (text : List Char) : ∃ gap back, text = gap ++ back ∧ Spaces gap ∧ Stops Hex.isBlank back := by
  refine ⟨text.takeWhile Hex.isBlank, text.dropWhile Hex.isBlank, List.takeWhile_append_dropWhile.symm, ?_, ?_⟩
  · exact fun ch taken => isBlank_iff_space.1 (List.mem_takeWhile_imp taken)
  · intro ch first
    have stopped := List.head?_dropWhile_not Hex.isBlank text
    rw [first] at stopped
    exact stopped

theorem denotes_byte {high low : Char} (first : DigitOf 16 high) (second : DigitOf 16 low) :
    ∃ b : UInt8, Denotes 16 [high, low] b.toNat := by
  refine ⟨UInt8.ofNat (16 * Numeral.digitValue high + Numeral.digitValue low), denotes_pair.2 ⟨first, second, ?_⟩⟩
  have small := isDigit_iff.1 ((isDigit_iff_digitOf le_rfl).2 first)
  have smaller := isDigit_iff.1 ((isDigit_iff_digitOf le_rfl).2 second)
  rw [UInt8.toNat_ofNat']
  omega

/-- A row goes on for as long as two digits follow. -/
theorem exists_row {text : List Char} (stops : Stops Hex.isBlank text) :
    ∃ bytes row back, text = row ++ back ∧ Row bytes row ∧ Stops Hex.isBlank back ∧ ¬ Paired back := by
  by_cases paired : Paired text
  · obtain ⟨high, low, rest, split, first, second⟩ := paired
    obtain ⟨b, denotes⟩ := denotes_byte first second
    obtain ⟨gap, after, behind, spaces, begins⟩ := split_spaces rest
    have shorter : after.length < text.length := by
      simp [split, behind]
      omega
    obtain ⟨bytes, row, back, later, written, ends⟩ := exists_row begins
    refine ⟨b :: bytes, high :: low :: (gap ++ row), back, ?_, .more denotes spaces written, ends⟩
    simp [split, behind, later]
  · exact ⟨[], [], text, rfl, .none, stops, paired⟩
termination_by text.length

theorem exists_stopped (text : List Char) : ∃ bytes front back, text = front ++ back ∧ Stopped bytes front back := by
  obtain ⟨indent, rest, rfl, spaces, stops⟩ := split_spaces text
  by_cases marked : Marked rest
  · obtain ⟨x, rest, rfl, isX⟩ := marked
    obtain ⟨gap, after, rfl, blanks, begins⟩ := split_spaces rest
    by_cases bare : gap = []
    · subst bare
      obtain ⟨bytes, row, back, rfl, written, ends, unpaired⟩ := exists_row begins
      exact ⟨bytes, _, back, by simp, .row spaces (.some isX) written ends unpaired nofun⟩
    · exact ⟨[], _, after, by simp, .detached spaces isX blanks bare begins⟩
  · obtain ⟨bytes, row, back, rfl, written, ends, unpaired⟩ := exists_row stops
    refine ⟨bytes, _, back, by simp, .row spaces .none written ends unpaired fun _ empty => ?_⟩
    rwa [empty] at marked

theorem Stopped.up_to {rest : List Char} (stopped : Stopped bytes front rest) (part : back <+: rest) :
    Stopped bytes front back := by
  obtain ⟨tail, rfl⟩ := part
  have stops {p : Char → Bool} (stops : Stops p (back ++ tail)) : Stops p back := by
    intro ch first
    exact stops ch (by simp [Option.mem_def.1 first])
  cases stopped with
  | row spaces marks written ends unpaired unmarked =>
    refine .row spaces marks written (stops ends) (fun paired => unpaired paired.append) ?_
    rintro bare empty ⟨x, rest, rfl, isX⟩
    exact unmarked bare empty ⟨x, rest ++ tail, rfl, isX⟩
  | detached spaces isX blanks nonempty ends => exact .detached spaces isX blanks nonempty (stops ends)

theorem stopped_nil : Stopped bytes text [] ↔ Spells bytes text := by
  have ends : Stops Hex.isBlank [] := nofun
  have unpaired : ¬ Paired [] := nofun
  have unmarked : ¬ Marked [] := nofun
  constructor
  · rintro (⟨spaces, marks, written, -⟩ | ⟨spaces, isX, blanks, -⟩)
    · cases written with
      | none => exact .nothing spaces marks (List.forall_mem_nil _)
      | more denotes blanks later => exact .bytes spaces marks (.more denotes blanks later)
    · exact .nothing spaces (.some isX) blanks
  · rintro (⟨spaces, marks, blanks⟩ | ⟨spaces, marks, written⟩)
    · cases marks with
      | none =>
        have stopped := Stopped.row (spaces_append.2 ⟨spaces, blanks⟩) .none .none ends unpaired fun _ _ => unmarked
        simpa using stopped
      | some isX =>
        rename_i gap x
        by_cases bare : gap = []
        · subst bare
          exact .row spaces (.some isX) .none ends unpaired nofun
        · exact .detached spaces isX blanks bare ends
    · exact .row spaces marks written ends unpaired fun _ _ => unmarked

theorem Stopped.spells (stopped : Stopped bytes front back) : Spells bytes front :=
  stopped_nil.1 (stopped.up_to List.nil_prefix)

/-! ## What is read -/

theorem read_eq_ok {text : String} : Hex.read text = .ok bytes ↔ Spells bytes text.toList := by
  constructor
  · intro read
    obtain ⟨others, front, back, whole, stopped⟩ := exists_stopped text.toList
    rw [read_stopped whole stopped] at read
    split_ifs at read with ended
    cases read
    rw [whole, List.isEmpty_iff.1 ended, List.append_nil]
    exact stopped.spells
  · intro spells
    exact read_stopped (List.append_nil _).symm (stopped_nil.2 spells)

theorem read_eq_error {text : String} {e : Hex.ReadError} : Hex.read text = .error e ↔ ∃ bytes front back,
    text.toList = front ++ back ∧ back ≠ [] ∧ Stopped bytes front back ∧ e = ⟨Text.byteLength front⟩ := by
  constructor
  · intro failed
    obtain ⟨bytes, front, back, whole, stopped⟩ := exists_stopped text.toList
    rw [read_stopped whole stopped] at failed
    split_ifs at failed with ended
    cases failed
    exact ⟨bytes, front, back, whole, mt List.isEmpty_iff.2 ended, stopped, rfl⟩
  · rintro ⟨bytes, front, back, whole, left, stopped, rfl⟩
    rw [read_stopped whole stopped, if_neg (mt List.isEmpty_iff.1 left)]

/-- Nothing longer can be read by itself. -/
theorem Stopped.longest {others : List UInt8} {more rest : List Char} (stopped : Stopped bytes front back)
    (whole : front ++ back = more ++ rest) (spells : Spells others more) : more <+: front := by
  rcases List.append_eq_append_iff.1 whole with ⟨taken, rfl, rfl⟩ | ⟨left, rfl, -⟩
  · have failed : taken ≠ [] → Hex.read (String.ofList (front ++ taken)) = .error ⟨Text.byteLength front⟩ := by
      intro longer
      exact read_eq_error.2 ⟨bytes, front, taken, String.toList_ofList, longer, stopped.up_to ⟨rest, rfl⟩, rfl⟩
    have read : Hex.read (String.ofList (front ++ taken)) = .ok others :=
      read_eq_ok.2 (String.toList_ofList ▸ spells)
    by_cases longer : taken = []
    · simp [longer]
    · cases read.symm.trans (failed longer)
  · exact List.prefix_append more left

theorem Stopped.unique {others : List UInt8} {front' back' : List Char} (stopped : Stopped bytes front back)
    (other : Stopped others front' back') (whole : front ++ back = front' ++ back') :
    front = front' ∧ back = back' := by
  have longest : front' <+: front := stopped.longest whole other.spells
  have same : front = front' :=
    (other.longest whole.symm stopped.spells).eq_of_length_le longest.length_le
  subst same
  exact ⟨rfl, List.append_cancel_left whole⟩

/-! ## What is written -/

theorem writeByte_eq (b : UInt8) :
    Hex.writeByte b = [Nat.digitChar (b.toNat / 16), Nat.digitChar (b.toNat % 16)] := by
  have small := b.toNat_lt
  unfold Hex.writeByte Numeral.writePadded Numeral.write
  by_cases single : b.toNat < 16
  · rw [Nat.toDigits_of_lt_base single, Nat.div_eq_of_lt single, Nat.mod_eq_of_lt single]
    rfl
  · rw [Nat.toDigits_of_base_le (by decide) (by omega), Nat.toDigits_of_lt_base (by omega)]
    rfl

theorem denotes_writeByte (b : UInt8) :
    Denotes 16 [Nat.digitChar (b.toNat / 16), Nat.digitChar (b.toNat % 16)] b.toNat := by
  have small := b.toNat_lt
  have high : b.toNat / 16 < 16 := by omega
  have low : b.toNat % 16 < 16 := by omega
  refine denotes_pair.2 ⟨⟨_, high, .inl rfl⟩, ⟨_, low, .inl rfl⟩, ?_⟩
  rw [digitValue_of_writes high (.inl rfl), digitValue_of_writes low (.inl rfl)]
  omega

theorem row_write (bytes : List UInt8) : Row bytes (bytes.flatMap Hex.writeByte) := by
  induction bytes with
  | nil => exact .none
  | cons b bytes ih =>
    have written := Row.more (denotes_writeByte b) (List.forall_mem_nil Space) ih
    rwa [List.flatMap_cons, writeByte_eq]

theorem toLower_of_writes {ch : Char} {d : Nat} (small : d < 16) (writes : Writes ch d) :
    ch.toLower = Nat.digitChar d := by
  rcases writes with rfl | rfl <;> interval_cases d <;> rfl

theorem toLower_pair {high low : Char} {b : UInt8} (denotes : Denotes 16 [high, low] b.toNat) :
    [high.toLower, low.toLower] = Hex.writeByte b := by
  obtain ⟨⟨h, small, first⟩, ⟨l, smaller, second⟩, value⟩ := denotes_pair.1 denotes
  rw [digitValue_of_writes small first, digitValue_of_writes smaller second] at value
  have high : b.toNat / 16 = h := by omega
  have low : b.toNat % 16 = l := by omega
  rw [writeByte_eq, high, low, toLower_of_writes small first, toLower_of_writes smaller second]

instance : DecidablePred Space := fun _ => inferInstanceAs (Decidable (_ ∨ _ ∨ _ ∨ _))

/-- The text without its spaces. -/
def unspaced (text : List Char) : List Char := text.filter fun ch => ¬ Space ch

theorem unspaced_append (front back : List Char) : unspaced (front ++ back) = unspaced front ++ unspaced back :=
  List.filter_append front back

theorem unspaced_spaces (spaces : Spaces text) : unspaced text = [] := by
  refine List.filter_eq_nil_iff.2 fun ch among => ?_
  simp [spaces ch among]

theorem unspaced_marker (marks : Marker text) : unspaced text = text := by
  rcases marks with _ | rfl | rfl <;> rfl

/-- All digits of a row are those of its bytes, but for their case. -/
theorem unspaced_row (written : Row bytes row) : (unspaced row).map Char.toLower = bytes.flatMap Hex.writeByte := by
  induction written with
  | none => rfl
  | @more b _ high low gap rest denotes spaces _ ih =>
    obtain ⟨first, second, -⟩ := denotes_pair.1 denotes
    have kept : unspaced (high :: low :: (gap ++ rest)) = high :: low :: unspaced (gap ++ rest) := by
      simp [unspaced, not_space_of_digit first, not_space_of_digit second]
    rw [kept, unspaced_append, unspaced_spaces spaces, List.nil_append, List.flatMap_cons,
      ← toLower_pair denotes, ← ih]
    rfl

theorem unspaced_spelled (spells : Spells bytes text) : ∃ marker digits, Marker marker ∧
    unspaced text = marker ++ digits ∧ digits.map Char.toLower = bytes.flatMap Hex.writeByte := by
  rcases spells with ⟨spaces, marks, blanks⟩ | ⟨spaces, marks, written⟩
  · refine ⟨_, [], marks, ?_, rfl⟩
    simp only [unspaced_append, unspaced_spaces spaces, unspaced_spaces blanks, unspaced_marker marks, List.nil_append]
  · refine ⟨_, _, marks, ?_, unspaced_row written⟩
    simp only [unspaced_append, unspaced_spaces spaces, unspaced_marker marks, List.nil_append]

theorem spells_render (code : Code) : Spells code.toList code.render.toList := by
  have whole : code.render.toList = [] ++ ['0', 'x'] ++ code.toList.flatMap Hex.writeByte := by
    simp [Code.render, Hex.render, Hex.write]
  rw [whole]
  exact stopped_nil.1 (.row (List.forall_mem_nil _) (.some (.inl rfl)) (row_write _) nofun nofun nofun)

/-! ## Reading a code -/

theorem ofHex_eq_ok {text : String} : Code.ofHex text = .ok (.ofList bytes) ↔ Spells bytes text.toList := by
  rw [← read_eq_ok, Code.ofHex]
  cases Hex.read text with
  | error e => simp [Except.map]
  | ok others => simp [Except.map, Code.ofList]

/-- How texts and bytes stand to each other. -/
structure Exact : Prop where
  read : ∀ text bytes, Code.ofHex text = .ok (.ofList bytes) ↔ Spells bytes text.toList
  /-- A text that is read has the digits of the bytes and no others, but for their case. -/
  kept : ∀ text bytes, Code.ofHex text = .ok (.ofList bytes) → ∃ marker digits, Marker marker ∧
    unspaced text.toList = marker ++ digits ∧ digits.map Char.toLower = bytes.flatMap Hex.writeByte
  written : ∀ code, Code.ofHex code.render = .ok code

/-- A text is read just when it spells bytes, for these bytes, and what is written of a code is read back. -/
theorem hex_exact : Exact where
  read _ _ := ofHex_eq_ok
  kept _ _ read := unspaced_spelled (ofHex_eq_ok.1 read)
  written code := ofHex_eq_ok.2 (spells_render code)

example : Code.ofHex " 0X60 \r\nB3\t" = .ok (.ofList [0x60, 0xb3]) := by decide +kernel

/-! ## Errors -/

/-- Spaces keep two digits from the marker in front of them. -/
def Severed (text : List Char) : Prop := ∃ indent x gap back, text = indent ++ ['0', x] ++ gap ++ back ∧
  Spaces indent ∧ (x = 'x' ∨ x = 'X') ∧ Spaces gap ∧ gap ≠ [] ∧ Paired back

/-- What an error tells of a text: it is behind `front`. -/
structure Points (text : String) (e : Hex.ReadError) (front back : List Char) : Prop where
  whole : text.toList = front ++ back
  inside : back ≠ []
  offset : e.offset = Text.byteLength front
  accepted : ∃ bytes, Hex.read (String.ofList front) = .ok bytes
  longest : ∀ more rest, text.toList = more ++ rest → (∃ bytes, Hex.read (String.ofList more) = .ok bytes) →
    more <+: front
  unspaced : ∀ ch ∈ back.head?, ¬ Space ch
  paired : Paired back ↔ Severed text.toList

theorem Stopped.stops (stopped : Stopped bytes front back) : Stops Hex.isBlank back := by
  cases stopped with
  | row _ _ _ stops => exact stops
  | detached _ _ _ _ stops => exact stops

theorem stopped_paired (stopped : Stopped bytes front back) : Paired back ↔ Severed (front ++ back) := by
  constructor
  · intro paired
    cases stopped with
    | row _ _ _ _ unpaired => exact absurd paired unpaired
    | detached spaces isX blanks nonempty => exact ⟨_, _, _, back, rfl, spaces, isX, blanks, nonempty, paired⟩
  · rintro ⟨indent, x, gap, rest, whole, spaces, isX, blanks, nonempty, paired⟩
    obtain ⟨-, rfl⟩ := stopped.unique (.detached spaces isX blanks nonempty paired.stops) whole
    exact paired

/-- A text that cannot be read is refused behind the longest part that can. What follows begins with neither a space
nor two digits, unless spaces keep these two digits from a marker. -/
theorem hex_error_pointed {text : String} {e : Hex.ReadError} (failed : Hex.read text = .error e) :
    ∃ front back, Points text e front back := by
  obtain ⟨bytes, front, back, whole, left, stopped, rfl⟩ := read_eq_error.1 failed
  refine ⟨front, back, whole, left, rfl, ⟨bytes, ?_⟩, ?_, ?_, ?_⟩
  · exact read_eq_ok.2 (String.toList_ofList ▸ stopped.spells)
  · rintro more rest split ⟨others, read⟩
    rw [read_eq_ok, String.toList_ofList] at read
    exact stopped.longest (whole.symm.trans split) read
  · intro ch first space
    exact absurd (isBlank_iff_space.2 space) (Bool.eq_false_iff.1 (stopped.stops ch first))
  · rw [whole]
    exact stopped_paired stopped

theorem accent_pointed : Hex.read "0x60 é0" = .error ⟨5⟩ ∧ ∃ front back, Points "0x60 é0" ⟨5⟩ front back := by
  have failed : Hex.read "0x60 é0" = .error ⟨5⟩ := by decide +kernel
  exact ⟨failed, hex_error_pointed failed⟩

/-- The error is at a whole byte, three bytes in front of the first character that belongs to none. -/
theorem severed_marked : Hex.read "0x 60 zz" = .error ⟨3⟩ ∧ ¬ ∀ text e, Hex.read text = .error e → ∃ front back,
    text.toList = front ++ back ∧ e.offset = Text.byteLength front ∧
      (∃ bytes, Hex.read (String.ofList front) = .ok bytes) ∧ (∀ ch ∈ back.head?, ¬ Space ch) ∧ ¬ Paired back := by
  have failed : Hex.read "0x 60 zz" = .error ⟨3⟩ := by decide +kernel
  refine ⟨failed, fun pointed => ?_⟩
  obtain ⟨front, back, whole, offset, -, -, unpaired⟩ := pointed _ _ failed
  have split : front ++ back = "0x ".toList ++ "60 zz".toList := whole.symm
  have there : back = "60 zz".toList := (Text.append_inj_of_byteLength split offset.symm).2
  have six : DigitOf 16 '6' := ⟨6, by decide, .inl rfl⟩
  have zero : DigitOf 16 '0' := ⟨0, by decide, .inl rfl⟩
  exact unpaired ⟨'6', '0', " zz".toList, there, six, zero⟩

end Gosub.HexText
