import Mathlib.Data.List.Induction
import Mathlib.Data.Option.Basic
import Mathlib.Order.Nat
import Gosub.Debugger.Completion

/-!
# Completing a word

Completion replaces as many bytes before the cursor as the last word has once quotes and backslashes are taken off it,
and each candidate begins with this word (`offers_suggest`). So what is replaced stays as it was just when the text
before the cursor ends in the word as it is meant (`complete_extends`), as a text without quotes, backslashes and
comments does. Where it does not, completion may take away what was typed, and even begin inside a character.
-/

namespace Gosub.Completing

open Debugger Words Text

variable {labels : List String} {line : String} {text front back behind word rest : List Char} {words : List String}
  {mode : Mode} {s : Suggestion} {ch : Char}

/-! ## The length of a word -/

/-- The backslashes behind which a character is still to be read. -/
def pending : Mode → Nat
  | .gapEscape | .bareEscape | .quotedEscape => 1
  | _ => 0

theorem pending_le_one (mode : Mode) : pending mode ≤ 1 := by
  cases mode <;> decide

/-- A word has no more bytes than it was read from: a character comes into it at most once, and a backslash only
with the character behind it or at the end. -/
theorem splitFrom_length (split : splitFrom mode word rest = some words) :
    ∀ w ∈ words, byteLength w.toList ≤ byteLength word + pending mode + byteLength rest := by
  have slash : backslash.utf8Size = 1 := rfl
  fun_induction splitFrom mode word rest generalizing words with
  | case1 | case2 =>
    cases split
    exact List.forall_mem_nil _
  | case3 word | case4 word | case5 word =>
    cases split
    simp [byteLength_reverse, pending, slash]
  | case6 | case7 | case8 => cases split
  | case16 word c rest _ _ ih =>
    -- A word ends here, and the others come from what is behind it.
    obtain ⟨later, behind, rfl⟩ := Option.map_eq_some_iff.1 split
    refine List.forall_mem_cons.2 ⟨?_, fun w member => (ih behind w member).trans ?_⟩
    · rw [String.toList_ofList, byteLength_reverse]
      omega
    · simp only [pending, byteLength_nil, byteLength_cons]
      omega
  | case9 word c rest mode _ ih | case15 word c rest mode _ ih =>
    intro w member
    have bound := ih split w member
    have one := pending_le_one mode
    have positive := c.utf8Size_pos
    simp only [byteLength_cons]
    omega
  | _ =>
    -- The character is taken into the word or dropped, and the reading goes on.
    rename_i ih
    intro w member
    have bound := ih split w member
    simp only [pending, byteLength_cons, slash] at bound ⊢
    omega

theorem split?_length (split : split? (.ofList text) = some words) :
    ∀ w ∈ words, byteLength w.toList ≤ byteLength text := by
  rw [split?, String.toList_ofList] at split
  intro w member
  have bound := splitFrom_length split w member
  simpa [pending] using bound

/-! ## Plain texts -/

/-- The character stands for itself, in a word or between words of one line. -/
def Plain (ch : Char) : Prop := ch ≠ singleQuote ∧ ch ≠ doubleQuote ∧ ch ≠ backslash ∧ ch ≠ '#' ∧ ch ≠ '\n'

/-- The longest parts of a text without blanks. -/
def runs (text : List Char) : List (List Char) := (text.splitOnP isGap).filter (· ≠ [])

theorem runs_gap (gap : isGap ch = true) (front back : List Char) :
    runs (front ++ ch :: back) = runs front ++ runs back := by
  rw [runs, List.splitOnP_append_cons front back gap, List.filter_append]
  rfl

theorem runs_run (inside : ∀ ch ∈ word, isGap ch = false) (nonempty : word ≠ []) : runs word = [word] := by
  rw [runs, List.splitOnP_eq_singleton inside]
  simp [nonempty]

theorem open?_plain (escape : Mode) (plain : Plain ch) : open? escape ch = none := by
  obtain ⟨single, double, slash, -⟩ := plain
  simp [open?, single, double, slash]

/-- Between words and inside one, the words of a plain text are its runs. -/
theorem splitFrom_plain (plain : ∀ ch ∈ rest, Plain ch) :
    splitFrom .gap [] rest = some ((runs rest).map String.ofList) ∧
      ∀ word, word ≠ [] → (∀ ch ∈ word, isGap ch = false) →
        splitFrom .bare word rest = some ((runs (word.reverse ++ rest)).map String.ofList) := by
  induction rest with
  | nil =>
    refine ⟨rfl, fun word nonempty inside => ?_⟩
    have run : runs (word.reverse ++ []) = [word.reverse] := by
      rw [List.append_nil]
      exact runs_run (by simpa using inside) (by simpa using nonempty)
    rw [run]
    rfl
  | cons c rest ih =>
    obtain ⟨here, later⟩ := List.forall_mem_cons.1 plain
    obtain ⟨gap, bare⟩ := ih later
    have noComment : c ≠ '#' := here.2.2.2.1
    by_cases blank : isGap c = true
    · constructor
      · rw [splitFrom, open?_plain _ here]
        simp only [blank, if_true, gap]
        exact congrArg (fun row => some (row.map String.ofList)) (runs_gap blank [] rest).symm
      · intro word nonempty inside
        have run : runs word.reverse = [word.reverse] := runs_run (by simpa using inside) (by simpa using nonempty)
        rw [splitFrom, open?_plain _ here, runs_gap blank, run]
        simp [blank, gap]
    · rw [Bool.not_eq_true] at blank
      constructor
      · rw [splitFrom, open?_plain _ here]
        simpa [blank, noComment] using bare [c] (List.cons_ne_nil _ _) (by simpa using blank)
      · intro word _ inside
        rw [splitFrom, open?_plain _ here]
        simpa [blank] using bare (c :: word) (List.cons_ne_nil _ _) (List.forall_mem_cons.2 ⟨blank, inside⟩)

theorem split?_plain (plain : ∀ ch ∈ text, Plain ch) :
    split? (.ofList text) = some ((runs text).map String.ofList) := by
  rw [split?, String.toList_ofList]
  exact (splitFrom_plain plain).1

/-- A text ends in a run behind a blank, or is one itself. Behind a blank at its end, this run is empty. -/
theorem exists_last_run (text : List Char) : ∃ front run, text = front ++ run ∧ (∀ ch ∈ run, isGap ch = false) ∧
    (front = [] ∨ ∃ before ch, front = before ++ [ch] ∧ isGap ch = true) := by
  induction text using List.reverseRecOn with
  | nil => exact ⟨[], [], rfl, List.forall_mem_nil _, .inl rfl⟩
  | append_singleton text c ih =>
    by_cases blank : isGap c = true
    · exact ⟨text ++ [c], [], by simp, List.forall_mem_nil _, .inr ⟨text, c, rfl, blank⟩⟩
    · obtain ⟨front, run, rfl, inside, start⟩ := ih
      refine ⟨front, run ++ [c], by simp, ?_, start⟩
      exact List.forall_mem_append.2 ⟨inside, List.forall_mem_singleton.2 (Bool.not_eq_true _ ▸ blank)⟩

/-! ## Suggestions -/

/-- The suggestion puts its candidates in place of a word, and each begins with this word. -/
structure Offers (s : Suggestion) (word : List Char) : Prop where
  replaced : s.replaced = byteLength word
  begins : ∀ candidate ∈ s.candidates, word <+: candidate.toList

/-- What can be replaced at the end of some words: nothing, or the last of them. -/
inductive AtEnd (words : List String) : List Char → Prop
  | nothing : AtEnd words []
  | last {word : String} : words.getLast? = some word → AtEnd words word.toList

theorem offers_nothing : Offers .nothing [] := ⟨rfl, List.forall_mem_nil _⟩

theorem offers_ofWord (word : String) (choices : List String) : Offers (.ofWord word choices) word.toList where
  replaced := rfl
  begins candidate member := by
    have chosen := (List.mem_mergeSort.1 (List.mem_eraseDups.1 member))
    have begins : word.toList.isPrefixOf candidate.toList = true := (List.mem_filter.1 chosen).2
    exact List.isPrefixOf_iff_prefix.1 begins

theorem offers_argument (labels : List String) (verb : Verb) (words : List String) :
    ∃ word, AtEnd words word ∧ Offers (suggestArgument labels verb words) word := by
  unfold suggestArgument
  split
  case h_3 =>
    split
    · exact ⟨_, .nothing, offers_nothing⟩
    · exact ⟨_, .nothing, offers_nothing⟩
    · exact ⟨_, .last rfl, offers_ofWord _ _⟩
  case h_1 | h_7 => exact ⟨_, .nothing, offers_nothing⟩
  all_goals exact ⟨_, .last rfl, offers_ofWord _ _⟩

theorem offers_suggest (labels words : List String) :
    ∃ word, AtEnd words word ∧ Offers (suggest labels words) word := by
  unfold suggest
  split
  · exact ⟨_, .nothing, offers_ofWord "" _⟩
  · exact ⟨_, .last rfl, offers_ofWord _ _⟩
  · next first words _ =>
    split
    · next verb found =>
      obtain ⟨word, atEnd, offers⟩ := offers_argument labels verb words
      refine ⟨word, ?_, offers⟩
      cases atEnd with
      | nothing => exact .nothing
      | last ends => exact .last (by rw [List.getLast?_cons, ends]; rfl)
    · exact ⟨_, .nothing, offers_nothing⟩

/-! ## What is replaced -/

/-- What can be replaced at the end of a text: all of it where a quote is open, or nothing, or its last word, if no
blank is behind this. -/
inductive Replaced (text : List Char) : List Char → Prop
  | unread : split? (.ofList text) = none → Replaced text text
  | nothing : Replaced text []
  | last {words : List String} {word : String} : split? (.ofList text) = some words → words.getLast? = some word →
      (∀ ch ∈ text.getLast?, ch ≠ ' ' ∧ ch ≠ '\t') → Replaced text word.toList

theorem replaced_length (replaced : Replaced text word) : byteLength word ≤ byteLength text := by
  cases replaced with
  | unread _ => exact le_rfl
  | nothing => exact Nat.zero_le _
  | last split last _ => exact split?_length split _ (List.mem_of_getLast? last)

/-- The last run of a text is behind the runs of the text in front of it. -/
theorem runs_behind {run : List Char} (inside : ∀ ch ∈ run, isGap ch = false) (nonempty : run ≠ [])
    (start : front = [] ∨ ∃ before ch, front = before ++ [ch] ∧ isGap ch = true) :
    runs (front ++ run) = runs front ++ [run] := by
  have single := runs_run inside nonempty
  rcases start with rfl | ⟨before, ch, rfl, gap⟩
  · exact single
  · rw [List.append_assoc, List.singleton_append, runs_gap gap, runs_gap gap, single]
    simp [runs]

theorem runs_last {run : List Char} (inside : ∀ ch ∈ run, isGap ch = false) (nonempty : run ≠ [])
    (start : front = [] ∨ ∃ before ch, front = before ++ [ch] ∧ isGap ch = true) :
    (runs (front ++ run)).getLast? = some run := by
  rw [runs_behind inside nonempty start, List.getLast?_concat]

/-- What can be replaced at the end of a plain text stands there. -/
theorem suffix_of_plain (plain : ∀ ch ∈ text, Plain ch) (replaced : Replaced text word) : word <:+ text := by
  cases replaced with
  | unread _ => exact List.suffix_rfl
  | nothing => exact List.nil_suffix
  | @last words word split last noBlank =>
    rw [split?_plain plain] at split
    obtain rfl := Option.some.inj split
    obtain ⟨front, run, rfl, inside, start⟩ := exists_last_run text
    by_cases empty : run = []
    · subst empty
      rcases start with rfl | ⟨before, ch, rfl, gap⟩
      · cases last
      · -- A plain text that ends in a blank has a space or a tab there.
        have noFeed : ch ≠ '\n' := (plain ch (by simp)).2.2.2.2
        have noSpace := noBlank ch (by simp)
        simp [isGap, noFeed, noSpace] at gap
    · rw [List.getLast?_map, runs_last inside empty start] at last
      obtain rfl : .ofList run = word := Option.some.inj last
      rw [String.toList_ofList]
      exact List.suffix_append front run

/-- The words of a text, with an empty one behind a blank. -/
def withEmpty (text : List Char) (words : List String) : List String :=
  if text.getLast?.any fun c => c = ' ' || c = '\t' then words ++ [""] else words

theorem wordsBefore?_eq (whole : line.toList = text ++ behind) :
    wordsBefore? line (byteLength text) = (split? (.ofList text)).map (withEmpty text) := by
  rw [wordsBefore?, whole, firstBytes?_append]
  cases found : split? (.ofList text) <;> simp [found, withEmpty]

/-- At the end of the words before the cursor is what can be replaced at the end of the text. -/
theorem replaced_of_atEnd (split : split? (.ofList text) = some words) (atEnd : AtEnd (withEmpty text words) word) :
    Replaced text word := by
  unfold withEmpty at atEnd
  cases atEnd with
  | nothing => exact .nothing
  | @last word last =>
    by_cases blank : (text.getLast?.any fun c => c = ' ' || c = '\t') = true
    · rw [if_pos blank, List.getLast?_append] at last
      obtain rfl : "" = word := Option.some.inj last
      exact .nothing
    · rw [if_neg blank] at last
      refine .last split last fun ch ends => ?_
      simpa [Option.mem_def.1 ends] using blank

theorem complete_replaced (labels : List String) (whole : line.toList = text ++ behind) : ∃ word, Replaced text word ∧
    (complete labels line (byteLength text)).1 + byteLength word = byteLength text ∧
    ∀ candidate ∈ (complete labels line (byteLength text)).2, word <+: candidate.toList := by
  rw [complete, wordsBefore?_eq whole]
  cases split : split? (.ofList text) with
  | none => exact ⟨text, .unread split, Nat.zero_add _, List.forall_mem_nil _⟩
  | some words =>
    obtain ⟨word, atEnd, bytes, begins⟩ := offers_suggest labels (withEmpty text words)
    have replaced := replaced_of_atEnd split atEnd
    refine ⟨word, replaced, ?_, begins⟩
    rw [← bytes]
    exact Nat.sub_add_cancel (bytes ▸ replaced_length replaced)

/-- What is replaced, from where the completion begins to the cursor, is what each candidate begins with. -/
def Extends (labels : List String) (line : String) (cursor : Nat) : Prop :=
  ∃ front typed behind, line.toList = front ++ typed ++ behind ∧ byteLength front = (complete labels line cursor).1 ∧
    byteLength (front ++ typed) = cursor ∧ ∀ candidate ∈ (complete labels line cursor).2, typed <+: candidate.toList

/-- Of the parts of one text that are as long as a word and that it begins with, there is only the word. -/
theorem eq_of_prefixes {typed candidate : List Char} (first : typed <+: candidate) (second : word <+: candidate)
    (same : byteLength typed = byteLength word) : typed = word := by
  obtain ⟨rest, rfl⟩ := first
  obtain ⟨other, whole⟩ := second
  exact (append_inj_of_byteLength whole same.symm).1.symm

theorem extends_iff (whole : line.toList = text ++ behind)
    (start : (complete labels line (byteLength text)).1 + byteLength word = byteLength text)
    (begins : ∀ candidate ∈ (complete labels line (byteLength text)).2, word <+: candidate.toList) :
    Extends labels line (byteLength text) ↔ word <:+ text ∨ (complete labels line (byteLength text)).2 = [] ∧
      ∃ front typed, text = front ++ typed ∧ byteLength typed = byteLength word := by
  constructor
  · rintro ⟨front, typed, rest, parts, first, cursor, kept⟩
    obtain ⟨rfl, -⟩ := append_inj_of_byteLength (parts.symm.trans whole) cursor
    have length := byteLength_append front typed
    have same : byteLength typed = byteLength word := by omega
    by_cases unmatched : (complete labels line (byteLength (front ++ typed))).2 = []
    · exact .inr ⟨unmatched, front, typed, rfl, same⟩
    · obtain ⟨candidate, member⟩ := List.exists_mem_of_ne_nil _ unmatched
      exact .inl (eq_of_prefixes (kept _ member) (begins _ member) same ▸ List.suffix_append front typed)
  · rintro (⟨front, rfl⟩ | ⟨unmatched, front, typed, rfl, same⟩)
    · have length := byteLength_append front word
      exact ⟨front, word, behind, whole, by omega, rfl, begins⟩
    · have length := byteLength_append front typed
      exact ⟨front, typed, behind, whole, by omega, rfl, unmatched ▸ List.forall_mem_nil _⟩

/-- What completion does with the cursor behind a text. -/
structure Completes (labels : List String) (line : String) (text word : List Char) : Prop where
  replaced : Replaced text word
  start : (complete labels line (byteLength text)).1 + byteLength word = byteLength text
  begins : ∀ candidate ∈ (complete labels line (byteLength text)).2, word <+: candidate.toList
  extends_iff : Extends labels line (byteLength text) ↔
    word <:+ text ∨ (complete labels line (byteLength text)).2 = [] ∧
      ∃ front typed, text = front ++ typed ∧ byteLength typed = byteLength word

/-- With the cursor behind any text, completion replaces as many bytes as the last word has, which is never more than
there are, and the candidates begin with this word. It only extends what was typed if the text ends in this word, or
if there are no candidates and a character begins where it begins; so it does if no quote, backslash, hash sign or
line feed is before the cursor. -/
theorem complete_extends (labels : List String) (whole : line.toList = text ++ behind) :
    (∃ word, Completes labels line text word) ∧
      ((∀ ch ∈ text, Plain ch) → Extends labels line (byteLength text)) := by
  obtain ⟨word, replaced, start, begins⟩ := complete_replaced labels whole
  have iff := extends_iff whole start begins
  exact ⟨⟨word, replaced, start, begins, iff⟩, fun plain => iff.2 (.inl (suffix_of_plain plain replaced))⟩

theorem complete_extends_break :
    complete ["main", "loop", "lost"] "break lo x" 8 = (6, ["loop", "lost"]) ∧
    (∃ word, Completes ["main", "loop", "lost"] "break lo x" "break lo".toList word) ∧
    Extends ["main", "loop", "lost"] "break lo x" 8 := by
  have before : wordsBefore? "break lo x" 8 = some ["break", "lo"] := by decide +kernel
  have offered : ["main", "loop", "lost"].filter (fun c => beginsWith c "lo") = ["loop", "lost"] := by decide +kernel
  have sorted : ["loop", "lost"].mergeSort (fun a b => a ≤ b) = ["loop", "lost"] :=
    List.mergeSort_of_pairwise (by decide +kernel)
  have suggested : suggest ["main", "loop", "lost"] ["break", "lo"] = ⟨2, ["loop", "lost"]⟩ := by
    have named : suggest ["main", "loop", "lost"] ["break", "lo"] = .ofWord "lo" ["main", "loop", "lost"] := rfl
    rw [named, Suggestion.ofWord, offered, sorted]
    decide +kernel
  have completed : complete ["main", "loop", "lost"] "break lo x" 8 = (6, ["loop", "lost"]) := by
    simp only [complete, before, suggested]
  have whole : "break lo x".toList = "break lo".toList ++ " x".toList := by decide +kernel
  have plain : ∀ ch ∈ "break lo".toList, Plain ch := by simp [Plain, singleQuote, doubleQuote, backslash]
  obtain ⟨completes, kept⟩ := complete_extends ["main", "loop", "lost"] whole
  exact ⟨completed, completes, kept plain⟩

/-- The word between the quotes has one byte, and so the quote behind it is replaced. -/
theorem quote_replaced :
    complete ["loop"] "break \x22l\x22" 9 = (8, ["loop"]) ∧ ¬ Extends ["loop"] "break \x22l\x22" 9 := by
  have completed : complete ["loop"] "break \x22l\x22" 9 = (8, ["loop"]) := by decide +kernel
  have whole : "break \x22l\x22".toList = "break \x22l\x22".toList ++ [] := (List.append_nil _).symm
  have cursor : byteLength "break \x22l\x22".toList = 9 := by decide +kernel
  have iff := @extends_iff ["loop"] _ _ _ ['l'] whole
  rw [cursor, completed] at iff
  refine ⟨completed, fun kept => ?_⟩
  rcases (iff rfl (by decide)).1 kept with inside | ⟨unmatched, -⟩
  · exact absurd inside (by decide +kernel)
  · cases unmatched

end Gosub.Completing
