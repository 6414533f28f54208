import Mathlib.Data.String.Basic
import Gosub.Proofs.Commands
import Gosub.Proofs.Completing

/-!
# What completion offers

Behind words that are parted by blanks, completion offers all that may come next there and begins with the word at the
cursor, and nothing else (`complete_exactly`): commands in the place of the first word, topics behind `info`, labels
behind `break` and `unbreak`. A hint is what the only candidate adds to the word.
-/

namespace Gosub.Candidates

open Debugger Words Text Commands Completing

variable {labels : List String} {line word : String} {text front run behind : List Char} {words options : List String}
  {s : Suggestion} {ch : Char} {cursor : Nat} {added : String}

/-! ## The words before the cursor -/

/-- Words are parted by spaces and tabs. -/
def isBlank (ch : Char) : Bool := ch = ' ' || ch = '\t'

/-- The parts of a text between its blanks. -/
def parts (text : List Char) : List (List Char) := text.splitOnP isBlank

/-- The word that a text ends in; behind a blank it is empty. -/
def lastWord (text : List Char) : List Char := (parts text).getLastD []

/-- The words in front of the last one. -/
def earlierWords (text : List Char) : List String := ((parts text).dropLast.filter (· ≠ [])).map String.ofList

theorem isGap_of_isBlank (blank : isBlank ch = true) : isGap ch = true := by
  rw [isGap, Bool.or_eq_true]
  exact .inl blank

theorem isBlank_of_plain (plain : Plain ch) : isBlank ch = isGap ch := by
  have noFeed : ch ≠ '\n' := plain.2.2.2.2
  simp [isBlank, isGap, noFeed]

theorem splitOnP_congr {p q : Char → Bool} (same : ∀ ch ∈ text, p ch = q ch) : text.splitOnP p = text.splitOnP q := by
  induction text with
  | nil => rw [List.splitOnP_nil, List.splitOnP_nil]
  | cons ch rest ih =>
    obtain ⟨here, later⟩ := List.forall_mem_cons.1 same
    rw [List.splitOnP_cons_eq_if_modifyHead, List.splitOnP_cons_eq_if_modifyHead, here, ih later]

theorem runs_plain (plain : ∀ ch ∈ text, Plain ch) : (parts text).filter (· ≠ []) = runs text := by
  rw [parts, runs, splitOnP_congr fun ch among => isBlank_of_plain (plain ch among)]

/-- The words of a plain text are the last run, be it empty, and those of the text in front of it. -/
theorem words_at_end (plain : ∀ ch ∈ front ++ run, Plain ch) (inside : ∀ ch ∈ run, isGap ch = false)
    (start : front = [] ∨ ∃ before ch, front = before ++ [ch] ∧ isGap ch = true) :
    lastWord (front ++ run) = run ∧ earlierWords (front ++ run) = (runs front).map String.ofList := by
  have single : parts run = [run] := by
    refine List.splitOnP_eq_singleton fun ch among => ?_
    rw [isBlank_of_plain (plain ch (List.mem_append_right _ among)), inside ch among]
  rcases start with rfl | ⟨before, ch, rfl, gap⟩
  · rw [List.nil_append, lastWord, earlierWords, single]
    exact ⟨rfl, rfl⟩
  · have blank : isBlank ch = true := by rw [isBlank_of_plain (plain ch (by simp)), gap]
    have parted : parts (before ++ [ch] ++ run) = parts before ++ [run] := by
      rw [List.append_assoc, List.singleton_append, parts, List.splitOnP_append_cons _ _ blank]
      exact congrArg (parts before ++ ·) single
    have others : runs (before ++ [ch]) = runs before := by
      rw [runs_gap gap]
      exact List.append_nil _
    constructor
    · rw [lastWord, parted, List.getLastD_concat]
    · rw [earlierWords, parted, List.dropLast_concat, runs_plain fun ch among => plain ch (by simp [among]), others]

theorem lastWord_suffix (plain : ∀ ch ∈ text, Plain ch) : lastWord text <:+ text := by
  obtain ⟨front, run, rfl, inside, start⟩ := exists_last_run text
  rw [(words_at_end plain inside start).1]
  exact List.suffix_append front run

/-- Of a plain text with the cursor behind it, the words are the earlier ones and the last one. -/
theorem withEmpty_runs (plain : ∀ ch ∈ text, Plain ch) (nonempty : text ≠ []) :
    withEmpty text ((runs text).map String.ofList) = earlierWords text ++ [.ofList (lastWord text)] := by
  obtain ⟨front, run, rfl, inside, start⟩ := exists_last_run text
  obtain ⟨last, earlier⟩ := words_at_end plain inside start
  rw [last, earlier, withEmpty]
  by_cases empty : run = []
  · subst empty
    rcases start with rfl | ⟨before, ch, rfl, gap⟩
    · exact absurd rfl nonempty
    · have blank : isBlank ch = true := by rw [isBlank_of_plain (plain ch (by simp)), gap]
      rw [List.append_nil, List.getLast?_concat, Option.any_some]
      exact if_pos blank
  · have ended : ((front ++ run).getLast?.any fun c => c = ' ' || c = '\t') = false := by
      rw [List.getLast?_append_of_ne_nil _ empty, List.getLast?_eq_some_getLast empty, Option.any_some]
      exact Bool.eq_false_iff.2 fun blank =>
        Bool.eq_false_iff.1 (inside _ (List.getLast_mem empty)) (isGap_of_isBlank blank)
    rw [ended, runs_behind inside empty start, List.map_append]
    rfl

/-! ## What may come next -/

/-- What may come behind some words. -/
def choices (labels : List String) : List String → List String
  | [] => ["step", "exit", "stack", "returns", "memory", "list", "break", "unbreak", "continue", "info", "help"]
  | ["info"] => ["breakpoints", "labels", "cost", "help"]
  | ["break"] | ["unbreak"] => labels
  | _ => []

/-- The choices behind one word are those of the verb that it is or stands for. -/
theorem choices_one (labels : List String) (first : String) : choices labels [first] =
    match Verb.find? first with
    | some .info => Topic.all.map Topic.name
    | some .setBreak | some .unsetBreak => labels
    | _ => [] := by
  cases found : Verb.find? first with
  | none =>
    have another (verb : Verb) : first ≠ verb.name := by
      rintro rfl
      rw [verb_find?_eq_some.2 (.inl rfl)] at found
      cases found
    have noInfo : first ≠ "info" := another .info
    have noBreak : first ≠ "break" := another .setBreak
    have noUnbreak : first ≠ "unbreak" := another .unsetBreak
    simp [choices, noInfo, noBreak, noUnbreak]
  | some verb =>
    rcases verb_find?_eq_some.1 found with rfl | short
    · cases verb <;> rfl
    · cases verb <;> cases short <;> rfl

theorem choices_more (labels : List String) (first second : String) (others : List String) :
    choices labels (first :: second :: others) = [] := by
  simp [choices]

/-- The suggestion offers those options that begin with a word, and puts them in its place. -/
structure Fits (s : Suggestion) (word : String) (options : List String) : Prop where
  candidates : s.candidates = (Suggestion.ofWord word options).candidates
  replaced : s.candidates ≠ [] → s.replaced = byteLength word.toList

theorem fits_ofWord (word : String) (options : List String) : Fits (.ofWord word options) word options :=
  ⟨rfl, fun _ => rfl⟩

theorem candidates_none (word : String) : (Suggestion.ofWord word []).candidates = [] := by
  simp [Suggestion.ofWord]

theorem fits_none (word : String) (none : s.candidates = []) : Fits s word [] :=
  ⟨none.trans (candidates_none word).symm, fun some => absurd none some⟩

theorem fits_suggest (labels earlier : List String) (word : String) :
    Fits (suggest labels (earlier ++ [word])) word (choices labels earlier) := by
  match earlier with
  | [] => exact fits_ofWord word _
  | [first] =>
    rw [choices_one]
    simp only [List.cons_append, List.nil_append, suggest]
    cases Verb.find? first with
    | none => exact fits_none word rfl
    | some verb =>
      cases verb with
      | help => exact fits_none word rfl
      | info | setBreak | unsetBreak => exact fits_ofWord word _
      | _ => exact fits_ofWord word []
  | [first, topic] =>
    rw [choices_more]
    simp only [List.cons_append, List.nil_append, suggest]
    cases Verb.find? first with
    | none => exact fits_none word rfl
    | some verb =>
      cases verb with
      | info =>
        simp only [suggestArgument]
        split
        · exact fits_none word rfl
        · exact fits_none word rfl
        · exact fits_ofWord word []
      | _ => exact fits_none word rfl
  | first :: topic :: other :: others =>
    rw [choices_more]
    simp only [List.cons_append, suggest]
    cases Verb.find? first with
    | none => exact fits_none word rfl
    | some verb =>
      -- So many arguments are behind no verb.
      cases verb <;> cases others <;> exact fits_none word rfl

/-! ## Candidates -/

/-- Without its repetitions, a row that never falls always rises. -/
theorem increasing_eraseDups {row : List String} (sorted : row.Pairwise (· ≤ ·)) :
    row.eraseDups.Pairwise (· < ·) := by
  -- By induction on the length, since erasing goes on with what is left once the first is filtered out.
  induction h : row.length using Nat.strongRecOn generalizing row with
  | ind n ih =>
    cases row with
    | nil => exact List.Pairwise.nil
    | cons first rest =>
      obtain ⟨least, others⟩ := List.pairwise_cons.1 sorted
      rw [List.eraseDups_cons, List.pairwise_cons]
      constructor
      · intro c member
        obtain ⟨among, different⟩ := List.mem_filter.1 (List.mem_eraseDups.1 member)
        have other : c ≠ first := by simpa using different
        exact lt_of_le_of_ne (least c among) other.symm
      · have shorter := List.length_filter_le (fun c => !c == first) rest
        refine ih _ ?_ (others.filter _) rfl
        rw [← h, List.length_cons]
        omega

theorem Fits.increasing (fits : Fits s word options) : s.candidates.Pairwise (· < ·) := by
  rw [fits.candidates]
  refine increasing_eraseDups ((List.pairwise_mergeSort ?_ ?_ _).imp of_decide_eq_true)
  · intro a b c first second
    exact decide_eq_true (le_trans (of_decide_eq_true first) (of_decide_eq_true second))
  · intro a b
    simpa using le_total a b

theorem Fits.mem_iff {c : String} (fits : Fits s word options) :
    c ∈ s.candidates ↔ c ∈ options ∧ word.toList <+: c.toList := by
  rw [fits.candidates, Suggestion.ofWord, List.mem_eraseDups, List.mem_mergeSort, List.mem_filter, beginsWith,
    List.isPrefixOf_iff_prefix]

/-! ## Hints -/

theorem candidates_of_hint? (before : wordsBefore? line cursor = some words)
    (hinted : hint? labels line cursor = some added) : ∃ c, (suggest labels words).candidates = [c] := by
  simp only [hint?, before, Option.bind_eq_bind, Option.bind_some] at hinted
  split at hinted
  · next c only => exact ⟨c, only⟩
  · cases hinted

theorem hint?_of_candidates {c : String} {rest : List Char} (before : wordsBefore? line cursor = some words)
    (only : (suggest labels words).candidates = [c]) (fits : Fits (suggest labels words) word options)
    (begins : c.toList = word.toList ++ rest) : hint? labels line cursor = some (.ofList rest) := by
  have bytes := fits.replaced (only ▸ List.cons_ne_nil c [])
  simp [hint?, before, only, bytes, begins, firstBytes?_append]

/-- There is a hint where one candidate is left, which is the word with the hint behind it. -/
theorem hint?_iff (before : wordsBefore? line cursor = some words)
    (fits : Fits (suggest labels words) word options) : hint? labels line cursor = some added ↔
      ∃ c, (suggest labels words).candidates = [c] ∧ c.toList = word.toList ++ added.toList := by
  constructor
  · intro hinted
    obtain ⟨c, only⟩ := candidates_of_hint? before hinted
    obtain ⟨-, rest, begins⟩ := fits.mem_iff.1 (only ▸ List.mem_singleton_self c)
    have same := hint?_of_candidates before only fits begins.symm
    rw [hinted] at same
    refine ⟨c, only, ?_⟩
    rw [Option.some.inj same, String.toList_ofList, begins]
  · rintro ⟨c, only, begins⟩
    rw [hint?_of_candidates before only fits begins, String.ofList_toList]

/-! ## Completion -/

/-- The suggestion that completion and hint are taken from. -/
theorem exists_suggestion (labels : List String) (whole : line.toList = text ++ behind)
    (plain : ∀ ch ∈ text, Plain ch) : ∃ words, wordsBefore? line (byteLength text) = some words ∧
      Fits (suggest labels words) (.ofList (lastWord text)) (choices labels (earlierWords text)) := by
  rw [wordsBefore?_eq whole, split?_plain plain]
  refine ⟨_, rfl, ?_⟩
  by_cases empty : text = []
  · subst empty
    exact fits_ofWord "" _
  · rw [withEmpty_runs plain empty]
    exact fits_suggest labels _ _

/-- What is completed behind a text, and what the hint there is. -/
structure Exact (labels : List String) (line : String) (text : List Char) : Prop where
  increasing : (complete labels line (byteLength text)).2.Pairwise (· < ·)
  offered : ∀ c, c ∈ (complete labels line (byteLength text)).2 ↔
    c ∈ choices labels (earlierWords text) ∧ lastWord text <+: c.toList
  start : (complete labels line (byteLength text)).2 ≠ [] →
    (complete labels line (byteLength text)).1 + byteLength (lastWord text) = byteLength text
  hint : ∀ added, hint? labels line (byteLength text) = some added ↔
    ∃ c, (complete labels line (byteLength text)).2 = [c] ∧ c.toList = lastWord text ++ added.toList

/-- Where no quote, backslash, hash sign or line feed is before the cursor, the candidates are the choices that begin
with the last word, in order and each once, in place of this word, and the hint is what the only one adds to it. -/
theorem complete_exactly (labels : List String) (whole : line.toList = text ++ behind)
    (plain : ∀ ch ∈ text, Plain ch) : Exact labels line text := by
  obtain ⟨words, before, fits⟩ := exists_suggestion labels whole plain
  have completed : complete labels line (byteLength text) =
      (byteLength text - (suggest labels words).replaced, (suggest labels words).candidates) := by
    rw [complete, before]
  have word : (String.ofList (lastWord text)).toList = lastWord text := String.toList_ofList
  refine ⟨?_, fun c => ?_, ?_, fun added => ?_⟩
  · rw [completed]
    exact fits.increasing
  · rw [completed, ← word]
    exact fits.mem_iff
  · rw [completed]
    intro some
    obtain ⟨front, parted⟩ := lastWord_suffix plain
    have length := byteLength_append front (lastWord text)
    have bytes := fits.replaced some
    rw [word] at bytes
    rw [parted] at length
    dsimp only
    omega
  · rw [completed, ← word]
    exact hint?_iff before fits

/-- Behind `info` no label is offered, and of the topics only `cost` begins alike. -/
theorem complete_exactly_info : complete ["code", "cost"] "info\t co x" 8 = (6, ["cost"]) ∧
    hint? ["code", "cost"] "info\t co x" 8 = some "st" ∧
    (∀ ch ∈ "info\t co".toList, Plain ch) ∧ Exact ["code", "cost"] "info\t co x" "info\t co".toList := by
  have whole : "info\t co x".toList = "info\t co".toList ++ " x".toList := by decide +kernel
  have plain : ∀ ch ∈ "info\t co".toList, Plain ch := by simp [Plain, singleQuote, doubleQuote, backslash]
  exact ⟨by decide +kernel, by decide +kernel, plain, complete_exactly _ whole plain⟩

end Gosub.Candidates
