import Mathlib.Data.List.Nodup
import Gosub.Debugger.Command
import Gosub.Proofs.Grammar

/-!
# What commands words spell

The words of a command are a verb and what it is given:

    step [count] | exit | stack | returns | memory offset [count] | list [count]
      | break place | unbreak place | continue | info [topic]

Verbs and topics may be cut short as long as nothing else begins alike, and `s` and `c` are `step` and `continue`
(`Spells`). Words are read as a command just when they spell it (`ofWords?_eq_some`).
-/

namespace Gosub.Commands

open Debugger Grammar

/-! ## Forms -/

def verbNames : List String :=
  ["step", "exit", "stack", "returns", "memory", "list", "break", "unbreak", "continue", "info", "help"]

def topicNames : List String := ["breakpoints", "labels", "cost", "help"]

/-- Among some names, this one alone begins with the word. -/
def Begins (names : List String) (word name : String) : Prop :=
  ∀ other, other ∈ names ∧ word.toList <+: other.toList ↔ other = name

/-- The word stands for the verb of this name. -/
def Stands (word name : String) : Prop :=
  Begins verbNames word name ∨ (word = "s" ∧ name = "step") ∨ (word = "c" ∧ name = "continue")

/-- A decimal number of 64 bits, maybe behind a plus sign. -/
def Count (text : String) (n : Nat) : Prop :=
  n < 2 ^ 64 ∧ (Denotes 10 text.toList n ∨ ∃ digits, text.toList = '+' :: digits ∧ Denotes 10 digits n)

inductive Place : String → Location → Prop
  | offset {text : String} {value : Word} : Literal text.toList value.toNat → Place text (.offset value)
  | label {name : String} : (∀ ch ∈ name.toList.head?, ¬ Digit ch) → Place name (.label name)

/-- What is given in some words: none of it looks like an option, unless it is behind `--`. -/
inductive Gives : List String → List String → Prop
  | none : Gives [] []
  | more {word : String} {words given : List String} : word = "-" ∨ ¬ "-".toList <+: word.toList → Gives words given →
      Gives (word :: words) (word :: given)
  | rest {words : List String} : Gives ("--" :: words) words

/-- What a verb says with what it is given. -/
inductive Says : String → List String → Command → Prop
  | step : Says "step" [] (.step 1)
  | steps {count : String} {n : Nat} : Count count n → Says "step" [count] (.step n)
  | exit : Says "exit" [] .exit
  | stack : Says "stack" [] .stack
  | returns : Says "returns" [] .returns
  | memory {offset : String} {a : Word} : Literal offset.toList a.toNat → Says "memory" [offset] (.memory a 32)
  | bytes {offset count : String} {a : Word} {n : Nat} : Literal offset.toList a.toNat → Count count n →
      Says "memory" [offset, count] (.memory a n)
  | list : Says "list" [] (.list 10)
  | instructions {count : String} {n : Nat} : Count count n → Says "list" [count] (.list n)
  | setBreak {place : String} {location : Location} : Place place location →
      Says "break" [place] (.setBreak location)
  | unsetBreak {place : String} {location : Location} : Place place location →
      Says "unbreak" [place] (.unsetBreak location)
  | resume : Says "continue" [] .resume
  | info : Says "info" [] (.info none)

inductive Titled : String → Topic → Prop
  | breakpoints : Titled "breakpoints" .breakpoints
  | labels : Titled "labels" .labels
  | cost : Titled "cost" .cost

/-- The words spell the command. A topic is not behind `--`. -/
inductive Spells : List String → Command → Prop
  | verb {word name : String} {words given : List String} {c : Command} : Stands word name → Gives words given →
      Says name given c → Spells (word :: words) c
  | topic {word second title : String} {words : List String} {t : Topic} : Stands word "info" →
      Begins topicNames second title → Titled title t → Gives words [] →
      Spells (word :: second :: words) (.info (some t))

variable {word text name : String} {words given : List String} {v : Verb} {t : Topic} {location : Location}
  {c : Command} {n : Nat}

/-! ## Names -/

theorem mem_verbs (v : Verb) : v ∈ Verb.all := by
  cases v <;> decide

theorem mem_topics (t : Topic) : t ∈ Topic.all := by
  cases t <;> decide

theorem verb_name_injective : Function.Injective Verb.name := by
  have distinct : (Verb.all.map Verb.name).Nodup := by decide
  exact fun u v same => List.inj_on_of_nodup_map distinct (mem_verbs u) (mem_verbs v) same

/-- Among things of different names, one alone has a name that begins with the word. -/
theorem filter_eq_singleton {α : Type} {all : List α} {title : α → String} (distinct : (all.map title).Nodup) {one : α}
    (member : one ∈ all) : (all.filter fun other => Text.beginsWith (title other) word) = [one] ↔
      Begins (all.map title) word (title one) := by
  have among (other : α) : other ∈ (all.filter fun other => Text.beginsWith (title other) word) ↔
      other ∈ all ∧ word.toList <+: (title other).toList := by
    rw [List.mem_filter, Text.beginsWith, List.isPrefixOf_iff_prefix]
  constructor
  · intro alone name
    rw [alone] at among
    constructor
    · rintro ⟨named, begins⟩
      obtain ⟨other, listed, rfl⟩ := List.mem_map.1 named
      rw [List.mem_singleton.1 ((among other).2 ⟨listed, begins⟩)]
    · rintro rfl
      exact ⟨List.mem_map_of_mem member, ((among one).1 List.mem_cons_self).2⟩
  · intro begins
    have single (other : α) : other ∈ (all.filter fun other => Text.beginsWith (title other) word) ↔ other ∈ [one] := by
      rw [among, List.mem_singleton]
      constructor
      · rintro ⟨listed, begun⟩
        have same := (begins _).1 ⟨List.mem_map_of_mem listed, begun⟩
        exact List.inj_on_of_nodup_map distinct listed member same
      · rintro rfl
        exact ⟨member, ((begins _).2 rfl).2⟩
    have kept := distinct.of_map.filter fun other => Text.beginsWith (title other) word
    exact List.perm_singleton.1 ((List.perm_ext_iff_of_nodup kept (List.nodup_singleton one)).2 single)

theorem verb_alone (word : String) (v : Verb) :
    (Verb.all.filter fun other => Text.beginsWith other.name word) = [v] ↔ Begins verbNames word v.name :=
  filter_eq_singleton (by decide) (mem_verbs v)

theorem topic_alone (word : String) (t : Topic) :
    (Topic.all.filter fun other => Text.beginsWith other.name word) = [t] ↔ Begins topicNames word t.name :=
  filter_eq_singleton (by decide) (mem_topics t)

theorem verb_find?_eq_some : Verb.find? word = some v ↔ word = v.name ∨ v.alias? = some word := by
  constructor
  · intro found
    have named := List.find?_some found
    rw [Bool.or_eq_true, beq_iff_eq, beq_iff_eq] at named
    exact named.imp_left Eq.symm
  · rintro (rfl | short)
    · cases v <;> rfl
    · cases v <;> cases short <;> rfl

/-- A verb is inferred from the words that stand for it. -/
theorem verb_infer?_eq_some : Verb.infer? word = some v ↔ Stands word v.name := by
  -- Of the two letters, `s` begins two names and is looked up, and `c` begins one alone.
  have step : (Verb.all.filter fun other => Text.beginsWith other.name "s") = [.step, .stack] := by decide +kernel
  have resume : (Verb.all.filter fun other => Text.beginsWith other.name "c") = [.resume] := by decide +kernel
  unfold Verb.infer?
  split
  · next u alone =>
    constructor
    · intro same
      cases same
      exact .inl ((verb_alone word _).1 alone)
    · rintro (begins | ⟨rfl, named⟩ | ⟨rfl, named⟩)
      · rw [← verb_alone, alone] at begins
        cases begins
        rfl
      · rw [step] at alone
        cases alone
      · rw [resume] at alone
        cases alone
        exact congrArg some (verb_name_injective named.symm)
  · next several =>
    rw [verb_find?_eq_some]
    constructor
    · rintro (rfl | short)
      · refine absurd ?_ (several v)
        cases v <;> decide +kernel
      · cases v <;> cases short
        · exact .inr (.inl ⟨rfl, rfl⟩)
        · exact .inr (.inr ⟨rfl, rfl⟩)
    · rintro (begins | ⟨rfl, named⟩ | ⟨rfl, named⟩)
      · exact absurd ((verb_alone word v).2 begins) (several v)
      · obtain rfl : v = .step := verb_name_injective named
        exact .inr rfl
      · exact absurd resume (several _)

theorem topic_infer?_eq_some : Topic.infer? word = some t ↔ Begins topicNames word t.name := by
  rw [← topic_alone]
  unfold Topic.infer?
  split
  · next u alone => rw [alone, Option.some.injEq, List.singleton_inj]
  · next several =>
    refine ⟨fun found => ?_, fun alone => absurd alone (several t)⟩
    have named := List.find?_some found
    obtain rfl : t.name = word := beq_iff_eq.1 named
    cases t <;> decide +kernel

theorem titled_iff : Titled name t ↔ name = t.name ∧ t ≠ .help := by
  constructor
  · rintro ⟨⟩ <;> exact ⟨rfl, by decide⟩
  · rintro ⟨rfl, named⟩
    cases t with
    | breakpoints => exact .breakpoints
    | labels => exact .labels
    | cost => exact .cost
    | help => exact absurd rfl named

/-! ## What is given -/

theorem plainArguments?_eq_some : plainArguments? words = some given ↔ Gives words given := by
  induction words generalizing given with
  | nil =>
    rw [plainArguments?, Option.some.injEq]
    constructor
    · rintro rfl
      exact .none
    · rintro ⟨⟩
      rfl
  | cons word words ih =>
    rw [plainArguments?]
    by_cases rest : word = "--"
    · subst rest
      rw [if_pos rfl, Option.some.injEq]
      constructor
      · rintro rfl
        exact .rest
      · intro gives
        cases gives with
        | rest => rfl
        | more plain _ => exact absurd plain (by decide +kernel)
    · rw [if_neg rest]
      have optional : (Text.beginsWith word "-" && word != "-") = true ↔
          ¬ (word = "-" ∨ ¬ "-".toList <+: word.toList) := by
        rw [Bool.and_eq_true, Text.beginsWith, List.isPrefixOf_iff_prefix, bne_iff_ne]
        tauto
      split
      · next option =>
        constructor
        · intro none
          cases none
        · intro gives
          cases gives with
          | more plain _ => exact absurd plain (optional.1 option)
          | rest => exact absurd rfl rest
      · next plain =>
        rw [optional, not_not] at plain
        rw [Option.map_eq_some_iff]
        constructor
        · rintro ⟨others, read, rfl⟩
          exact .more plain (ih.1 read)
        · intro gives
          cases gives with
          | more _ later => exact ⟨_, ih.2 later, rfl⟩
          | rest => exact absurd rfl rest

theorem readNatural?_eq_some : Text.readNatural? text = some n ↔ Count text n := by
  have read (digits : List Char) : (Numeral.read? 10 digits).filter (· < Text.countBound) = some n ↔
      n < 2 ^ 64 ∧ Denotes 10 digits n := by
    rw [Option.filter_eq_some_iff, read?_eq_some (by decide), decide_eq_true_iff, Text.countBound]
    exact and_comm
  unfold Text.readNatural? Count
  cases signed : text.toList with
  | nil => simp [read]
  | cons first rest =>
    by_cases plus : first = '+'
    · subst plus
      have other : ¬ Denotes 10 ('+' :: rest) n := not_denotes (by decide) List.mem_cons_self (by decide)
      simp [read, other]
    · simp [read, plus]

theorem digit_of_literal {text : List Char} (literal : Literal text n) : ∃ ch ∈ text.head?, Digit ch := by
  cases literal with
  | decimal denotes =>
    obtain ⟨nonempty, digits⟩ := denotes.digits (by decide)
    obtain ⟨first, rest, rfl⟩ := List.exists_cons_of_ne_nil nonempty
    exact ⟨first, rfl, digit_of_isDigit (digits first List.mem_cons_self)⟩
  | hexadecimal => exact ⟨'0', rfl, by decide, by decide⟩

theorem location_read?_eq_some : Location.read? text = some location ↔ Place text location := by
  have starts : text.toList.head?.any Char.isDigit = true ↔ ∃ ch ∈ text.toList.head?, Digit ch := by
    simp [Option.any_eq_true, char_isDigit_iff]
  unfold Location.read?
  split
  · next digit =>
    rw [Option.map_eq_some_iff]
    constructor
    · rintro ⟨value, read, rfl⟩
      exact .offset (ofLiteral?_eq_some.1 read)
    · intro place
      cases place with
      | offset literal => exact ⟨_, ofLiteral?_eq_some.2 literal, rfl⟩
      | label other =>
        obtain ⟨ch, first, digit⟩ := starts.1 digit
        exact absurd digit (other ch first)
  · next other =>
    constructor
    · intro same
      cases same
      exact .label fun ch first digit => other (starts.2 ⟨ch, first, digit⟩)
    · intro place
      cases place with
      | offset literal => exact absurd (starts.2 (digit_of_literal literal)) other
      | label _ => rfl

/-! ## Commands -/

theorem says_of_ofArguments? (read : Command.ofArguments? v given = some c) : Says v.name given c := by
  unfold Command.ofArguments? at read
  split at read
  · cases read
    exact .step
  · obtain ⟨n, count, rfl⟩ := Option.map_eq_some_iff.1 read
    exact .steps (readNatural?_eq_some.1 count)
  · cases read
    exact .exit
  · cases read
    exact .stack
  · cases read
    exact .returns
  · obtain ⟨a, literal, rfl⟩ := Option.map_eq_some_iff.1 read
    exact .memory (ofLiteral?_eq_some.1 literal)
  · obtain ⟨a, literal, read⟩ := Option.bind_eq_some_iff.1 read
    obtain ⟨n, count, same⟩ := Option.bind_eq_some_iff.1 read
    cases same
    exact .bytes (ofLiteral?_eq_some.1 literal) (readNatural?_eq_some.1 count)
  · cases read
    exact .list
  · obtain ⟨n, count, rfl⟩ := Option.map_eq_some_iff.1 read
    exact .instructions (readNatural?_eq_some.1 count)
  · obtain ⟨location, place, rfl⟩ := Option.map_eq_some_iff.1 read
    exact .setBreak (location_read?_eq_some.1 place)
  · obtain ⟨location, place, rfl⟩ := Option.map_eq_some_iff.1 read
    exact .unsetBreak (location_read?_eq_some.1 place)
  · cases read
    exact .resume
  · cases read

/-- A verb other than `info` is read with what it is given. -/
theorem ofArguments?_of_says (said : Says name given c) : (name = "info" ∧ given = [] ∧ c = .info none) ∨
    ∃ v : Verb, name = v.name ∧ v ≠ .info ∧ Command.ofArguments? v given = some c := by
  cases said with
  | step => exact .inr ⟨.step, rfl, by decide, rfl⟩
  | steps count =>
    exact .inr ⟨.step, rfl, by decide, Option.map_eq_some_iff.2 ⟨_, readNatural?_eq_some.2 count, rfl⟩⟩
  | exit => exact .inr ⟨.exit, rfl, by decide, rfl⟩
  | stack => exact .inr ⟨.stack, rfl, by decide, rfl⟩
  | returns => exact .inr ⟨.returns, rfl, by decide, rfl⟩
  | memory literal =>
    exact .inr ⟨.memory, rfl, by decide, Option.map_eq_some_iff.2 ⟨_, ofLiteral?_eq_some.2 literal, rfl⟩⟩
  | bytes literal count =>
    refine .inr ⟨.memory, rfl, by decide, ?_⟩
    simp only [Command.ofArguments?, ofLiteral?_eq_some.2 literal, readNatural?_eq_some.2 count]
    rfl
  | list => exact .inr ⟨.list, rfl, by decide, rfl⟩
  | instructions count =>
    exact .inr ⟨.list, rfl, by decide, Option.map_eq_some_iff.2 ⟨_, readNatural?_eq_some.2 count, rfl⟩⟩
  | setBreak place =>
    exact .inr ⟨.setBreak, rfl, by decide, Option.map_eq_some_iff.2 ⟨_, location_read?_eq_some.2 place, rfl⟩⟩
  | unsetBreak place =>
    exact .inr ⟨.unsetBreak, rfl, by decide, Option.map_eq_some_iff.2 ⟨_, location_read?_eq_some.2 place, rfl⟩⟩
  | resume => exact .inr ⟨.resume, rfl, by decide, rfl⟩
  | info => exact .inl ⟨rfl, rfl, rfl⟩

theorem gives_nil : Gives words [] ↔ words = [] ∨ words = ["--"] := by
  constructor
  · intro gives
    cases gives with
    | none => exact .inl rfl
    | rest => exact .inr rfl
  · rintro (rfl | rfl)
    · exact .none
    · exact .rest

theorem topic?_eq_some {topic : Option Topic} : Command.topic? words = some topic ↔
    (topic = none ∧ Gives words []) ∨ ∃ second title rest t, words = second :: rest ∧ topic = some t ∧
      Begins topicNames second title ∧ Titled title t ∧ Gives rest [] := by
  constructor
  · intro read
    unfold Command.topic? at read
    split at read
    · cases read
      exact .inl ⟨rfl, .none⟩
    · next second rest =>
      split_ifs at read with dashes alone
      · cases read
        obtain rfl := List.isEmpty_iff.1 alone
        exact .inl ⟨rfl, dashes ▸ .rest⟩
      · split at read
        · cases read
        · next t notHelp inferred nothing =>
          cases read
          exact .inr ⟨second, t.name, rest, t, rfl, rfl, topic_infer?_eq_some.1 inferred,
            titled_iff.2 ⟨rfl, notHelp⟩, plainArguments?_eq_some.1 nothing⟩
        · cases read
  · rintro (⟨rfl, gives⟩ | ⟨second, title, rest, t, rfl, rfl, begins, titled, gives⟩)
    · rcases gives_nil.1 gives with rfl | rfl <;> rfl
    · obtain ⟨rfl, notHelp⟩ := titled_iff.1 titled
      have inferred := topic_infer?_eq_some.2 begins
      have nothing := plainArguments?_eq_some.2 gives
      have noDashes : second ≠ "--" := by
        rintro rfl
        have none : Topic.infer? "--" = none := by decide +kernel
        rw [none] at inferred
        cases inferred
      rw [Command.topic?, if_neg noDashes, inferred, nothing]
      cases t with
      | help => exact absurd rfl notHelp
      | _ => rfl

theorem ofWords?_info (inferred : Verb.infer? word = some .info) :
    Command.ofWords? (word :: words) = (Command.topic? words).map .info := by
  simp only [Command.ofWords?, inferred, Option.bind_eq_bind, Option.bind_some]
  exact Option.map_eq_bind.symm

theorem ofWords?_verb (inferred : Verb.infer? word = some v) (noInfo : v ≠ .info) :
    Command.ofWords? (word :: words) = (plainArguments? words).bind (Command.ofArguments? v) := by
  cases v with
  | info => exact absurd rfl noInfo
  | _ => simp only [Command.ofWords?, inferred, Option.bind_eq_bind, Option.bind_some]

theorem spells_of_ofWords? (read : Command.ofWords? words = some c) : Spells words c := by
  cases words with
  | nil => cases read
  | cons word words =>
    obtain ⟨v, inferred, -⟩ := Option.bind_eq_some_iff.1 read
    have stands := verb_infer?_eq_some.1 inferred
    by_cases asks : v = .info
    · subst asks
      rw [ofWords?_info inferred, Option.map_eq_some_iff] at read
      obtain ⟨topic, named, rfl⟩ := read
      rcases topic?_eq_some.1 named with ⟨rfl, gives⟩ | ⟨second, title, rest, t, rfl, rfl, begins, titled, gives⟩
      · exact .verb stands gives .info
      · exact .topic stands begins titled gives
    · rw [ofWords?_verb inferred asks] at read
      obtain ⟨given, plain, read⟩ := Option.bind_eq_some_iff.1 read
      exact .verb stands (plainArguments?_eq_some.1 plain) (says_of_ofArguments? read)

theorem ofWords?_of_spells (spells : Spells words c) : Command.ofWords? words = some c := by
  cases spells with
  | verb stands gives said =>
    rcases ofArguments?_of_says said with ⟨rfl, rfl, rfl⟩ | ⟨v, rfl, noInfo, read⟩
    · have named := topic?_eq_some.2 (.inl ⟨rfl, gives⟩)
      exact (ofWords?_info (verb_infer?_eq_some.2 stands)).trans (congrArg (Option.map Command.info) named)
    · rw [ofWords?_verb (verb_infer?_eq_some.2 stands) noInfo, plainArguments?_eq_some.2 gives]
      exact read
  | topic stands begins titled gives =>
    have named := topic?_eq_some.2 (.inr ⟨_, _, _, _, rfl, rfl, begins, titled, gives⟩)
    exact (ofWords?_info (verb_infer?_eq_some.2 stands)).trans (congrArg (Option.map Command.info) named)

/-- Words are read as a command just when they spell it. -/
theorem ofWords?_eq_some : Command.ofWords? words = some c ↔ Spells words c :=
  ⟨spells_of_ofWords?, ofWords?_of_spells⟩

/-- A beginning that `step` and `stack` share stands for neither, unless it is the letter of `step`. -/
example : Command.ofWords? ["st", "3"] = none ∧ Command.ofWords? ["s", "3"] = some (.step 3) ∧
    Command.ofWords? ["unb", "--", "-1"] = some (.unsetBreak (.label "-1")) := by
  decide +kernel

end Gosub.Commands
