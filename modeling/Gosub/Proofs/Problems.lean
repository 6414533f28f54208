import Gosub.Proofs.Assembling

/-!
# What keeps a program from being compiled

The first pass scans the labels and statements of a program for a label that is defined already (`Mislaid`) and for a
statement that is no instruction (`Misused`), the second for a push without a value that fits (`Unfit`). Each reports
the first that it meets, and the second comes after the first (`first_problem_reported`).
-/

namespace Gosub.Problems

open Gosub.Encoding Gosub.Assembling

variable {s : Statement} {e : CompileError} {o : Opcode} {w : Nat}

/-! ## First problems -/

section First

variable {α ε : Type} {wrong : List α → α → ε → Prop} {x : α} {row : List α} {fault : ε}

/-- Nothing is wrong with any element, given those before it. -/
def Clean (wrong : List α → α → ε → Prop) (row : List α) : Prop :=
  ∀ before x after, row = before ++ x :: after → ∀ fault, ¬ wrong before x fault

/-- This is wrong with some element, and nothing is with those before it. -/
def First (wrong : List α → α → ε → Prop) (row : List α) (fault : ε) : Prop :=
  ∃ before x after, row = before ++ x :: after ∧ wrong before x fault ∧ Clean wrong before

theorem clean_nil : Clean wrong [] := by
  intro before x after split
  simp at split

theorem clean_cons : Clean wrong (x :: row) ↔
    (∀ fault, ¬ wrong [] x fault) ∧ Clean (fun before => wrong (x :: before)) row := by
  constructor
  · intro clean
    refine ⟨clean [] x row rfl, ?_⟩
    rintro before y after rfl
    exact clean (x :: before) y after rfl
  · rintro ⟨here, later⟩ before y after split
    cases before with
    | nil =>
      cases split
      exact here
    | cons first before =>
      cases split
      exact later before y after rfl

theorem not_first_nil : ¬ First wrong [] fault := by
  rintro ⟨before, x, after, split, -⟩
  simp at split

theorem first_cons : First wrong (x :: row) fault ↔ wrong [] x fault ∨
    (∀ other, ¬ wrong [] x other) ∧ First (fun before => wrong (x :: before)) row fault := by
  constructor
  · rintro ⟨before, y, after, split, here, clean⟩
    cases before with
    | nil =>
      cases split
      exact .inl here
    | cons first before =>
      cases split
      obtain ⟨fine, clean⟩ := clean_cons.1 clean
      exact .inr ⟨fine, before, y, after, rfl, here, clean⟩
  · rintro (here | ⟨fine, before, y, after, rfl, here, clean⟩)
    · exact ⟨[], x, row, rfl, here, clean_nil⟩
    · exact ⟨x :: before, y, after, rfl, here, clean_cons.2 ⟨fine, clean⟩⟩

/-- Where something is wrong, something is wrong first. -/
theorem clean_iff : Clean wrong row ↔ ∀ fault, ¬ First wrong row fault := by
  induction row generalizing wrong with
  | nil => exact iff_of_true clean_nil fun _ => not_first_nil
  | cons x row ih =>
    rw [clean_cons, ih]
    simp only [first_cons, not_or, not_and]
    constructor
    · rintro ⟨fine, later⟩ fault
      exact ⟨fine fault, fun _ => later fault⟩
    · intro none
      have fine : ∀ fault, ¬ wrong [] x fault := fun fault => (none fault).1
      exact ⟨fine, fun fault => (none fault).2 fine⟩

end First

/-! ## Statements -/

/-- The mnemonic is this name, in any case. -/
def Named (s : Statement) (name : String) : Prop := Opcode.foldCase s.mnemonic.text = name

/-- A push of any width, or of none. -/
def Pushes (s : Statement) : Prop := Named s "push" ∨ ∃ k, Named s (Opcode.push k).mnemonic

/-- Why a statement is no instruction. -/
inductive Misused (s : Statement) : CompileError → Prop
  | unknown : ¬ Named s "push" → (∀ o : Opcode, ¬ Named s o.mnemonic) → Misused s (.unknownMnemonic s.mnemonic)
  | missing : Pushes s → s.argument = none → Misused s (.missingArgument s.mnemonic)
  | unexpected {o : Opcode} {a : Argument} : Named s o.mnemonic → ¬ Pushes s → s.argument = some a →
      Misused s (.unexpectedArgument s.mnemonic a.fragment)

/-- How many bytes the statement takes behind its opcode. -/
inductive Takes (s : Statement) : Nat → Prop
  | plain {o : Opcode} : Named s o.mnemonic → ¬ Pushes s → s.argument = none → Takes s 0
  | push {k : Fin 32} {a : Argument} : Named s (Opcode.push k).mnemonic → s.argument = some a → Takes s (k.val + 1)
  | bareNumber {literal : NumberLiteral} : Named s "push" → s.argument = some (.number literal) →
      Takes s literal.value.byteLength
  | bareLabel {name : Fragment} : Named s "push" → s.argument = some (.label name) → Takes s labelWidth

/-- No opcode is named as the bare push is. -/
theorem not_bare_of_named (named : Named s o.mnemonic) : ¬ Named s "push" :=
  fun bare => (mnemonics o (mem_all o)).2.1 (named.symm.trans bare)

/-- A name is that of one opcode only. -/
theorem named_unique {other : Opcode} (named : Named s o.mnemonic) (same : Named s other.mnemonic) : other = o := by
  have found := (mnemonics other (mem_all other)).2.2
  rw [show other.mnemonic = o.mnemonic from same.symm.trans named, (mnemonics o (mem_all o)).2.2] at found
  exact (Option.some.inj found).symm

theorem pushes_iff (named : Named s o.mnemonic) : Pushes s ↔ o.immediateSize ≠ 0 := by
  constructor
  · rintro (bare | ⟨k, push⟩)
    · exact absurd bare (not_bare_of_named named)
    · obtain rfl := named_unique named push
      exact Nat.succ_ne_zero k.val
  · intro immediate
    cases o with
    | push k => exact .inr ⟨k, named⟩
    | op _ | dup _ | swap _ | invalid => exact absurd rfl immediate

theorem push?_byteLength (value : Word) : ∃ k : Fin 32, Opcode.push? value.byteLength = some (.push k) ∧
    k.val + 1 = value.byteLength := by
  have positive : 1 ≤ value.byteLength := le_max_left _ _
  have most : value.byteLength ≤ 32 := (byteLength_le_iff (by decide)).2 (by simpa using value.isLt)
  exact ⟨⟨value.byteLength - 1, by omega⟩, dif_pos ⟨positive, most⟩, Nat.sub_add_cancel positive⟩

/-- A statement that takes so many bytes has an opcode that does. -/
theorem opcode_of_takes (takes : Takes s w) : ∃ o, s.opcode = .ok o ∧ o.immediateSize = w := by
  cases takes with
  | @plain o named plain none =>
    have size : o.immediateSize = 0 := not_not.1 fun immediate => plain ((pushes_iff named).2 immediate)
    have notBare : ¬ Opcode.foldCase s.mnemonic.text = "push" := not_bare_of_named named
    refine ⟨o, ?_, size⟩
    simp only [Statement.opcode, if_neg notBare, ofMnemonic?_eq_some.2 named, none, size]
  | @push k a named given =>
    have notBare : ¬ Opcode.foldCase s.mnemonic.text = "push" := not_bare_of_named named
    refine ⟨.push k, ?_, rfl⟩
    simp only [Statement.opcode, if_neg notBare, ofMnemonic?_eq_some.2 named, given, Opcode.immediateSize]
  | @bareNumber literal bare given =>
    have bare : Opcode.foldCase s.mnemonic.text = "push" := bare
    obtain ⟨k, found, size⟩ := push?_byteLength literal.value
    refine ⟨.push k, ?_, size⟩
    simp only [Statement.opcode, if_pos bare, Statement.bareWidth, given, bind, Except.bind, found]
  | @bareLabel name bare given =>
    have bare : Opcode.foldCase s.mnemonic.text = "push" := bare
    refine ⟨.push 1, ?_, rfl⟩
    simp only [Statement.opcode, if_pos bare, Statement.bareWidth, given, bind, Except.bind]
    rfl

theorem opcode_of_misused (misused : Misused s e) : s.opcode = .error e := by
  cases misused with
  | unknown notBare others =>
    have notBare : ¬ Opcode.foldCase s.mnemonic.text = "push" := notBare
    have none : Opcode.ofMnemonic? s.mnemonic.text = none :=
      Option.eq_none_iff_forall_not_mem.2 fun o found => others o (ofMnemonic?_eq_some.1 found)
    simp only [Statement.opcode, if_neg notBare, none]
  | missing pushes none =>
    rcases pushes with bare | ⟨k, named⟩
    · have bare : Opcode.foldCase s.mnemonic.text = "push" := bare
      simp only [Statement.opcode, if_pos bare, Statement.bareWidth, none, bind, Except.bind]
    · have notBare : ¬ Opcode.foldCase s.mnemonic.text = "push" := not_bare_of_named named
      simp only [Statement.opcode, if_neg notBare, ofMnemonic?_eq_some.2 named, none, Opcode.immediateSize]
  | @unexpected o a named plain given =>
    have size : o.immediateSize = 0 := not_not.1 fun immediate => plain ((pushes_iff named).2 immediate)
    have notBare : ¬ Opcode.foldCase s.mnemonic.text = "push" := not_bare_of_named named
    simp only [Statement.opcode, if_neg notBare, ofMnemonic?_eq_some.2 named, given, size]

/-- There is no third kind of statement. -/
theorem takes_or_misused (s : Statement) : (∃ w, Takes s w) ∨ ∃ e, Misused s e := by
  by_cases pushes : Pushes s
  · cases given : s.argument with
    | none => exact .inr ⟨_, .missing pushes given⟩
    | some a =>
      rcases pushes with bare | ⟨k, named⟩
      · cases a with
        | number literal => exact .inl ⟨_, .bareNumber bare given⟩
        | label name => exact .inl ⟨_, .bareLabel bare given⟩
      · exact .inl ⟨_, .push named given⟩
  · by_cases known : ∃ o : Opcode, Named s o.mnemonic
    · obtain ⟨o, named⟩ := known
      cases given : s.argument with
      | none => exact .inl ⟨_, .plain named pushes given⟩
      | some a => exact .inr ⟨_, .unexpected named pushes given⟩
    · exact .inr ⟨_, .unknown (fun bare => pushes (.inl bare)) (not_exists.1 known)⟩

theorem takes_of_opcode (chosen : s.opcode = .ok o) : Takes s o.immediateSize := by
  rcases takes_or_misused s with ⟨w, takes⟩ | ⟨e, misused⟩
  · obtain ⟨other, same, rfl⟩ := opcode_of_takes takes
    obtain rfl : o = other := Except.ok.inj (chosen.symm.trans same)
    exact takes
  · cases chosen.symm.trans (opcode_of_misused misused)

theorem opcode_eq_error : s.opcode = .error e ↔ Misused s e := by
  refine ⟨fun refused => ?_, opcode_of_misused⟩
  rcases takes_or_misused s with ⟨w, takes⟩ | ⟨other, misused⟩
  · obtain ⟨o, chosen, -⟩ := opcode_of_takes takes
    cases refused.symm.trans chosen
  · obtain rfl : e = other := Except.error.inj (refused.symm.trans (opcode_of_misused misused))
    exact misused

/-! ## The first pass -/

def labelOf? : Item → Option Fragment
  | .label name => some name
  | .statement _ => none

/-- The labels that items define. -/
def labelsIn (items : List Item) : List Fragment := items.filterMap labelOf?

/-- Why an item cannot be placed behind the items before it. -/
inductive Mislaid (before : List Item) : Item → CompileError → Prop
  /-- The name has been defined, first of all there. -/
  | duplicate {name first : Fragment} : (labelsIn before).find? (fun f => f.text = name.text) = some first →
      Mislaid before (.label name) (.duplicateLabel name first)
  | misused {s : Statement} {e : CompileError} : Misused s e → Mislaid before (.statement s) e

variable {defined : List Fragment} {a : Nat} {before items : List Item} {placed : List Placed} {name : Fragment}

theorem mem_labelsIn : name ∈ labelsIn items ↔ .label name ∈ items := by
  rw [labelsIn, List.mem_filterMap]
  constructor
  · rintro ⟨_ | _, member, same⟩
    · cases same
      exact member
    · cases same
  · exact fun member => ⟨_, member, rfl⟩

theorem mislaid_label : Mislaid before (.label name) e ↔
    ∃ first, (labelsIn before).find? (fun f => f.text = name.text) = some first ∧ e = .duplicateLabel name first := by
  constructor
  · rintro ⟨found⟩
    exact ⟨_, found, rfl⟩
  · rintro ⟨first, found, rfl⟩
    exact .duplicate found

theorem mislaid_statement : Mislaid before (.statement s) e ↔ Misused s e := by
  constructor
  · rintro ⟨⟩
    assumption
  · exact .misused

/-- The labels defined before, whichever way round: as long as no name comes twice, it does not matter. -/
def Recalls (defined : List Fragment) (before : List Item) : Prop :=
  ∀ name : Fragment, defined.find? (fun f => f.text = name.text) = (labelsIn before).find? fun f => f.text = name.text

theorem Recalls.statement (recalls : Recalls defined before) (s : Statement) :
    Recalls defined (before ++ [.statement s]) := by
  intro name
  rw [labelsIn, List.filterMap_append]
  exact (recalls name).trans (by simp [labelsIn, labelOf?])

theorem Recalls.label (recalls : Recalls defined before)
    (new : defined.find? (fun f => f.text = name.text) = none) :
    Recalls (name :: defined) (before ++ [.label name]) := by
  intro other
  have same : labelsIn (before ++ [.label name]) = labelsIn before ++ [name] := by
    rw [labelsIn, List.filterMap_append]
    rfl
  rw [same, List.find?_append, ← recalls other, List.find?_cons]
  by_cases here : name.text = other.text
  · rw [← here, new]
    simp
  · simp [here]

/-- The first pass stops at the first item that cannot be placed. -/
theorem placeFrom_error (recalls : Recalls defined before) :
    (placeFrom defined a items).2 = some e ↔ First (fun more => Mislaid (before ++ more)) items e := by
  induction items generalizing defined a before with
  | nil => exact iff_of_false (Option.some_ne_none e).symm not_first_nil
  | cons item items ih =>
    have shifted : (fun more => Mislaid (before ++ item :: more)) = fun more => Mislaid (before ++ [item] ++ more) := by
      funext more
      rw [List.append_assoc, List.singleton_append]
    rw [first_cons, List.append_nil, shifted]
    cases item with
    | label name =>
      simp only [placeFrom, mislaid_label]
      split
      · next first known =>
        rw [← recalls, known]
        simp [eq_comm]
      · next new =>
        rw [← recalls, new]
        simpa using ih (recalls.label new)
    | statement s =>
      simp only [placeFrom, mislaid_statement]
      split
      · next cause refused =>
        have misused := opcode_eq_error.1 refused
        have only (other : CompileError) : Misused s other ↔ other = cause := by
          rw [← opcode_eq_error, refused]
          simp [eq_comm]
        simp [only, eq_comm]
      · next o chosen =>
        have fine (other : CompileError) : ¬ Misused s other := by
          rw [← opcode_eq_error, chosen]
          simp
        simpa [fine] using ih (recalls.statement s)

/-! ## The second pass -/

/-- The number of bytes that items take. -/
inductive Extends : List Item → Nat → Prop
  | nil : Extends [] 0
  | label {name : Fragment} {items : List Item} {n : Nat} : Extends items n → Extends (.label name :: items) n
  | statement {s : Statement} {items : List Item} {w n : Nat} : Takes s w → Extends items n →
      Extends (.statement s :: items) (1 + w + n)

/-- The value of an argument: that of its number, or the number of bytes in front of where its label is defined. -/
inductive Stands (items : List Item) : Argument → Word → Prop
  | number (literal : NumberLiteral) : Stands items (.number literal) literal.value
  | label {name f : Fragment} {before after : List Item} {n : Nat} : items = before ++ .label f :: after →
      f.text = name.text → Extends before n → Stands items (.label name) (.ofNat n)

/-- Why a push cannot be encoded: its label is defined nowhere among all items, or its value does not fit. -/
inductive Unfit (items : List Item) (s : Statement) : CompileError → Prop
  | unknown {name : Fragment} : Pushes s → s.argument = some (.label name) →
      (∀ f ∈ labelsIn items, f.text ≠ name.text) → Unfit items s (.unknownLabel name)
  | large {a : Argument} {value : Word} {w : Nat} : Pushes s → s.argument = some a → Takes s w →
      Stands items a value → 256 ^ w ≤ value.toNat → Unfit items s (.literalTooLarge value w a.fragment)

/-- The same of items. -/
def UnfitItem (items : List Item) (item : Item) (e : CompileError) : Prop := ∃ s, item = .statement s ∧ Unfit items s e

theorem placeFrom_label (laid : placeFrom defined a (.label name :: items) = (placed, none)) :
    (∀ first ∈ defined, first.text ≠ name.text) ∧
      ∃ later, placeFrom (name :: defined) a items = (later, none) ∧ placed = .label name a :: later := by
  simp only [placeFrom] at laid
  split at laid
  · cases laid
  · next new =>
    refine ⟨by simpa using new, ?_⟩
    cases rest : placeFrom (name :: defined) a items with
    | mk later error =>
      rw [rest] at laid
      cases laid
      exact ⟨later, rfl, rfl⟩

theorem placeFrom_statement (laid : placeFrom defined a (.statement s :: items) = (placed, none)) :
    ∃ o later, s.opcode = .ok o ∧ placeFrom defined (a + 1 + o.immediateSize) items = (later, none) ∧
      placed = .statement a o s :: later := by
  simp only [placeFrom] at laid
  split at laid
  · cases laid
  · next o chosen =>
    cases rest : placeFrom defined (a + 1 + o.immediateSize) items with
    | mk later error =>
      rw [rest] at laid
      cases laid
      exact ⟨o, later, chosen, rest, rfl⟩

/-- A bare push takes as many bytes as its literal needs, any other as many as its name says: a statement takes no
number of bytes but one. -/
theorem takes_unique {w' : Nat} (first : Takes s w) (second : Takes s w') : w = w' := by
  obtain ⟨o, chosen, rfl⟩ := opcode_of_takes first
  obtain ⟨other, same, rfl⟩ := opcode_of_takes second
  obtain rfl : o = other := Except.ok.inj (chosen.symm.trans same)
  rfl

/-- The label is behind so many bytes of the items. -/
def Behind (items : List Item) (name : Fragment) (n : Nat) : Prop :=
  ∃ before after, items = before ++ .label name :: after ∧ Extends before n

theorem behind_label {f : Fragment} {n : Nat} :
    Behind (.label f :: items) name n ↔ name = f ∧ n = 0 ∨ Behind items name n := by
  constructor
  · rintro ⟨before, after, split, size⟩
    cases before with
    | nil =>
      cases split
      cases size
      exact .inl ⟨rfl, rfl⟩
    | cons first before =>
      cases split
      cases size with
      | label size => exact .inr ⟨before, after, rfl, size⟩
  · rintro (⟨rfl, rfl⟩ | ⟨before, after, rfl, size⟩)
    · exact ⟨[], items, rfl, .nil⟩
    · exact ⟨.label f :: before, after, rfl, .label size⟩

theorem behind_statement {n : Nat} (takes : Takes s w) :
    Behind (.statement s :: items) name n ↔ ∃ m, Behind items name m ∧ n = 1 + w + m := by
  constructor
  · rintro ⟨before, after, split, size⟩
    cases before with
    | nil => cases split
    | cons first before =>
      cases split
      cases size with
      | @statement s _ w m taken size =>
        obtain rfl := takes_unique takes taken
        exact ⟨m, ⟨before, after, rfl, size⟩, rfl⟩
  · rintro ⟨m, ⟨before, after, rfl, size⟩, rfl⟩
    exact ⟨.statement s :: before, after, rfl, .statement takes size⟩

/-- A label is placed behind the bytes of the items in front of it. -/
theorem mem_placed (laid : placeFrom defined a items = (placed, none)) (name : Fragment) (address : Nat) :
    (name, address) ∈ placed.filterMap Placed.label? ↔ ∃ n, Behind items name n ∧ address = a + n := by
  induction items generalizing defined a placed with
  | nil =>
    cases laid
    simp [Behind]
  | cons item items ih =>
    cases item with
    | label f =>
      obtain ⟨-, later, rest, rfl⟩ := placeFrom_label laid
      rw [List.filterMap_cons, Placed.label?, List.mem_cons, ih rest]
      simp only [behind_label, Prod.mk.injEq, or_and_right, exists_or, and_assoc, exists_and_left, exists_eq_left,
        Nat.add_zero]
    | statement s =>
      obtain ⟨o, later, chosen, rest, rfl⟩ := placeFrom_statement laid
      rw [List.filterMap_cons, Placed.label?, ih rest]
      simp only [behind_statement (takes_of_opcode chosen)]
      constructor
      · rintro ⟨m, found, rfl⟩
        exact ⟨_, ⟨m, found, rfl⟩, by omega⟩
      · rintro ⟨-, ⟨m, found, rfl⟩, rfl⟩
        exact ⟨m, found, by omega⟩

/-- No name is placed twice. -/
theorem nodup_placed (laid : placeFrom defined a items = (placed, none)) :
    ((placed.filterMap Placed.label?).map (·.1.text)).Nodup ∧
      ∀ first ∈ defined, first.text ∉ (placed.filterMap Placed.label?).map (·.1.text) := by
  induction items generalizing defined a placed with
  | nil =>
    cases laid
    simp
  | cons item items ih =>
    cases item with
    | label f =>
      obtain ⟨new, later, rest, rfl⟩ := placeFrom_label laid
      obtain ⟨nodup, others⟩ := ih rest
      refine ⟨List.nodup_cons.2 ⟨others f List.mem_cons_self, nodup⟩, ?_⟩
      intro first member repeated
      rcases List.mem_cons.1 repeated with same | again
      · exact new first member same
      · exact others first (List.mem_cons_of_mem _ member) again
    | statement s =>
      obtain ⟨o, later, -, rest, rfl⟩ := placeFrom_statement laid
      rw [List.filterMap_cons, Placed.label?]
      exact ih rest

/-- Every label is placed. -/
theorem names_placed (laid : placeFrom defined a items = (placed, none)) :
    (placed.filterMap Placed.label?).map (·.1) = labelsIn items := by
  induction items generalizing defined a placed with
  | nil =>
    cases laid
    rfl
  | cons item items ih =>
    cases item with
    | label f =>
      obtain ⟨-, later, rest, rfl⟩ := placeFrom_label laid
      exact congrArg (f :: ·) (ih rest)
    | statement s =>
      obtain ⟨o, later, -, rest, rfl⟩ := placeFrom_statement laid
      rw [List.filterMap_cons, Placed.label?]
      exact ih rest

/-- The table of the labels that items define. -/
structure Resolves (labels : Labels) (items : List Item) : Prop where
  known : ∀ (name : Fragment) (value : Word), Stands items (.label name) value ↔
    ∃ address, labels.address? name.text = some address ∧ value = .ofNat address
  unknown : ∀ name : Fragment, labels.address? name.text = none ↔ ∀ f ∈ labelsIn items, f.text ≠ name.text

/-- The table of the labels that were placed. -/
def tableOf (placed : List Placed) : Labels := .ofList ((placed.filterMap Placed.label?).map fun l => (l.1.text, l.2))

theorem resolves_of_layout (laid : placeFrom [] 0 items = (placed, none)) :
    Resolves (tableOf placed) items := by
  have distinct : (tableOf placed).names.Nodup := by
    rw [tableOf, Labels.nodup_names_ofList, List.map_map]
    exact (nodup_placed laid).1
  have found (name : Fragment) (address : Nat) : (tableOf placed).address? name.text = some address ↔
      ∃ f, (f, address) ∈ placed.filterMap Placed.label? ∧ f.text = name.text := by
    rw [Labels.address?_eq_some distinct, tableOf, Labels.mem_ofList]
    simp
  refine ⟨fun name value => ?_, fun name => ?_⟩
  · constructor
    · rintro (_ | ⟨split, named, size⟩)
      have behind := (mem_placed laid _ _).2 ⟨_, ⟨_, _, split, size⟩, rfl⟩
      exact ⟨_, (found name _).2 ⟨_, behind, named⟩, congrArg Word.ofNat (Nat.zero_add _).symm⟩
    · rintro ⟨address, known, rfl⟩
      obtain ⟨f, member, named⟩ := (found name address).1 known
      obtain ⟨n, ⟨before, after, split, size⟩, same⟩ := (mem_placed laid f address).1 member
      obtain rfl : address = n := same.trans (Nat.zero_add n)
      exact .label split named size
  · rw [Option.eq_none_iff_forall_ne_some, ← names_placed laid]
    simp only [found, ne_eq, not_exists, not_and, List.mem_map]
    constructor
    · rintro none f ⟨⟨_, address⟩, member, rfl⟩
      exact none address _ member
    · intro none address f member
      exact none f ⟨_, member, rfl⟩

/-- An argument has the value that it stands for, unless it is a label that is defined nowhere. -/
theorem value_cases {labels : Labels} (resolves : Resolves labels items) (a : Argument) :
    (∃ value, a.value labels = .ok value ∧ ∀ other, Stands items a other ↔ other = value) ∨
      ∃ name, a = .label name ∧ a.value labels = .error (.unknownLabel name) ∧
        ∀ f ∈ labelsIn items, f.text ≠ name.text := by
  cases a with
  | number literal =>
    refine .inl ⟨literal.value, rfl, fun other => ?_⟩
    constructor
    · rintro ⟨⟩
      rfl
    · rintro rfl
      exact .number literal
  | label name =>
    cases known : labels.address? name.text with
    | none => exact .inr ⟨name, rfl, by rw [Argument.value, known], (resolves.unknown name).1 known⟩
    | some address =>
      refine .inl ⟨.ofNat address, by rw [Argument.value, known], fun other => ?_⟩
      rw [resolves.known, known]
      simp

/-- A label that stands for a value is defined. -/
theorem Stands.exists_label {value : Word} (stands : Stands items (.label name) value) :
    ∃ f ∈ labelsIn items, f.text = name.text := by
  cases stands with
  | @label _ f before after n split named size =>
    exact ⟨f, mem_labelsIn.2 (split ▸ List.mem_append_cons_self), named⟩

theorem unfit_unknown_iff (pushes : Pushes s) (given : s.argument = some (.label name))
    (nowhere : ∀ f ∈ labelsIn items, f.text ≠ name.text) : Unfit items s e ↔ e = .unknownLabel name := by
  constructor
  · rintro (⟨-, same, -⟩ | ⟨-, same, -, stands, -⟩)
    · cases given.symm.trans same
      rfl
    · cases given.symm.trans same
      obtain ⟨f, member, named⟩ := stands.exists_label
      exact absurd named (nowhere f member)
  · rintro rfl
    exact .unknown pushes given nowhere

theorem unfit_large_iff {a : Argument} {value : Word} (pushes : Pushes s) (given : s.argument = some a)
    (takes : Takes s w) (only : ∀ other, Stands items a other ↔ other = value) :
    Unfit items s e ↔ 256 ^ w ≤ value.toNat ∧ e = .literalTooLarge value w a.fragment := by
  have stands : Stands items a value := (only value).2 rfl
  constructor
  · rintro (⟨-, same, nowhere⟩ | ⟨-, same, taken, other, large⟩)
    · cases given.symm.trans same
      obtain ⟨f, member, named⟩ := stands.exists_label
      exact absurd named (nowhere f member)
    · cases given.symm.trans same
      obtain rfl := (only _).1 other
      obtain rfl := takes_unique taken takes
      exact ⟨large, rfl⟩
  · rintro ⟨large, rfl⟩
    exact .large pushes given takes stands large

/-- It is just pushes that take bytes, and they have an argument. -/
theorem takes_pushes (takes : Takes s w) : (Pushes s ∧ 0 < w ∧ ∃ a, s.argument = some a) ∨ ¬ Pushes s ∧ w = 0 := by
  cases takes with
  | plain _ plain _ => exact .inr ⟨plain, rfl⟩
  | push named given => exact .inl ⟨.inr ⟨_, named⟩, Nat.succ_pos _, _, given⟩
  | bareNumber bare given => exact .inl ⟨.inl bare, Nat.lt_of_lt_of_le Nat.one_pos (le_max_left _ _), _, given⟩
  | bareLabel bare given => exact .inl ⟨.inl bare, Nat.two_pos, _, given⟩

theorem push_of_immediate (immediate : 0 < o.immediateSize) : ∃ k, o = .push k := by
  cases o with
  | push k => exact ⟨k, rfl⟩
  | op _ | dup _ | swap _ | invalid => cases immediate

/-- A statement with an opcode becomes an instruction, unless it is a push that cannot be encoded. -/
theorem instruction_eq_error {labels : Labels} (resolves : Resolves labels items) (chosen : s.opcode = .ok o) :
    s.instruction labels o = .error e ↔ Unfit items s e := by
  have takes := takes_of_opcode chosen
  rcases takes_pushes takes with ⟨pushes, immediate, a, given⟩ | ⟨plain, none⟩
  · obtain ⟨k, rfl⟩ := push_of_immediate immediate
    have takes : Takes s (k.val + 1) := takes
    rcases value_cases resolves a with ⟨value, known, only⟩ | ⟨name, rfl, unknown, nowhere⟩
    · have fits : value.byteLength ≤ k.val + 1 ↔ value.toNat < 256 ^ (k.val + 1) :=
        byteLength_le_iff (Nat.le_add_left 1 k.val)
      rw [unfit_large_iff pushes given takes only, ← Nat.not_lt, ← fits, Nat.not_le]
      simp only [Statement.instruction, given, known, bind, Except.bind]
      split_ifs with large
      · simp [large, eq_comm]
      · simp [large]
    · rw [unfit_unknown_iff pushes given nowhere]
      simp [Statement.instruction, given, unknown, bind, Except.bind, eq_comm]
  · rw [instruction_plain none]
    refine iff_of_false (by simp) ?_
    rintro (⟨pushes, -⟩ | ⟨pushes, -⟩)
    · exact plain pushes
    · exact plain pushes

/-- The second pass stops at the first push that cannot be encoded. -/
theorem emit_error {labels : Labels} {all : List Item} (resolves : Resolves labels all)
    (laid : placeFrom defined a items = (placed, none)) :
    (emit labels placed).2 = some e ↔ First (fun _ => UnfitItem all) items e := by
  induction items generalizing defined a placed with
  | nil =>
    cases laid
    exact iff_of_false (Option.some_ne_none e).symm not_first_nil
  | cons item items ih =>
    rw [first_cons]
    cases item with
    | label f =>
      obtain ⟨-, later, rest, rfl⟩ := placeFrom_label laid
      have fine (other : CompileError) : ¬ UnfitItem all (.label f) other := by
        rintro ⟨s, same, -⟩
        cases same
      simpa [fine, emit] using ih rest
    | statement s =>
      obtain ⟨o, later, chosen, rest, rfl⟩ := placeFrom_statement laid
      have here (other : CompileError) :
          UnfitItem all (.statement s) other ↔ s.instruction labels o = .error other := by
        rw [instruction_eq_error resolves chosen]
        constructor
        · rintro ⟨s', same, unfit⟩
          cases same
          exact unfit
        · exact fun unfit => ⟨s, rfl, unfit⟩
      simp only [here, emit]
      split
      · next cause refused => simp [refused, eq_comm]
      · next i made => simpa [made] using ih rest

/-! ## Programs -/

/-- What the compiler reports of a program, and when. -/
structure Reports (p : Program) : Prop where
  layout : ∀ e, p.layout.2 = some e ↔ First Mislaid p.items e
  /-- The second pass is made only where the first meets no problem. -/
  fails : ∀ e, p.compile = .error e ↔
    First Mislaid p.items e ∨ Clean Mislaid p.items ∧ First (fun _ => UnfitItem p.items) p.items e
  compiles : (∃ a, p.compile = .ok a) ↔ Clean Mislaid p.items ∧ Clean (fun _ => UnfitItem p.items) p.items
  /-- A bare push is as wide as its number needs. -/
  bare : ∀ s literal, Named s "push" → s.argument = some (.number literal) → ∀ e, ¬ Unfit p.items s e

theorem bare_fits {literal : NumberLiteral} (bare : Named s "push") (given : s.argument = some (.number literal)) :
    ¬ Unfit items s e := by
  rintro (⟨-, labelled, -⟩ | ⟨-, same, taken, stands, large⟩)
  · cases given.symm.trans labelled
  · cases given.symm.trans same
    cases stands
    obtain rfl := takes_unique taken (.bareNumber bare given)
    have fits := (byteLength_le_iff (le_max_left 1 _)).1 (le_refl literal.value.byteLength)
    exact absurd fits (Nat.not_lt.2 large)

theorem compile_eq_error {p : Program} {error : Option CompileError} (laid : p.layout = (placed, error)) :
    p.compile = .error e ↔ error = some e ∨ error = none ∧ (emit (tableOf placed) placed).2 = some e := by
  unfold Program.compile Program.compilation
  rw [laid]
  cases error with
  | some cause => simp [Compilation.result]
  | none =>
    dsimp only
    rw [← tableOf]
    cases emit (tableOf placed) placed with
    | mk emitted cause => cases cause <;> simp [Compilation.result]

/-- The first pass meets just the problems of placing. -/
theorem layout_eq_error (p : Program) (e : CompileError) : p.layout.2 = some e ↔ First Mislaid p.items e := by
  have recalls : Recalls [] [] := fun _ => rfl
  exact placeFrom_error recalls

/-- An error is that of the first pass, or else that of the second. -/
theorem compile_fails (p : Program) (e : CompileError) : p.compile = .error e ↔
    First Mislaid p.items e ∨ Clean Mislaid p.items ∧ First (fun _ => UnfitItem p.items) p.items e := by
  have layout := layout_eq_error p
  cases laid : p.layout with
  | mk placed error =>
    rw [laid] at layout
    rw [compile_eq_error laid, clean_iff]
    cases error with
    | some cause => simp [← layout]
    | none =>
      rw [emit_error (resolves_of_layout laid) laid]
      simp [← layout]

/-- Compiling a program either succeeds or reports the first problem of the first pass that meets one. -/
theorem first_problem_reported (p : Program) : Reports p := by
  refine ⟨layout_eq_error p, compile_fails p, ?_, fun s literal bare given e => bare_fits bare given⟩
  have succeeds : (∃ a, p.compile = .ok a) ↔ ∀ e, ¬ p.compile = .error e := by
    cases p.compile <;> simp
  rw [succeeds]
  simp only [compile_fails, not_or, not_and, clean_iff]
  constructor
  · intro none
    have fine : ∀ e, ¬ First Mislaid p.items e := fun e => (none e).1
    exact ⟨fine, fun e => (none e).2 fine⟩
  · rintro ⟨fine, fits⟩ e
    exact ⟨fine e, fun _ => fits e⟩

end Gosub.Problems
