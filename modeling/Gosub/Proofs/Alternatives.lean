import Gosub.Assembly.ErrorTree

/-!
# Alternatives of an error

However an error is put together, its alternatives stay flat (`alternatives_ordered`): wherever several errors are
joined, they stand side by side in the order in which they were met, none of them a row of alternatives itself. An
error happened where the first of them did. The report of an error repeats its form: for each row of alternatives it
has a row of reports, one for each of them. What is written of a report leaves out what an error came from, but a row
of reports is written out.
-/

namespace Gosub.ErrorTree

/-- How an error is put together. -/
inductive Making where
  | character (offset : Nat) (expected : Char)
  | expected (offset : Nat) (what : Expectation)
  /-- The error came from another one. -/
  | append (offset : Nat) (what : Expectation) (cause : Making)
  | context (offset : Nat) (note : String) (cause : Making)
  | literal (offset : Nat) (what : Expectation) (cause : Word.LiteralError)
  | or (first second : Making)

namespace Making

def tree : Making → ErrorTree
  | character offset c => .character offset c
  | expected offset what => .expected offset what none
  | append offset what cause => .expected offset what (some cause.tree)
  | context offset note cause => .context offset note cause.tree
  | literal offset what cause => .literal offset what cause
  | or first second => first.tree.or second.tree

/-- The errors that were joined, from left to right. -/
def operands : Making → List Making
  | or first second => first.operands ++ second.operands
  | making => [making]

end Making

/-- What there is to report of an error, with the reports of what it came from. -/
inductive Report where
  | context (offset : Nat) (note : String) (child : Report)
  | either (related : List Report)
  | character (offset : Nat) (expected : Char)
  | expected (offset : Nat) (child : Option Report)
  | literal (offset : Nat) (cause : Word.LiteralError)

mutual

/-- What is shown of a report. -/
def Report.shown : Report → Diagnostic
  | .context offset note _ => pointing offset note
  | .either related => .mk "invalid syntax" none none [] (some (Report.allShown related))
  | .character offset c => pointing offset ("Expect '" ++ c.toString ++ "' here")
  | .expected offset _ => pointing offset "here"
  | .literal offset _ => pointing offset "here"

def Report.allShown : List Report → List Diagnostic
  | [] => []
  | report :: reports => report.shown :: Report.allShown reports

end

mutual

def report : ErrorTree → Report
  | context offset note child => .context offset note child.report
  | either trees => .either (reports trees)
  | character offset c => .character offset c
  | expected offset _ none => .expected offset none
  | expected offset _ (some child) => .expected offset (some child.report)
  | literal offset _ cause => .literal offset cause

def reports : List ErrorTree → List Report
  | [] => []
  | tree :: trees => tree.report :: reports trees

end

/-! ## Places in a tree -/

/-- The error that an error came from, or one of its alternatives. -/
def child? : ErrorTree → Nat → Option ErrorTree
  | context _ _ child, 0 => some child
  | either trees, i => trees[i]?
  | expected _ _ child, 0 => child
  | _, _ => none

/-- The error at the end of a path. -/
def at? (tree : ErrorTree) : List Nat → Option ErrorTree
  | [] => some tree
  | i :: path => (tree.child? i).bind fun child => child.at? path

namespace Report

def child? : Report → Nat → Option Report
  | context _ _ child, 0 => some child
  | either related, i => related[i]?
  | expected _ child, 0 => child
  | _, _ => none

/-- The report at the end of a path. -/
def at? (report : Report) : List Nat → Option Report
  | [] => some report
  | i :: path => (report.child? i).bind fun child => child.at? path

end Report

end Gosub.ErrorTree

namespace Gosub.Alternatives

open ErrorTree

variable {tree : ErrorTree} {trees : List ErrorTree} {making : Making} {path : List Nat} {i : Nat}

/-! ## Joining -/

@[simp] theorem alternatives_or (first second : ErrorTree) :
    (first.or second).alternatives = first.alternatives ++ second.alternatives := rfl

theorem joined_assoc (first second third : ErrorTree) :
    (first.or second).or third = first.or (second.or third) :=
  congrArg either (List.append_assoc _ _ _)

theorem operands_ne_nil (making : Making) : making.operands ≠ [] := by
  induction making with
  | or first second ih _ => simp [Making.operands, ih]
  | _ => simp [Making.operands]

/-- What was joined is no row of alternatives itself. -/
theorem alternatives_operand {part : Making} (among : part ∈ making.operands) :
    part.tree.alternatives = [part.tree] := by
  induction making with
  | or first second left right =>
    rcases List.mem_append.1 among with before | behind
    · exact left before
    · exact right behind
  | _ =>
    obtain rfl := List.mem_singleton.1 among
    rfl

theorem alternatives_tree (making : Making) : making.tree.alternatives = making.operands.map Making.tree := by
  induction making with
  | or first second left right => rw [Making.tree, alternatives_or, left, right, Making.operands, List.map_append]
  | _ => rfl

/-- Only joining makes a row of alternatives. -/
theorem tree_eq_either (same : making.tree = .either trees) :
    ∃ first second, making = .or first second ∧ trees = making.operands.map Making.tree := by
  have alternatives := alternatives_tree making
  rw [same] at alternatives
  cases making with
  | or first second => exact ⟨first, second, rfl, alternatives⟩
  | _ => cases same

/-! ## Parts -/

/-- What an error came from was put together in the same way, and so was each of its alternatives. -/
theorem exists_making_child (found : making.tree.child? i = some tree) : ∃ part : Making, part.tree = tree := by
  cases making with
  | or first second =>
    have alternatives := alternatives_tree (.or first second)
    have among := List.mem_of_getElem? found
    rw [Making.tree, alternatives_or] at alternatives
    rw [alternatives] at among
    obtain ⟨part, -, same⟩ := List.mem_map.1 among
    exact ⟨part, same⟩
  | append _ _ cause | context _ _ cause =>
    cases i with
    | zero => exact ⟨cause, Option.some.inj found⟩
    | succ i => cases found
  | _ => cases i <;> cases found

theorem exists_making (found : making.tree.at? path = some tree) : ∃ part : Making, part.tree = tree := by
  induction path generalizing making with
  | nil => exact ⟨making, Option.some.inj found⟩
  | cons i path ih =>
    obtain ⟨child, there, found⟩ := Option.bind_eq_some_iff.1 found
    obtain ⟨part, rfl⟩ := exists_making_child there
    exact ih found

theorem flat_tree (same : making.tree = .either trees) :
    2 ≤ trees.length ∧ ∀ tree ∈ trees, ∀ inner, tree ≠ .either inner := by
  obtain ⟨first, second, rfl, rfl⟩ := tree_eq_either same
  constructor
  · have left := List.length_pos_iff.2 (operands_ne_nil first)
    have right := List.length_pos_iff.2 (operands_ne_nil second)
    rw [List.length_map, Making.operands, List.length_append]
    omega
  · rintro tree among inner rfl
    obtain ⟨part, joined, row⟩ := List.mem_map.1 among
    have single := alternatives_operand joined
    rw [row] at single
    -- A row of alternatives would be the only one among them.
    have size := congrArg sizeOf single
    simp [alternatives] at size
    omega

/-! ## Where an error happened -/

theorem offset?_operand {part : Making} (among : part ∈ making.operands) :
    ∃ offset, part.tree.offset? = some offset := by
  induction making with
  | or first second left right =>
    rcases List.mem_append.1 among with before | behind
    · exact left before
    · exact right behind
  | _ =>
    obtain rfl := List.mem_singleton.1 among
    exact ⟨_, rfl⟩

theorem offset?_alternatives {first : ErrorTree} {rest : List ErrorTree} (row : tree.alternatives = first :: rest) :
    tree.offset? = first.offset? := by
  cases tree with
  | either trees =>
    rw [offset?, show trees = first :: rest from row, firstOffset?]
  | _ =>
    cases row
    rfl

theorem located_tree (making : Making) : ∃ first rest offset, making.tree.alternatives = first :: rest ∧
    making.tree.offset? = some offset ∧ first.offset? = some offset := by
  obtain ⟨part, rest, parts⟩ := List.exists_cons_of_ne_nil (operands_ne_nil making)
  obtain ⟨offset, there⟩ := offset?_operand (parts ▸ List.mem_cons_self : part ∈ making.operands)
  have row := alternatives_tree making
  rw [parts, List.map_cons] at row
  exact ⟨part.tree, _, offset, row, (offset?_alternatives row).trans there, there⟩

/-! ## Reports -/

theorem reports_eq (trees : List ErrorTree) : reports trees = trees.map report := by
  induction trees with
  | nil => rfl
  | cons tree trees ih => rw [reports, ih, List.map_cons]

theorem allShown_eq (reports : List Report) : Report.allShown reports = reports.map Report.shown := by
  induction reports with
  | nil => rfl
  | cons report reports ih => rw [Report.allShown, ih, List.map_cons]

mutual

/-- What is written of an error is what is written of its report. -/
theorem shown_report (tree : ErrorTree) : tree.report.shown = tree.diagnostic := by
  cases tree with
  | either trees => rw [report, Report.shown, shown_reports trees, diagnostic]
  | expected offset what child => cases child <;> rfl
  | _ => rfl

theorem shown_reports (trees : List ErrorTree) : Report.allShown (reports trees) = diagnostics trees := by
  cases trees with
  | nil => rfl
  | cons tree trees =>
    rw [reports, Report.allShown, shown_report tree, shown_reports trees, diagnostics]

end

theorem child?_report (tree : ErrorTree) (i : Nat) : tree.report.child? i = (tree.child? i).map report := by
  cases tree with
  | either trees =>
    rw [report, reports_eq]
    exact List.getElem?_map
  | expected offset what child => cases child <;> cases i <;> rfl
  | context | character | literal => cases i <;> rfl

/-- A report has the form of its error. -/
theorem at?_report (tree : ErrorTree) (path : List Nat) : tree.report.at? path = (tree.at? path).map report := by
  induction path generalizing tree with
  | nil => rfl
  | cons i path ih =>
    rw [Report.at?, at?, child?_report]
    cases tree.child? i with
    | none => rfl
    | some child => exact ih child

/-- The rows of alternatives in an error that was put together, and their reports. -/
structure Ordered (making : Making) : Prop where
  flat : ∀ path trees, making.tree.at? path = some (.either trees) →
    2 ≤ trees.length ∧ ∀ tree ∈ trees, ∀ inner, tree ≠ .either inner
  /-- What was joined stands side by side, from left to right. -/
  joined : making.tree.alternatives = making.operands.map Making.tree
  assoc : ∀ second third : Making,
    (making.tree.or second.tree).or third.tree = making.tree.or (second.tree.or third.tree)
  located : ∀ path tree, making.tree.at? path = some tree → ∃ first rest offset,
    tree.alternatives = first :: rest ∧ tree.offset? = some offset ∧ first.offset? = some offset
  /-- In the report there is a row of reports in the place of each row of alternatives. -/
  reported : ∀ path trees, making.tree.at? path = some (.either trees) →
    making.tree.report.at? path = some (.either (trees.map report)) ∧
      (ErrorTree.either trees).diagnostic.related = some (trees.map diagnostic)
  shown : making.tree.diagnostic = making.tree.report.shown

/-- However an error is put together, it holds all that was joined in rows of alternatives, and so does its report. -/
theorem alternatives_ordered (making : Making) : Ordered making where
  flat path trees found := by
    obtain ⟨part, same⟩ := exists_making found
    exact flat_tree same
  joined := alternatives_tree making
  assoc second third := joined_assoc _ _ _
  located path tree found := by
    obtain ⟨part, rfl⟩ := exists_making found
    exact located_tree part
  reported path trees found := by
    constructor
    · rw [at?_report, found, Option.map_some, report, reports_eq]
    · rw [← shown_report, report, Report.shown, allShown_eq, reports_eq, List.map_map, Diagnostic.related]
      exact congrArg some (List.map_congr_left fun tree _ => shown_report tree)
  shown := (shown_report making.tree).symm

end Gosub.Alternatives
