import Gosub.Debugger.Command
import Gosub.Debugger.Words
import Gosub.Text.Extent

/-!
# Completion

What could stand at the cursor: a verb, a topic behind `info`, a label behind `break` or `unbreak`.
Completion replaces the last word before the cursor; where only one candidate is left, what it adds
is a hint.
-/

namespace Gosub.Debugger

/-- How many bytes before the cursor are replaced, and by what. -/
structure Suggestion where
  replaced : Nat
  candidates : List String
  deriving DecidableEq

namespace Suggestion

/-- Nothing replaced, nothing to choose. -/
def nothing : Suggestion := ⟨0, []⟩

/-- The choices that begin with a word, in place of it, in order and each once. -/
def ofWord (word : String) (choices : List String) : Suggestion :=
  ⟨Text.byteLength word.toList,
    ((choices.filter fun c => Text.beginsWith c word).mergeSort fun a b => a ≤ b).eraseDups⟩

end Suggestion

/-- What may stand at the end of the words behind a verb. -/
def suggestArgument (labels : List String) : Verb → List String → Suggestion
  | .help, _ => .nothing
  | .info, [word] => .ofWord word (Topic.all.map Topic.name)
  | .info, [topic, word] =>
    match Topic.find? topic with
    | none | some .help => .nothing
    | some _ => .ofWord word []
  | .setBreak, [word] => .ofWord word labels
  | .unsetBreak, [word] => .ofWord word labels
  | _, [word] => .ofWord word []
  | _, _ => .nothing

def suggest (labels : List String) : List String → Suggestion
  | [] => .ofWord "" (Verb.all.map Verb.name)
  | [word] => .ofWord word (Verb.all.map Verb.name)
  | word :: words => match Verb.find? word with
    | some verb => suggestArgument labels verb words
    | none => .nothing

/-- The words before the cursor, with an empty one behind a blank. -/
def wordsBefore? (line : String) (cursor : Nat) : Option (List String) := do
  let text ← Text.firstBytes? cursor line.toList
  let words ← Words.split? (String.ofList text)
  return if text.getLast?.any fun c => c = ' ' || c = '\t' then words ++ [""] else words

/-- Where the completion begins, and its candidates in order. -/
def complete (labels : List String) (line : String) (cursor : Nat) : Nat × List String :=
  match wordsBefore? line cursor with
  | none => (0, [])
  | some words =>
    let s := suggest labels words
    (cursor - s.replaced, s.candidates)

/-- What the only candidate adds to the line. -/
def hint? (labels : List String) (line : String) (cursor : Nat) : Option String := do
  let s := suggest labels (← wordsBefore? line cursor)
  match s.candidates with
  | [candidate] =>
    let typed ← Text.firstBytes? s.replaced candidate.toList
    return String.ofList (candidate.toList.drop typed.length)
  | _ => none

end Gosub.Debugger
