import Gosub.Text.Extent
import Gosub.Text.Integer
import Gosub.Word.Literal

/-!
# Debugger commands

A command is a verb and its arguments. A verb may be cut short as long as no other verb begins
alike; two of them have a letter of their own.
-/

namespace Gosub.Debugger

inductive Verb where
  | step
  | exit
  | stack
  | returns
  | memory
  | list
  | setBreak
  | unsetBreak
  | resume
  | info
  | help
  deriving DecidableEq

/-- What `info` can be asked for. -/
inductive Topic where
  | breakpoints
  | labels
  | cost
  | help
  deriving DecidableEq

namespace Verb

def all : List Verb :=
  [step, exit, stack, returns, memory, list, setBreak, unsetBreak, resume, info, help]

def name : Verb → String
  | step => "step"
  | exit => "exit"
  | stack => "stack"
  | returns => "returns"
  | memory => "memory"
  | list => "list"
  | setBreak => "break"
  | unsetBreak => "unbreak"
  | resume => "continue"
  | info => "info"
  | help => "help"

def alias? : Verb → Option String
  | step => some "s"
  | resume => some "c"
  | _ => none

def find? (word : String) : Option Verb :=
  all.find? fun v => v.name == word || v.alias? == some word

/-- The verb that a word can only mean. -/
def infer? (word : String) : Option Verb :=
  match all.filter fun v => Text.beginsWith v.name word with
  | [v] => some v
  | _ => find? word

end Verb

namespace Topic

def all : List Topic := [breakpoints, labels, cost, help]

def name : Topic → String
  | breakpoints => "breakpoints"
  | labels => "labels"
  | cost => "cost"
  | help => "help"

def find? (word : String) : Option Topic := all.find? fun t => t.name == word

/-- The topic that a word can only mean. -/
def infer? (word : String) : Option Topic :=
  match all.filter fun t => Text.beginsWith t.name word with
  | [t] => some t
  | _ => find? word

end Topic

inductive Location where
  | offset (word : Word)
  | label (name : String)
  deriving DecidableEq

inductive Command where
  | step (number : Nat)
  | exit
  | stack
  | returns
  | memory (offset : Word) (number : Nat)
  | list (number : Nat)
  | setBreak (location : Location)
  | unsetBreak (location : Location)
  | resume
  /-- `none` asks for all topics. -/
  | info (topic : Option Topic)
  deriving DecidableEq

/-- What begins with a digit is an offset, anything else a label. -/
def Location.read? (word : String) : Option Location :=
  if word.toList.head?.any Char.isDigit then (Word.ofLiteral? word.toList).map .offset
  else some (.label word)

/-- The plain arguments among some words: nothing that looks like an option, except behind `--`. -/
def plainArguments? : List String → Option (List String)
  | [] => some []
  | word :: rest =>
    if word = "--" then some rest
    else if Text.beginsWith word "-" && word != "-" then none
    else (plainArguments? rest).map (word :: ·)

namespace Command

/-- The topic that the arguments of `info` name. -/
def topic? : List String → Option (Option Topic)
  | [] => some none
  | word :: rest =>
    if word = "--" then if rest.isEmpty then some none else none
    else match Topic.infer? word, plainArguments? rest with
      | some .help, _ => none
      | some t, some [] => some (some t)
      | _, _ => none

/-- The command of a verb with plain arguments. -/
def ofArguments? : Verb → List String → Option Command
  | .step, [] => some (step 1)
  | .step, [n] => (Text.readNatural? n).map step
  | .exit, [] => some exit
  | .stack, [] => some stack
  | .returns, [] => some returns
  | .memory, [offset] => (Word.ofLiteral? offset.toList).map (memory · 32)
  | .memory, [offset, n] => do return memory (← Word.ofLiteral? offset.toList) (← Text.readNatural? n)
  | .list, [] => some (list 10)
  | .list, [n] => (Text.readNatural? n).map list
  | .setBreak, [location] => (Location.read? location).map setBreak
  | .unsetBreak, [location] => (Location.read? location).map unsetBreak
  | .resume, [] => some resume
  | _, _ => none

def ofWords? : List String → Option Command
  | [] => none
  | word :: rest => do
    match ← Verb.infer? word with
    | .info => return info (← topic? rest)
    | verb => ofArguments? verb (← plainArguments? rest)

end Command

def braced (text : String) : String := " \x7b " ++ text ++ " \x7d"

def Location.render : Location → String
  | offset word => "Offset(Word(" ++ word.render ++ "))"
  | label name => "Label(" ++ Text.quote name ++ ")"

def Topic.render : Topic → String
  | breakpoints => "Breakpoints"
  | labels => "Labels"
  | cost => "Cost"
  | help => "Help"

def Command.render : Command → String
  | step n => "Step" ++ braced ("number: " ++ toString n)
  | exit => "Exit"
  | stack => "Stack"
  | returns => "Returns"
  | memory offset n =>
    "Memory" ++ braced ("offset: Word(" ++ offset.render ++ "), number: " ++ toString n)
  | list n => "List" ++ braced ("number: " ++ toString n)
  | setBreak l => "Break" ++ braced ("location: " ++ l.render)
  | unsetBreak l => "Unbreak" ++ braced ("location: " ++ l.render)
  | resume => "Continue"
  | info none => "Info" ++ braced "sub: None"
  | info (some t) => "Info" ++ braced ("sub: Some(" ++ t.render ++ ")")

end Gosub.Debugger
