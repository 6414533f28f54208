import Gosub.Text.Extent

/-!
# Arguments

Arguments are plain words and options. Options have a long name, maybe a letter, and maybe a value;
letters may be written together, and a value may follow at once or as the next argument. Behind
`--` all arguments are plain.
-/

namespace Gosub.CommandLine

structure OptionSpec where
  name : String
  letter : Option Char
  takesValue : Bool
  deriving DecidableEq

inductive Token where
  | switch (name : String)
  | option (name value : String)
  | word (text : String)
  deriving DecidableEq

/-- What one argument holds: its tokens, and the option whose value is the next argument. -/
structure Scanned where
  tokens : List Token
  awaiting : Option String

/-- Whether an argument is an option or `--`. A lone dash is plain. -/
def looksLikeOption (argument : String) : Bool :=
  Text.beginsWith argument "-" && argument ≠ "-"

def scanLetters (specs : List OptionSpec) : List Char → Option Scanned
  | [] => some ⟨[], none⟩
  | letter :: rest =>
    match specs.find? fun s => s.letter = some letter with
    | none => none
    | some s =>
      if s.takesValue then
        match rest with
        | [] => some ⟨[], some s.name⟩
        | '=' :: value => some ⟨[.option s.name (String.ofList value)], none⟩
        | value => some ⟨[.option s.name (String.ofList value)], none⟩
      else (scanLetters specs rest).map fun r => { r with tokens := .switch s.name :: r.tokens }

def scanName (specs : List OptionSpec) (text : List Char) : Option Scanned :=
  let name := String.ofList (text.takeWhile (· ≠ '='))
  match specs.find? fun s => s.name = name with
  | none => none
  | some s => match text.dropWhile (· ≠ '='), s.takesValue with
    | [], true => some ⟨[], some s.name⟩
    | [], false => some ⟨[.switch s.name], none⟩
    | _ :: value, true => some ⟨[.option s.name (String.ofList value)], none⟩
    | _ :: _, false => none

def scanOption (specs : List OptionSpec) (argument : String) : Option Scanned :=
  match argument.toList with
  | '-' :: '-' :: name => scanName specs name
  | '-' :: letters => scanLetters specs letters
  | _ => none

/-- The tokens of all arguments, if each is an option of the command or plain. -/
def scan (specs : List OptionSpec) : List String → Option (List Token)
  | [] => some []
  | argument :: rest =>
    if argument = "--" then some (rest.map .word)
    else if looksLikeOption argument then
      match scanOption specs argument with
      | none => none
      | some ⟨tokens, none⟩ => (scan specs rest).map (tokens ++ ·)
      | some ⟨tokens, some name⟩ => match rest with
        | [] => none
        | value :: rest =>
          if looksLikeOption value then none
          else (scan specs rest).map (tokens ++ .option name value :: ·)
    else (scan specs rest).map (.word argument :: ·)

/-- The switches in front of a command's name, the name, and the arguments behind it. -/
def scanCommand (specs : List OptionSpec) : List String → Option (List Token × String × List String)
  | [] => none
  | argument :: rest =>
    if looksLikeOption argument then do
      let scanned ← scanOption specs argument
      let (tokens, command) ← scanCommand specs rest
      return (scanned.tokens ++ tokens, command)
    else some ([], argument, rest)

namespace Token

def words (tokens : List Token) : List String :=
  tokens.filterMap fun
    | word text => some text
    | _ => none

def values (tokens : List Token) (name : String) : List String :=
  tokens.filterMap fun
    | option n value => if n = name then some value else none
    | _ => none

def count (tokens : List Token) (name : String) : Nat := List.count (switch name) tokens

/-- The value of an option that may be given once: absent, or read; `none` if it is given twice or
has no reading. -/
def single (tokens : List Token) (name : String) (read : String → Option α) : Option (Option α) :=
  match values tokens name with
  | [] => some none
  | [value] => (read value).map some
  | _ => none

end Token

end Gosub.CommandLine
