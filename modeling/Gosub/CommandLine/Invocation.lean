import Gosub.Code.Destinations
import Gosub.CommandLine.Arguments
import Gosub.Machine.Memory
import Gosub.Text.Integer
import Gosub.Word.Literal

/-!
# Invocations

What the arguments of the command line ask for. Arguments that fit no command ask for nothing.
-/

namespace Gosub.CommandLine

inductive Format where
  | asm
  | hex
  | bin
  deriving DecidableEq

namespace Format

def all : List Format := [asm, hex, bin]

def name : Format → String
  | asm => "asm"
  | hex => "hex"
  | bin => "bin"

def ofName? (name : String) : Option Format := all.find? fun f => f.name == name

/-- The name as records show it. -/
def label : Format → String
  | asm => "Asm"
  | hex => "Hex"
  | bin => "Bin"

end Format

/-- What is kept where a command looks for the format of its program. -/
inductive FormatSlot where
  /-- Nothing, so the format is to be guessed. -/
  | empty
  | given (format : Format)
  /-- A way of writing records, which is no format. -/
  | style
  deriving DecidableEq

structure Input where
  path : String
  slot : FormatSlot
  deriving DecidableEq

structure RunOptions where
  input : Input
  policy : Policy
  maxSteps : Option Nat
  maxCost : Option Nat
  memoryLimit : Nat
  /-- The words on the stack, bottom first. -/
  stack : List Word
  interactive : Bool
  deriving DecidableEq

inductive Command where
  | run (options : RunOptions)
  | disasm (input : Input) (policy : Policy)
  | dests (input : Input) (policy : Policy) (kind : Option DestinationKind)
  | compact (r s : Word) (v : Nat)
  | expand (r vs : Word)
  | decode (text : String)
  deriving DecidableEq

/-- A command and how much is to be logged about it. -/
structure Invocation where
  verbosity : Nat
  command : Command
  deriving DecidableEq

/-! ## Options -/

def switch (name : String) (letter : Option Char) : OptionSpec := ⟨name, letter, false⟩

def valued (name : String) (letter : Option Char) : OptionSpec := ⟨name, letter, true⟩

/-- The switches that choose how records are written. -/
def styleSwitches : List OptionSpec :=
  [switch "color" (some 'c'), switch "no-color" (some 'C'), switch "json" (some 'j')]

def globalOptions : List OptionSpec := switch "verbose" (some 'v') :: styleSwitches

/-- The options of commands that load a program. -/
def inputOptions : List OptionSpec :=
  globalOptions ++ [valued "format" (some 'f'), valued "policy" none]

def destsOptions : List OptionSpec := inputOptions ++ [valued "kind" none]

def runOptions : List OptionSpec :=
  inputOptions ++ [valued "max-steps" none, valued "max-cost" none, valued "memory-limit" none,
    valued "push" none, switch "interactive" (some 'i')]

/-- Whether a token chooses how records are written. -/
def Token.isStyle (t : Token) : Bool := styleSwitches.any fun s => t = switch s.name

/-- At most one way of writing records may be chosen, and once. -/
def stylesAgree (tokens : List Token) : Bool := tokens.countP Token.isStyle ≤ 1

/-- How often `verbose` is given, if it is. -/
def verbosity? (tokens : List Token) : Option Nat :=
  let n := Token.count tokens "verbose"
  if n = 0 then none else some n

/-! ## Commands -/

def readWord? (text : String) : Option Word := Word.ofLiteral? text.toList

/-- Whether a token is kept where the format of a program is. -/
def Token.claimsSlot : Token → Bool
  | option name _ => name = "format"
  | t => t.isStyle

/-- What the arguments keep in the place of the format. The first to come stays there; a format
that finds the place taken is refused, a style is not. -/
def slotOf? (tokens : List Token) : Option FormatSlot :=
  match tokens.filter Token.claimsSlot with
  | [] => some .empty
  | first :: rest =>
    if rest.all Token.isStyle then
      match first with
      | .option _ name => (Format.ofName? name).map .given
      | _ => some .style
    else none

def inputOf? (tokens : List Token) : Option Input := do
  match Token.words tokens with
  | [path] => return ⟨path, ← slotOf? tokens⟩
  | _ => none

/-- The policy that the arguments name, or the shared one. -/
def policyOf? (tokens : List Token) : Option Policy := do
  return (← Token.single tokens "policy" Policy.ofName?).getD .shared

def runOf? (tokens : List Token) : Option Command := do
  let maxSteps ← Token.single tokens "max-steps" Text.readNatural?
  let maxCost ← Token.single tokens "max-cost" Text.readNatural?
  let memoryLimit ← Token.single tokens "memory-limit" Text.readNatural?
  let interactive := Token.count tokens "interactive"
  if (maxSteps.isSome && maxCost.isSome) || 1 < interactive then none
  else return .run {
    input := ← inputOf? tokens
    policy := ← policyOf? tokens
    maxSteps, maxCost
    memoryLimit := memoryLimit.getD Memory.defaultLimit
    stack := ← (Token.values tokens "push").mapM readWord?
    interactive := interactive = 1 }

def disasmOf? (tokens : List Token) : Option Command := do
  return .disasm (← inputOf? tokens) (← policyOf? tokens)

def destsOf? (tokens : List Token) : Option Command := do
  return .dests (← inputOf? tokens) (← policyOf? tokens)
    (← Token.single tokens "kind" DestinationKind.ofName?)

def compactOf? (tokens : List Token) : Option Command := do
  match Token.words tokens with
  | [r, s, v] => return .compact (← readWord? r) (← readWord? s) (← Text.readByte? v)
  | _ => none

def expandOf? (tokens : List Token) : Option Command := do
  match Token.words tokens with
  | [r, vs] => return .expand (← readWord? r) (← readWord? vs)
  | _ => none

def decodeOf? (tokens : List Token) : Option Command :=
  match Token.words tokens with
  | [text] => some (.decode text)
  | _ => none

/-- A command of its arguments alone, with the verbosity given among them. -/
def leaf? (specs : List OptionSpec) (read : List Token → Option Command) (arguments : List String) :
    Option (Option Nat × Command) := do
  let tokens ← scan specs arguments
  if stylesAgree tokens then return (verbosity? tokens, ← read tokens) else none

/-- A command behind its name, with the verbosity given before it, unless it is given again. -/
def branch? (read : String → List String → Option (Option Nat × Command))
    (arguments : List String) : Option (Option Nat × Command) := do
  let (tokens, name, rest) ← scanCommand globalOptions arguments
  let (verbosity, command) ← read name rest
  if stylesAgree tokens then return (verbosity.or (verbosity? tokens), command) else none

def signatureCommand? (name : String) : List String → Option (Option Nat × Command) :=
  if name = "compact" then leaf? globalOptions compactOf?
  else if name = "expand" then leaf? globalOptions expandOf?
  else if name = "decode" then leaf? globalOptions decodeOf?
  else fun _ => none

def command? (name : String) : List String → Option (Option Nat × Command) :=
  if name = "run" then leaf? runOptions runOf?
  else if name = "disasm" then leaf? inputOptions disasmOf?
  else if name = "dests" then leaf? destsOptions destsOf?
  else if name = "sig" then branch? signatureCommand?
  else fun _ => none

def Invocation.ofArguments? (arguments : List String) : Option Invocation := do
  let (verbosity, command) ← branch? command? arguments
  return ⟨verbosity.getD 0, command⟩

namespace Command

def input? : Command → Option Input
  | run options => some options.input
  | disasm input _ => some input
  | dests input _ _ => some input
  | _ => none

end Command

end Gosub.CommandLine
