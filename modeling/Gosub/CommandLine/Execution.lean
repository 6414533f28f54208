import Gosub.Assembly.Journal
import Gosub.Assembly.Listing
import Gosub.CommandLine.File
import Gosub.CommandLine.Invocation
import Gosub.Debugger.Session
import Gosub.Signature

/-!
# Executing commands

A command is a function of the file it names and of the input, and comes to what it wrote and how
it ended. A program that never ends takes all fuel.
-/

namespace Gosub.CommandLine

inductive Ending where
  | success
  | failure
  /-- It broke off before it began. -/
  | aborted
  deriving DecidableEq

def Ending.status : Ending → Nat
  | success => 0
  | failure => 1
  | aborted => 101

structure Report where
  outputs : List Output
  ending : Ending

namespace Report

/-- What was written, and that it went well. -/
def success (outputs : List Output) : Report := ⟨outputs, .success⟩

/-- What was written, and the error with what lies behind it. -/
def failure (outputs : List Output) (messages : List String) : Report :=
  ⟨outputs ++ [.log .error (": ".intercalate messages) []], .failure⟩

/-- Nothing is written of a command that broke off. -/
def aborted : Report := ⟨[], .aborted⟩

/-- The lines that show. What a user gave may break a record into several. -/
def lines (threshold : Level) (r : Report) : List String :=
  (r.outputs.filterMap (·.render? threshold)).flatMap (·.splitOn "\n")

end Report

/-- The status of arguments that ask for nothing. -/
def usageStatus : Nat := 2

def Invocation.threshold (i : Invocation) : Level :=
  match i.verbosity with
  | 0 => .info
  | 1 => .debug
  | _ => .trace

/-! ## Loading -/

/-- A program to work on. Only an assembled one has labels. -/
structure Loaded where
  code : Code
  labels : Labels

/-- The format that the name of a file suggests. -/
def Format.guess (path : String) : Format :=
  match Path.extension? path with
  | some "hex" => .hex
  | some "bin" => .bin
  | _ => .asm

/-- The format of a program, guessed where none is given. A style in its place is no format. -/
def Input.format? (input : Input) : Option Format :=
  match input.slot with
  | .empty => some (.guess input.path)
  | .given format => some format
  | .style => none

def textOf (bytes : List UInt8) : Except FileError String :=
  match String.fromUTF8? ⟨bytes.toArray⟩ with
  | some text => .ok text
  | none => .error .notText

/-- The outcome of loading: a program, or what is said of the failure. -/
inductive Loading where
  | loaded (outputs : List Output) (program : Loaded)
  | failed (report : Report)

namespace Loading

/-- Goes on with a program, if there is one. -/
def andThen (l : Loading) (f : List Output → Loaded → α) (report : Report → α) : α :=
  match l with
  | loaded outputs program => f outputs program
  | failed r => report r

/-- A program that its source gives; the errors of an assembly are not among the outputs. -/
def ofSource (outputs : List Output) (source : String) : Loading :=
  let outputs := outputs ++ [.log .debug "Assembling program" []]
  match Program.parse source with
  | .error _ => failed ⟨outputs, .failure⟩
  | .ok program =>
    let compilation := program.compilation
    let outputs := outputs ++ compilation.journal
    match compilation.result with
    | .error _ => failed ⟨outputs, .failure⟩
    | .ok a => loaded outputs ⟨a.code, a.labels⟩

def ofHexText (outputs : List Output) (text : String) : Loading :=
  match Code.ofHex text with
  | .ok code => loaded outputs ⟨code, .empty⟩
  | .error e => failed (.failure outputs [e.message])

end Loading

/-- Loads a program of a format from the contents of its file. -/
def Format.load (format : Format) (path : String) (file : Except FileError (List UInt8)) :
    Loading :=
  let outputs := [Output.log .info "Reading program" [("path", path), ("format", format.label)]]
  let unreadable (e : FileError) : Loading :=
    .failed (.failure outputs ["could not read " ++ path, e.message])
  match file with
  | .error e => unreadable e
  | .ok bytes => match format with
    | .bin => .loaded outputs ⟨.ofList bytes, .empty⟩
    | .hex => match textOf bytes with
      | .ok text => .ofHexText outputs text
      | .error e => unreadable e
    | .asm => match textOf bytes with
      | .ok text => .ofSource outputs text
      | .error e => unreadable e

/-- Loads a program from the contents of its file. Without a format the command breaks off. -/
def Input.load (input : Input) (file : Except FileError (List UInt8)) : Loading :=
  match input.format? with
  | some format => format.load input.path file
  | none => .failed .aborted

/-! ## Running -/

def RunOptions.budget (o : RunOptions) : Budget :=
  match o.maxSteps, o.maxCost with
  | some n, _ => .ofSteps n
  | none, some n => .ofCost n
  | none, none => .unlimited

def runSpan : Span := ⟨.info, "run"⟩

def policyLabel : Policy → String
  | .shared => "Shared"
  | .distinct => "Distinct"

def RunOptions.recordMachine (o : RunOptions) (code : Code) : Output :=
  .log .debug "Building machine"
    [("config", "MachineConfig \x7b policy: " ++ policyLabel o.policy ++ ", memory_limit: "
      ++ toString o.memoryLimit ++ " \x7d"), ("size", toString code.size)]

def RunOptions.machine (o : RunOptions) (code : Code) : Except Trap Machine :=
  ((Machine.start code ⟨o.policy, o.memoryLimit⟩).withBudget o.budget).withStack o.stack

def showHalt (m : Machine) (h : Halt) : List Output :=
  .log .info "End of program" [("halt", h.render), ("steps", toString m.steps),
      ("cost", toString m.cost), ("return_stack", toString m.returns.depth),
      ("stack", ", ".intercalate (m.stack.toList.map Word.render))]
    :: match h with
      | .stop => []
      | .ret output => [.text (Hex.render output)]
      | .revert output =>
        [.log .warn "Execution reverted" [], .text (Hex.render output)]

def reportEnd (outputs : List Output) (m : Machine) : Report :=
  match m.status with
  | .running => .success outputs
  | .halted h => .success (outputs ++ showHalt m h)
  | .faulted f => .failure outputs (f.message :: f.causes)

/-- Runs a machine to its end, if the fuel lasts. -/
def runToEnd? (fuel : Nat) (outputs : List Output) (m : Machine) : Option Report := do
  let (records, m) ← m.runLogged? fuel []
  return reportEnd (outputs ++ .log .info "Running program" [] :: records.map (·.within runSpan)) m

/-- What a command has come to before it reads its input. -/
inductive Progress where
  | done (report : Report)
  /-- It goes on as a session of the debugger. -/
  | session (outputs : List Output) (session : Debugger.Session)

def runProgram? (fuel : Nat) (o : RunOptions) (outputs : List Output) (p : Loaded) :
    Option Progress :=
  let outputs := outputs ++ [o.recordMachine p.code]
  match o.machine p.code with
  | .error e => some (.done (.failure outputs [e.message]))
  | .ok m =>
    if o.interactive then some (.session outputs (.start m p.labels))
    else (runToEnd? fuel outputs m).map .done

/-! ## Showing programs -/

def showListing (policy : Policy) (outputs : List Output) (p : Loaded) : Report :=
  let listing := p.code.listing p.labels (some (p.code.destinations policy))
  .success (outputs ++ .log .debug "Disassembling"
      [("size", toString p.code.size), ("policy", policy.name)]
    :: listing.map fun l => .text l.render)

def showDestination (kind : DestinationKind) (labels : Labels) (address : Nat) : Output :=
  let line := String.ofList (kind.name.toList.rightpad 10 ' ') ++ " 0x"
    ++ Numeral.hexPadded 4 address
  match labels.namesAt address with
  | [] => .text line
  | names => .text (line ++ "  " ++ ", ".intercalate names)

def showKind (policy : Policy) (p : Loaded) (kind : DestinationKind) : List Output :=
  let offsets := (p.code.destinations policy).ofKind kind
  .log .info "Destinations" [("kind", kind.name), ("policy", policy.name),
      ("count", toString offsets.length)]
    :: offsets.map (showDestination kind p.labels)

def showDestinations (policy : Policy) (kind : Option DestinationKind) (outputs : List Output)
    (p : Loaded) : Report :=
  let kinds := match kind with
    | some kind => [kind]
    | none => DestinationKind.all
  .success (outputs ++ kinds.flatMap (showKind policy p))

/-! ## Signatures -/

def showSignature (sig : Signature) : List Output :=
  [.text ("r  " ++ sig.r.render), .text ("s  " ++ sig.s.render),
    .text ("v  " ++ toString sig.recoveryId)]

def compactSignature (r s : Word) (v : Nat) : Report :=
  match Signature.ofRecoveryId r s v >>= Signature.toCompact with
  | .error e => .failure [] [e.message]
  | .ok c => .success [.log .debug "Compacted signature" [("compact", c.render)],
      .text ("r  " ++ c.r.render), .text ("vs " ++ c.vs.render), .text c.render]

def decodeSignature (text : String) : Report :=
  match Hex.read text with
  | .error e => .failure [] ["invalid hex input", e.message]
  | .ok bytes => match CompactSignature.ofBytes bytes with
    | .error e => .failure [] [e.message]
    | .ok c => .success (showSignature c.expand)

/-! ## Commands -/

/-- What a command comes to before it reads its input, if the fuel lasts. -/
def Command.start? (fuel : Nat) (file : Except FileError (List UInt8)) : Command → Option Progress
  | .run o => (o.input.load file).andThen (runProgram? fuel o) (some ∘ .done)
  | .disasm input policy =>
    some (.done ((input.load file).andThen (showListing policy) id))
  | .dests input policy kind =>
    some (.done ((input.load file).andThen (showDestinations policy kind) id))
  | .compact r s v => some (.done (compactSignature r s v))
  | .expand r vs => some (.done (.success (showSignature (CompactSignature.expand ⟨r, vs⟩))))
  | .decode text => some (.done (decodeSignature text))

/-- Executes a command, given its file and its input, if the fuel lasts. -/
def Command.execute? (fuel : Nat) (file : Except FileError (List UInt8)) (input : String)
    (c : Command) : Option Report := do
  match ← c.start? fuel file with
  | .done report => return report
  | .session outputs session => return .success (outputs ++ (← session.transcript? fuel input))

/-- Executes an invocation in a folder: the status it exits with, and the lines that show. -/
def Invocation.execute? (fuel : Nat) (folder : Folder) (input : String) (i : Invocation) :
    Option (Nat × List String) := do
  let file := match i.command.input? with
    | some program => folder.read program.path
    | none => .error .notFound
  let report ← i.command.execute? fuel file input
  return (report.ending.status, report.lines i.threshold)

end Gosub.CommandLine
