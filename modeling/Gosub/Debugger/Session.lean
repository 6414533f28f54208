import Gosub.Assembly.Labels
import Gosub.Debugger.Command
import Gosub.Debugger.Words
import Gosub.Machine.Journal

/-!
# Debugger sessions

A session drives one machine, line by line. Only `step` and `continue` move the machine, and
nothing moves it once it has ended; the other commands show it, or keep the set of breakpoints.
-/

namespace Gosub.Debugger

/-- The state of a session between two lines. -/
structure Session where
  machine : Machine
  labels : Labels
  /-- The addresses to stop at, each once. -/
  breakpoints : List Nat
  /-- Where the next listing goes on, if there was one since the machine last moved. -/
  listAt : Option Nat
  /-- The last command, which an empty line repeats. -/
  last : Option Command

namespace Session

/-- A session that has not read anything. -/
def start (machine : Machine) (labels : Labels) : Session := ⟨machine, labels, [], none, none⟩

def hasEnded (s : Session) : Bool := s.machine.status ≠ .running

def info (message : String) : Output := .log .info message []

/-- An address in at least four hexadecimal digits. -/
def showAddress (address : Nat) : String := "0x" ++ Numeral.hexPadded 4 address

def showDepth (n : Nat) : String := String.ofList ((toString n).toList.leftpad 4 ' ')

/-! ## Showing the machine -/

/-- What stands before an instruction: whether the machine stops here, and whether it is here. -/
def gutter (s : Session) (address : Nat) : String :=
  (if s.breakpoints.contains address then "B" else " ")
    ++ (if s.machine.pc = address then ">" else " ")

/-- The labels of an address and the instruction there. -/
def showInstruction (s : Session) (address : Nat) : List Output :=
  (s.labels.namesAt address).map (fun name => info ("          " ++ name ++ ":"))
    ++ [info (s.gutter address ++ " " ++ showAddress address ++ "    "
      ++ (s.machine.code.fetch address).render)]

def listStart (s : Session) : Nat := s.listAt.getD s.machine.pc

/-- What a listing of at most so many instructions holds. -/
def listed (s : Session) (n : Nat) : List (Nat × Instruction) :=
  (s.machine.code.instructionsFrom s.listStart).take n

/-- Where the next listing begins: behind the last instruction of this one. -/
def listEnd (s : Session) (n : Nat) : Nat :=
  match (s.listed n).getLast? with
  | some (address, i) => address + i.size
  | none => s.listStart

/-- A listing, which says so when the code ends before it has all its instructions. -/
def showList (s : Session) (n : Nat) : List Output :=
  (s.listed n).flatMap (fun p => s.showInstruction p.1)
    ++ if (s.listed n).length < n then [info "End of code"] else []

def showStack (s : Session) : List Output :=
  if s.machine.stack.words.isEmpty then [info "Stack is empty"]
  else s.machine.stack.words.mapIdx fun depth w => info ("  " ++ showDepth depth ++ "  " ++ w.render)

def showReturns (s : Session) : List Output :=
  .log .info "Return stack" [("depth", toString s.machine.returns.depth),
      ("outstanding", toString s.machine.returns.outstanding)]
    :: s.machine.returns.entries.mapIdx fun depth address =>
      info ("  " ++ showDepth depth ++ "  " ++ showAddress address)

def rowSize : Nat := 16

/-- The rows of some bytes that are found at an address. -/
def showRows (address : Nat) (bytes : List UInt8) : List Output :=
  if bytes.isEmpty then []
  else
    let row := (bytes.take rowSize).map fun b => String.ofList (Hex.writeByte b)
    info (showAddress address ++ "  " ++ " ".intercalate row)
      :: showRows (address + rowSize) (bytes.drop rowSize)
termination_by bytes.length
decreasing_by
  have : bytes ≠ [] := by simpa using ‹¬bytes.isEmpty = true›
  have := List.length_pos_iff.2 this
  simp [rowSize]; omega

def showMemory (s : Session) (offset number : Nat) : List Output :=
  if s.machine.memory.size < offset then
    [.log .warn "Offset is past the end of memory" [("offset", toString offset),
      ("size", toString s.machine.memory.size)]]
  else showRows offset (s.machine.memory.slice offset number)

def countLine (n : Nat) (noun : String) : Output :=
  info (if n = 0 then "No " ++ noun ++ "s"
    else if n = 1 then "1 " ++ noun ++ ":"
    else toString n ++ " " ++ noun ++ "s:")

def showBreakpoints (s : Session) : List Output :=
  countLine s.breakpoints.length "breakpoint"
    :: (s.breakpoints.mergeSort (· ≤ ·)).flatMap s.showInstruction

def showLabels (s : Session) : List Output :=
  countLine s.labels.size "label"
    :: s.labels.entries.map fun e => info ("  " ++ e.1 ++ " => " ++ showAddress e.2)

def showCost (s : Session) : List Output :=
  [.log .info "Execution cost" [("steps", toString s.machine.steps),
    ("cost", toString s.machine.cost)]]

def showTopic (s : Session) : Topic → List Output
  | .breakpoints => s.showBreakpoints
  | .labels => s.showLabels
  | .cost => s.showCost
  | .help => []

/-- All topics with a dash between them. -/
def showTopics (s : Session) : List Output :=
  s.showBreakpoints ++ [info "–"] ++ s.showLabels ++ [info "–"] ++ s.showCost

/-! ## Moving the machine -/

def showEnd (m : Machine) : List Output :=
  match m.status with
  | .running => []
  | .halted h => [.log .info "Halted" [("halt", h.render), ("steps", toString m.steps)]]
  | .faulted f => [.log .warn "Aborted" [("error", f.message),
      ("error.sources", "[" ++ ", ".intercalate f.causes ++ "]")]]

def stepOnce (s : Session) : List Output × Session :=
  let (records, machine) := s.machine.stepLogged
  (records ++ showEnd machine, { s with machine })

/-- So many steps, none after the end; if it is not reached, the instruction that comes next. -/
def stepMany : Nat → Session → List Output × Session
  | 0, s => (s.showInstruction s.machine.pc, s)
  | n + 1, s =>
    let (outputs, s) := s.stepOnce
    if s.hasEnded then (outputs, s)
    else
      let (more, s) := s.stepMany n
      (outputs ++ more, s)

/-- Steps to the end or to a breakpoint, if the fuel lasts. What was written before comes last
first. -/
def resume? : Nat → List Output → Session → Option (List Output × Session)
  | 0, _, _ => none
  | fuel + 1, before, s =>
    let (outputs, s) := s.stepOnce
    let before := outputs.reverse ++ before
    if s.hasEnded then some (before.reverse, s)
    else if s.breakpoints.contains s.machine.pc then
      some (before.reverse ++ .log .info "Stopped at a breakpoint"
        [("address", toString s.machine.pc)] :: s.showInstruction s.machine.pc, s)
    else s.resume? fuel before

/-! ## Commands -/

inductive LocationError where
  | outOfRange (word : Word)
  | unknownLabel (name : String)
  deriving DecidableEq

def LocationError.message : LocationError → String
  | outOfRange word => "offset " ++ word.render ++ " is out of range"
  | unknownLabel name => "unknown label " ++ Text.quote name

def resolveOffset (word : Word) : Except LocationError Nat :=
  match word.address? with
  | some address => .ok address
  | none => .error (.outOfRange word)

def resolve (s : Session) : Location → Except LocationError Nat
  | .offset word => resolveOffset word
  | .label name => match s.labels.address? name with
    | some address => .ok address
    | none => .error (.unknownLabel name)

def addBreakpoint (s : Session) (address : Nat) : List Output × Session :=
  if s.breakpoints.contains address then
    ([.log .warn "A breakpoint was already set" [("address", toString address)]], s)
  else ([.log .info "Setting a breakpoint" [("address", toString address)]],
    { s with breakpoints := address :: s.breakpoints })

def removeBreakpoint (s : Session) (address : Nat) : List Output × Session :=
  if s.breakpoints.contains address then
    ([.log .info "Removing breakpoint" [("address", toString address)]],
      { s with breakpoints := s.breakpoints.erase address })
  else ([.log .warn "No breakpoint was set here" [("address", toString address)]], s)

/-- A warning that holds nothing but an error. -/
def warning (message : String) : List Output := [.log .warn "" [("error", message)]]

/-- An answer that depends on an address. -/
def withAddress (s : Session) (address : Except LocationError Nat)
    (f : Nat → List Output × Session) : List Output × Session :=
  match address with
  | .ok address => f address
  | .error e => (warning e.message, s)

/-- An answer that moves the machine, unless it has ended. -/
def moving (s : Session) (f : Session → Option (List Output × Session)) :
    Option (List Output × Session) :=
  if s.hasEnded then
    some ([.log .warn "Machine is halted. Use \x22exit\x22 to quit" []], s)
  else f { s with listAt := none }

/-- The answer to a command that does not end the session, if the fuel lasts. -/
def execute? (fuel : Nat) (s : Session) : Command → Option (List Output × Session)
  | .exit => some ([], s)
  | .step n => s.moving fun s => some (s.stepMany n)
  | .resume => s.moving fun s => s.resume? fuel []
  | .stack => some (s.showStack, s)
  | .returns => some (s.showReturns, s)
  | .memory offset n =>
    some (s.withAddress (resolveOffset offset) fun offset => (s.showMemory offset n, s))
  | .list n => some (s.showList n, { s with listAt := some (s.listEnd n) })
  | .setBreak location => some (s.withAddress (s.resolve location) s.addBreakpoint)
  | .unsetBreak location => some (s.withAddress (s.resolve location) s.removeBreakpoint)
  | .info (some topic) => some (s.showTopic topic, s)
  | .info none => some (s.showTopics, s)

inductive Request where
  | command (command : Command)
  /-- An empty line when no command came before. -/
  | nothing
  | wrong
  deriving DecidableEq

/-- What a line asks for; an empty one asks for the last command again. -/
def request (s : Session) (line : String) : Request :=
  if line.isEmpty then
    match s.last with
    | some c => .command c
    | none => .nothing
  else match (Words.split? line).bind Command.ofWords? with
    | some c => .command c
    | none => .wrong

/-- The answer to a line, and the session after it unless it has ended. -/
def answer? (fuel : Nat) (s : Session) (line : String) :
    Option (List Output × Option Session) :=
  match s.request line with
  | .nothing =>
    some ([info "Type \x22help\x22 to get the list of available commands"], some s)
  | .wrong => some (warning "<usage>", some s)
  | .command c =>
    let record := Output.log .debug ("Executing command: " ++ c.render) []
    let s := { s with last := some c }
    if c = .exit then some ([record], none)
    else (s.execute? fuel c).map fun a => (record :: a.1, some a.2)

/-! ## Reading lines -/

def greeting : Output :=
  info "Running in interactive mode. Type \x22help\x22 to list available commands."

def farewell : Output := info "EOF, exitting"

end Session

/-- A line without the line feed at its end and a carriage return before it. -/
def dropLineEnding (text : List Char) : List Char :=
  if text.getLast? = some '\n' then
    if text.dropLast.getLast? = some '\r' then text.dropLast.dropLast else text.dropLast
  else text

/-- The line that some text makes, unless a quote is open at its end. -/
def completeLine? (text : List Char) : Option String :=
  let line := String.ofList (dropLineEnding text)
  (Words.split? line).map fun _ => line

/-- The pieces of a text that end with a line feed, and what comes after the last one. -/
def pieces (text : List Char) : List (List Char) :=
  if text.isEmpty then []
  else
    let line := text.takeWhile (· ≠ '\n')
    (line ++ (text.drop line.length).take 1) :: pieces (text.drop (line.length + 1))
termination_by text.length
decreasing_by
  have : text ≠ [] := by simpa using ‹¬text.isEmpty = true›
  have := List.length_pos_iff.2 this
  simp; omega

/-- The lines of an input: a piece whose quotes are open goes on with the next one, and is dropped
when there is none. -/
def inputLines (pending : List Char) : List (List Char) → List String
  | [] => []
  | piece :: rest =>
    match completeLine? (pending ++ piece) with
    | some line => line :: inputLines [] rest
    | none => inputLines (pending ++ piece) rest

namespace Session

/-- The answers to some lines, if the fuel lasts for each of them. -/
def answers? (fuel : Nat) : Session → List String → Option (List Output)
  | _, [] => some [farewell]
  | s, line :: rest => do
    let (outputs, next) ← s.answer? fuel line
    match next with
    | none => return outputs
    | some s => return outputs ++ (← s.answers? fuel rest)

/-- All that a session writes, given its whole input. -/
def transcript? (fuel : Nat) (s : Session) (input : String) : Option (List Output) := do
  return greeting :: (← s.answers? fuel (inputLines [] (pieces input.toList)))

end Session

end Gosub.Debugger
