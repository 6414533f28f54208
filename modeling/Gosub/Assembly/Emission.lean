import Gosub.Assembly.Labels
import Gosub.Assembly.Layout
import Gosub.Code.Basic

/-!
# Assembly

The second pass: with every label placed, each statement becomes an instruction, and the
instructions become the code. `Program.compile` gives the code and the labels of a program, or the
first error of the first pass, or else that of the second. `Compilation` holds how far both passes
went.
-/

namespace Gosub

/-- The number that an argument stands for. -/
def Argument.value (labels : Labels) : Argument → Except CompileError Word
  | .number literal => .ok literal.value
  | .label name => match labels.address? name.text with
    | some address => .ok (.ofNat address)
    | none => .error (.unknownLabel name)

/-- The instruction of a statement with a given opcode. A push takes the value of its argument,
which must fit its width. -/
def Statement.instruction (labels : Labels) (s : Statement) : Opcode → Except CompileError Instruction
  | .push k => match s.argument with
    | none => .error (.missingArgument s.mnemonic)
    | some a => do
      let value ← a.value labels
      if k.val + 1 < value.byteLength then .error (.literalTooLarge value (k.val + 1) a.fragment)
      else .ok (.push (k.val + 1) value)
  | o => .ok (.ofOpcode o)

/-- The instructions of placed items with their addresses, as far as that goes, and the error that
stopped it. -/
def emit (labels : Labels) : List Placed → List (Nat × Instruction) × Option CompileError
  | [] => ([], none)
  | .label _ _ :: placed => emit labels placed
  | .statement address o s :: placed =>
    match s.instruction labels o with
    | .error e => ([], some e)
    | .ok i =>
      let (emitted, error) := emit labels placed
      ((address, i) :: emitted, error)

/-- An assembled program: its code and the addresses of its labels. -/
structure Assembled where
  code : Code
  labels : Labels
  deriving DecidableEq

/-- How far the passes over a program went. -/
structure Compilation where
  placedLabels : List (Fragment × Nat)
  emitted : List (Nat × Instruction)
  error : Option CompileError
  deriving DecidableEq

namespace Compilation

def labels (c : Compilation) : Labels :=
  .ofList (c.placedLabels.map fun l => (l.1.text, l.2))

def code (c : Compilation) : Code := .ofList (c.emitted.flatMap fun e => e.2.encode)

def result (c : Compilation) : Except CompileError Assembled :=
  match c.error with
  | some e => .error e
  | none => .ok ⟨c.code, c.labels⟩

end Compilation

namespace Program

/-- Lays the program out and, if that went to the end, emits it. -/
def compilation (p : Program) : Compilation :=
  let (placed, error) := p.layout
  let placedLabels := placed.filterMap Placed.label?
  match error with
  | some e => ⟨placedLabels, [], some e⟩
  | none =>
    let (emitted, error) := emit (.ofList (placedLabels.map fun l => (l.1.text, l.2))) placed
    ⟨placedLabels, emitted, error⟩

def compile (p : Program) : Except CompileError Assembled := p.compilation.result

end Program

/-- Why a source can not be assembled. -/
inductive AssemblyError where
  | unreadable (error : SyntaxError)
  | uncompilable (error : CompileError)

namespace AssemblyError

def message : AssemblyError → String
  | unreadable _ => SyntaxError.message
  | uncompilable e => e.message

def diagnostic : AssemblyError → Diagnostic
  | unreadable e => e.diagnostic
  | uncompilable e => e.diagnostic

end AssemblyError

def assemble (source : String) : Except AssemblyError Assembled :=
  match Program.parse source with
  | .error e => .error (.unreadable e)
  | .ok p => match p.compile with
    | .error e => .error (.uncompilable e)
    | .ok a => .ok a

end Gosub
