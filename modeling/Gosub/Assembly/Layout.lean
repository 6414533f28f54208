import Gosub.Assembly.Line
import Gosub.Code.Opcode

/-!
# Layout

The first pass over a program: it gives every label and every statement its address. A statement
takes the opcode that its mnemonic names; a bare `push` takes the narrowest one that holds its
number, and two bytes for a label. The pass ends at the first label defined twice, and at the first
statement without an opcode.
-/

namespace Gosub

/-- Why a parsed program can not be assembled. -/
inductive CompileError where
  | unknownMnemonic (mnemonic : Fragment)
  | duplicateLabel (label first : Fragment)
  | unknownLabel (label : Fragment)
  | unexpectedArgument (mnemonic argument : Fragment)
  | missingArgument (mnemonic : Fragment)
  | literalTooLarge (value : Word) (width : Nat) (argument : Fragment)
  deriving DecidableEq

namespace CompileError

def message : CompileError → String
  | unknownMnemonic m => "unknown instruction " ++ Text.quote m.text
  | duplicateLabel l _ => "duplicate label " ++ Text.quote l.text
  | unknownLabel l => "unknown label " ++ Text.quote l.text
  | unexpectedArgument m _ => m.text ++ " does not take an argument"
  | missingArgument m => m.text ++ " needs an argument"
  | literalTooLarge value width _ =>
    value.render ++ " does not fit in " ++ toString width ++ " bytes"

/-- The name of the kind of error. -/
def code : CompileError → String
  | unknownMnemonic _ => "jumpsub::unknown_mnemonic"
  | duplicateLabel _ _ => "jumpsub::duplicate_label"
  | unknownLabel _ => "jumpsub::unknown_label"
  | unexpectedArgument _ _ => "jumpsub::unexpected_argument"
  | missingArgument _ => "jumpsub::missing_argument"
  | literalTooLarge _ _ _ => "jumpsub::literal_too_large"

def help? : CompileError → Option String
  | literalTooLarge _ _ _ => some "use a wider push"
  | _ => none

def markOn (f : Fragment) (text : String) : Mark := ⟨f.offset, f.length, text⟩

def marks : CompileError → List Mark
  | unknownMnemonic m => [markOn m "not an instruction"]
  | duplicateLabel l first => [markOn l "redefined here", markOn first "first defined here"]
  | unknownLabel l => [markOn l "never defined"]
  | unexpectedArgument _ a => [markOn a "unexpected argument"]
  | missingArgument m => [markOn m "argument missing"]
  | literalTooLarge _ _ a => [markOn a "too large"]

def diagnostic (e : CompileError) : Diagnostic :=
  .mk e.message (some e.code) e.help? e.marks none

end CompileError

def labelWidth : Nat := 2

namespace Statement

/-- The width of a bare push. -/
def bareWidth (s : Statement) : Except CompileError Nat :=
  match s.argument with
  | some (.number literal) => .ok literal.value.byteLength
  | some (.label _) => .ok labelWidth
  | none => .error (.missingArgument s.mnemonic)

/-- The opcode that a statement is encoded with. -/
def opcode (s : Statement) : Except CompileError Opcode :=
  if Opcode.foldCase s.mnemonic.text = "push" then do
    match Opcode.push? (← s.bareWidth) with
    | some o => .ok o
    | none => .error (.unknownMnemonic s.mnemonic)
  else match Opcode.ofMnemonic? s.mnemonic.text with
    | none => .error (.unknownMnemonic s.mnemonic)
    | some o => match s.argument, o.immediateSize with
      | none, 0 => .ok o
      | some _, _ + 1 => .ok o
      | none, _ + 1 => .error (.missingArgument s.mnemonic)
      | some a, 0 => .error (.unexpectedArgument s.mnemonic a.fragment)

end Statement

/-- What a program is made of, in the order of the source. -/
inductive Item where
  | label (name : Fragment)
  | statement (statement : Statement)
  deriving DecidableEq

/-- The labels of a line and then its statement. -/
def Line.items (l : Line) : List Item :=
  l.labels.map .label ++ l.statement.toList.map .statement

def Program.items (p : Program) : List Item := p.lines.flatMap Line.items

/-- An item with its address. -/
inductive Placed where
  | label (name : Fragment) (address : Nat)
  | statement (address : Nat) (opcode : Opcode) (statement : Statement)
  deriving DecidableEq

def Placed.label? : Placed → Option (Fragment × Nat)
  | label name address => some (name, address)
  | statement _ _ _ => none

/-- Places items from an address on, as far as that goes, given the labels defined before. The
second part is the error that stopped it. -/
def placeFrom (defined : List Fragment) (address : Nat) :
    List Item → List Placed × Option CompileError
  | [] => ([], none)
  | .label name :: items =>
    match defined.find? fun first => first.text = name.text with
    | some first => ([], some (.duplicateLabel name first))
    | none =>
      let (placed, error) := placeFrom (name :: defined) address items
      (.label name address :: placed, error)
  | .statement s :: items =>
    match s.opcode with
    | .error e => ([], some e)
    | .ok o =>
      let (placed, error) := placeFrom defined (address + 1 + o.immediateSize) items
      (.statement address o s :: placed, error)

/-- The items of a program with their addresses, and the error that stopped the pass. -/
def Program.layout (p : Program) : List Placed × Option CompileError := placeFrom [] 0 p.items

end Gosub
