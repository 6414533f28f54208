/-!
# Diagnostics

What is reported about a source: a message, and places in the source with a text each. Offsets and
lengths count UTF-8 bytes.
-/

namespace Gosub

/-- A place in a source, and what to write there. -/
structure Mark where
  offset : Nat
  length : Nat
  text : String
  deriving DecidableEq

inductive Diagnostic where
  | mk (message : String) (code help : Option String) (marks : List Mark)
    (related : Option (List Diagnostic))

namespace Diagnostic

def message : Diagnostic → String
  | mk message _ _ _ _ => message

/-- The name of the kind of report. -/
def code : Diagnostic → Option String
  | mk _ code _ _ _ => code

def help : Diagnostic → Option String
  | mk _ _ help _ _ => help

def marks : Diagnostic → List Mark
  | mk _ _ _ marks _ => marks

/-- The reports that explain this one, where it may have some. -/
def related : Diagnostic → Option (List Diagnostic)
  | mk _ _ _ _ related => related

end Diagnostic

end Gosub
