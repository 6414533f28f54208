import Gosub.Assembly.Emission
import Gosub.Log

/-!
# The journal of an assembly

What is recorded of the two passes over a program, as far as they went.
-/

namespace Gosub

def compileSpan : Span := ⟨.info, "compile"⟩

namespace Compilation

def recordLabel (l : Fragment × Nat) : Record :=
  .of .trace "Placing label" [("label", Text.quote l.1.text), ("offset", toString l.2)]

def recordInstruction (e : Nat × Instruction) : Record :=
  .of .trace "Emitting" [("offset", toString e.1), ("instruction", e.2.render)]

def recordEnd (c : Compilation) : Record :=
  .of .debug "Compiled program" [("size", toString c.code.size),
    ("labels", toString c.labels.size)]

def journal (c : Compilation) : List Output :=
  (c.placedLabels.map recordLabel ++ c.emitted.map recordInstruction
    ++ if c.error.isNone then [c.recordEnd] else []).map fun r => .record (r.within compileSpan)

end Compilation

end Gosub
