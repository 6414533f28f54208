import Gosub.CommandLine.Execution

/-!
The command line: it reads the file and the input, and prints.
-/

namespace Gosub.CommandLine

/-- The contents of a file. A folder opens but can not be read, so its error names no file. -/
def readFile (path : String) : IO (Except FileError (List UInt8)) := do
  try
    return .ok (← IO.FS.readBinFile path).toList
  catch
    | .noFileOrDirectory .. => return .error .notFound
    | .inappropriateType none .. => return .error .isFolder
    | .inappropriateType (some _) .. => return .error .notFolder
    | .invalidArgument _ _ "name too long" => return .error .nameTooLong
    | e => throw e

/-- The answer of a computation that is given ever more fuel. -/
partial def untilDone [Inhabited α] (f : Nat → Option α) (fuel : Nat) : α :=
  match f fuel with
  | some a => a
  | none => untilDone f (4 * fuel)

def firstFuel : Nat := 65536

def printAll (threshold : Level) (outputs : List Output) : IO Unit :=
  (outputs.filterMap (·.render? threshold)).forM IO.println

/-- Answers lines until the session or the input ends. -/
partial def serve (threshold : Level) (pending : List Char) (session : Debugger.Session) :
    IO Unit := do
  let piece ← (← IO.getStdin).getLine
  if piece.isEmpty then printAll threshold [Debugger.Session.farewell]
  else
    let text := pending ++ piece.toList
    match Debugger.completeLine? text with
    | none => serve threshold text session
    | some line =>
      have : Inhabited (List Output × Option Debugger.Session) := ⟨([], none)⟩
      let (outputs, next) := untilDone (fun fuel => session.answer? fuel line) firstFuel
      printAll threshold outputs
      match next with
      | some session => serve threshold [] session
      | none => return

def Invocation.perform (i : Invocation) : IO UInt32 := do
  let file ← match i.command.input? with
    | some program => readFile program.path
    | none => pure (.error .notFound)
  have : Inhabited Progress := ⟨.done (.success [])⟩
  match untilDone (fun fuel => i.command.start? fuel file) firstFuel with
  | .done report =>
    printAll i.threshold report.outputs
    return report.ending.status.toUInt32
  | .session outputs session =>
    printAll i.threshold (outputs ++ [Debugger.Session.greeting])
    serve i.threshold [] session
    return 0

end Gosub.CommandLine

open Gosub.CommandLine in
def main (arguments : List String) : IO UInt32 := do
  match Invocation.ofArguments? arguments with
  | some invocation => invocation.perform
  | none =>
    IO.eprintln "unknown command or wrong arguments"
    return usageStatus.toUInt32
