import Gosub.Text.Extent

/-!
# Files

What reading a file can give, the ending of a file's name, and a folder of files held in memory. A
path is walked step by step from the folder; above it, nothing is known but that folders are there.
-/

namespace Gosub.CommandLine

inductive FileError where
  | notFound
  | isFolder
  | notFolder
  /-- The path, or a name in it, is longer than a path or a name can be. -/
  | nameTooLong
  | notText
  deriving DecidableEq

def FileError.message : FileError → String
  | notFound => "No such file or directory (os error 2)"
  | isFolder => "Is a directory (os error 21)"
  | notFolder => "Not a directory (os error 20)"
  | nameTooLong => "File name too long (os error 36)"
  | notText => "stream did not contain valid UTF-8"

namespace Path

def limit : Nat := 4095

def nameLimit : Nat := 255

/-- The steps of a path; a slash at its end is a step in place. -/
def steps (path : String) : List String :=
  (path.splitOn "/").filter (· ≠ "") ++ if path.endsWith "/" then ["."] else []

def names (path : String) : List String := (steps path).filter (· ≠ ".")

/-- What stands behind the last dot of a name, unless nothing stands before it. -/
def nameExtension? (name : String) : Option String :=
  match (name.splitOn ".").reverse with
  | last :: before => if before.all (· = "") && before.length ≤ 1 then none else some last
  | [] => none

/-- The ending of the last name of a path. -/
def extension? (path : String) : Option String := do
  let name ← (names path).getLast?
  if name = ".." then none else nameExtension? name

end Path

abbrev Folder := List (String × List UInt8)

/-- Where the steps of a path lead. -/
inductive Place where
  /-- The names from the folder on. -/
  | inside (names : List String)
  | outside
  deriving DecidableEq

namespace Folder

/-- The bytes of a file in the folder. Of files of one name, the last replaced the others. -/
def file? (folder : Folder) (names : List String) : Option (List UInt8) :=
  (folder.reverse.find? fun f => Path.names f.1 = names).map (·.2)

def isFolder (folder : Folder) (names : List String) : Bool :=
  names.isEmpty || folder.any fun f => names.isPrefixOf (Path.names f.1)

def readPlace (folder : Folder) : Place → Except FileError (List UInt8)
  | .outside => .error .isFolder
  | .inside names => match folder.file? names with
    | some bytes => .ok bytes
    | none => .error (if folder.isFolder names then .isFolder else .notFound)

/-- One step, which only a folder lets one take. -/
def enter (folder : Folder) (name : String) : Place → Except FileError Place
  | .outside =>
    if Path.nameLimit < Text.byteLength name.toList then .error .nameTooLong
    else if name = "." ∨ name = ".." then .ok .outside
    else .error .notFound
  | .inside names =>
    if (folder.file? names).isSome then .error .notFolder
    else if !folder.isFolder names then .error .notFound
    else if Path.nameLimit < Text.byteLength name.toList then .error .nameTooLong
    else if name = "." then .ok (.inside names)
    else if name ≠ ".." then .ok (.inside (names ++ [name]))
    else if names.isEmpty then .ok .outside
    else .ok (.inside names.dropLast)

def read (folder : Folder) (path : String) : Except FileError (List UInt8) := do
  if path = "" then throw .notFound
  if Path.limit < Text.byteLength path.toList then throw .nameTooLong
  let start := if path.startsWith "/" then Place.outside else .inside []
  folder.readPlace (← (Path.steps path).foldlM (fun place name => folder.enter name place) start)

end Folder

end Gosub.CommandLine
