import ScriptSuite.Disk.Basic
import ScriptSuite.Text.Lines
import ScriptSuite.Text.Utf8

/-!
# Disk/Directory — a directory of files as a value

A `Directory` is a list of files, each with the names on the way to it; a directory in it is there
because a file is below it.  A path is resolved piece by piece from the top, as a system does it:
what is not a directory has nothing below it, and two dots lead to the directory around.  What lies
around the top directory is not known; nothing with a name is found there.
-/

namespace ScriptSuite

/-- Files by the names on the way to them, the latest first; of two entries for one file the first
counts. -/
structure Directory where
  files : List (List String × List UInt8) := []

namespace Directory

/-- Where a path has led so far. -/
inductive Place where
  /-- A directory, with the names on the way to it. -/
  | inside (names : List String)
  /-- A directory around the top one. -/
  | outside
  | file (octets : List UInt8)

/-- The longest name that a file may have, in octets. -/
def longestName : Nat := 255

/-- The longest path that is looked up, in octets. -/
def longestPath : Nat := 4095

/-- The file with these names on the way to it. -/
def file? (d : Directory) (names : List String) : Option (List UInt8) :=
  (d.files.find? fun f => f.1 = names).map (·.2)

/-- Whether a directory has these names on the way to it. -/
def hasDirectory (d : Directory) (names : List String) : Bool :=
  names.isEmpty || d.files.any fun f => names.isPrefixOf f.1 && f.1.length != names.length

/-- Follows one piece of a path. -/
def follow (d : Directory) (place : Place) (piece : List Char) : Except DiskFault Place :=
  match place with
  | .file _ => .error .notADirectory
  | .outside =>
    if piece = [] ∨ piece = ['.'] ∨ piece = ['.', '.'] then .ok .outside
    else if (String.ofList piece).utf8ByteSize > longestName then .error .nameTooLong
    else .error .missing
  | .inside names =>
    if piece = [] ∨ piece = ['.'] then .ok (.inside names)
    else if piece = ['.', '.'] then
      .ok (if names.isEmpty then .outside else .inside names.dropLast)
    else
      let name := String.ofList piece
      let names := names ++ [name]
      if name.utf8ByteSize > longestName then .error .nameTooLong
      else match d.file? names with
        | some octets => .ok (.file octets)
        | none => if d.hasDirectory names then .ok (.inside names) else .error .missing

/-- Follows the pieces of a path. -/
def followAll (d : Directory) (place : Place) : List (List Char) → Except DiskFault Place
  | [] => .ok place
  | piece :: rest =>
    match d.follow place piece with
    | .error fault => .error fault
    | .ok place => followAll d place rest

/-- Where the pieces of a path start from. -/
def startOf (path : String) : Place :=
  if path.toList.head? = some '/' then .outside else .inside []

/-- A fault that the path has in itself. -/
def pathFault? (path : String) : Option DiskFault :=
  if '\x00' ∈ path.toList then some .holdsNul
  else if path.isEmpty then some .missing
  else if path.utf8ByteSize > longestPath then some .nameTooLong
  else none

/-- Where a path leads. -/
def resolve (d : Directory) (path : String) : Except DiskFault Place :=
  match pathFault? path with
  | some fault => .error fault
  | none => d.followAll (startOf path) (pieces '/' path.toList)

/-- The size that is given for a directory. -/
def directorySize : Nat := 4096

/-- **The disk** that a directory is. -/
def disk (d : Directory) : Disk := fun path =>
  match d.resolve path with
  | .error fault => .unreachable fault
  | .ok (.file octets) => .file octets
  | .ok _ => .directory directorySize

/-- The names that the pieces of a path lead through, when all of them were directories. -/
def nameSteps (names : List String) : List (List Char) → List String
  | [] => names
  | piece :: rest =>
    if piece = [] ∨ piece = ['.'] then nameSteps names rest
    else if piece = ['.', '.'] then nameSteps names.dropLast rest
    else nameSteps (names ++ [String.ofList piece]) rest

/-- The directory with one file more, and with the directories on the way to it. -/
def add (d : Directory) (path : String) (octets : List UInt8) : Directory :=
  ⟨(nameSteps [] (pieces '/' path.toList), octets) :: d.files⟩

/-- The directory of these files. -/
def ofFiles (files : List (String × List UInt8)) : Directory :=
  files.foldl (fun d f => d.add f.1 f.2) {}

/-- The pieces of a path without the empty ones at its end. -/
def dropEmptyEnd (ps : List (List Char)) : List (List Char) :=
  (ps.reverse.dropWhile List.isEmpty).reverse

/-- **Writes a file**, in a directory that is there.  The way to the last piece is followed first;
then a path with a slash at its end can only mean a directory, whatever its last piece is. -/
def write (d : Directory) (path : String) (octets : List UInt8) : Except DiskFault Directory :=
  match pathFault? path with
  | some fault => .error fault
  | none =>
    let ps := pieces '/' path.toList
    let way := dropEmptyEnd ps
    let last := way.getLastD []
    match d.followAll (startOf path) way.dropLast with
    | .error fault => .error fault
    | .ok (.file _) => .error .notADirectory
    | .ok place =>
      if way.length < ps.length ∨ last = [] ∨ last = ['.'] ∨ last = ['.', '.'] then
        .error .isADirectory
      else if (String.ofList last).utf8ByteSize > longestName then .error .nameTooLong
      else match place with
        | .inside names =>
          let names := names ++ [String.ofList last]
          if d.hasDirectory names then .error .isADirectory
          else .ok ⟨(names, octets) :: d.files⟩
        | _ => .ok d

end Directory

end ScriptSuite
