import ScriptSuite.Disk.Basic
import ScriptSuite.Json.Reader
import ScriptSuite.Json.Record
import ScriptSuite.Text.Quoted
import ScriptSuite.Text.Utf8

/-!
# Suite/External — scripts that are known elsewhere

An embed may name a script that is not among the files of a suite but is already known to the
service that runs it.  Such scripts are given as a JSON list of records: the service's number for a
script, and the script's own id.  The list is taken as a whole or not at all.
-/

namespace ScriptSuite

/-- A script that is known elsewhere: its number there, and its id. -/
structure ExternalScript where
  number : Int64
  id : String
  deriving DecidableEq

namespace ExternalScript

/-- One entry of the list. -/
def ofJson? (v : Json) : Option ExternalScript := do
  let fs ← v.fields? ["id", "rfml_id"]
  return ⟨← Json.field? fs "id" Json.int64?, ← Json.field? fs "rfml_id" Json.text?⟩

/-- **The list in a document.** -/
def listOfText? (document : String) : Option (List ExternalScript) :=
  (Json.read? document).bind fun v => v.items?.bind fun vs => vs.mapM ofJson?

/-- Why there is no list at a path. -/
inductive Fault where
  /-- The file cannot be read as text. -/
  | unreadable (path cause : String)
  /-- The text is no such list. -/
  | malformed (path : String)
  deriving DecidableEq, Repr

namespace Fault

/-- What was being done, without the cause. -/
def summary : Fault → String
  | unreadable path _ => "Failed to read external ids file " ++ Quoted.quote path
  | malformed path => "Failed to parse external ids JSON " ++ Quoted.quote path

/-- The cause. -/
def cause : Fault → String
  | unreadable _ cause => cause
  | malformed _ => "not a list of records with an id and an rfml_id"

/-- The wording of a fault. -/
def message (f : Fault) : String := f.summary ++ ": " ++ f.cause

end Fault

/-- The wording for a file that should be text and is not. -/
def notText : String := "stream did not contain valid UTF-8"

/-- **The list in the file at a path.** -/
def ofFile (disk : Disk) (path : String) : Except Fault (List ExternalScript) :=
  match disk.read path with
  | .error fault => .error (.unreadable path fault.message)
  | .ok octets =>
    match Utf8.text? octets with
    | none => .error (.unreadable path notText)
    | some document =>
      match listOfText? document with
      | none => .error (.malformed path)
      | some list => .ok list

end ExternalScript

end ScriptSuite
