import ScriptSuite.Script.Draft
import ScriptSuite.Text.Utf8

/-!
# Script/Source — scripts in files

A file holds a script as UTF-8.  A file that is no script may still declare an id, so that an embed
of it can be told from an embed of nothing (`declaredId?`); for this the file is read leniently,
since its encoding may be what is wrong with it.
-/

namespace ScriptSuite

/-- **The script in a file**, or the first defect of the file. -/
def Script.ofOctets (o : Script.Options) (octets : List UInt8) : Except Defect Script :=
  match Utf8.decode octets with
  | .error line => .error ⟨line, .notUtf8⟩
  | .ok text => Script.read o text

/-- The script in the file at a location. -/
def Script.ofFile (o : Script.Options) (location : String) (octets : List UInt8) :
    Except Defect Script :=
  (Script.ofOctets o octets).map fun s => { s with location := location }

/-- The id that a line declares, if it is an identity line that says one. -/
def Line.Kind.declaredId? : Line.Kind → Option String
  | .identity id => if id.isEmpty then none else some id
  | _ => none

/-- **The id that a file declares**, whatever else may be wrong with it. -/
def declaredId? (octets : List UInt8) : Option String :=
  (lines (Utf8.Reading.ofOctets octets).chars).findSome? fun cs =>
    (Line.Kind.ofChars (trimChars cs)).declaredId?

end ScriptSuite
