import ScriptSuite.Instant
import ScriptSuite.Json.Layout
import ScriptSuite.Suite.Check
import ScriptSuite.Suite.Gathering

/-!
# Suite/Summary — the result of checking a suite, as a document

A summary puts the faults of files and the faults between scripts into one list of diagnostics, the
faults of files first, and counts the files and the scripts.  A suite is valid when the list is
empty.
-/

namespace ScriptSuite.Suite

/-- The result of checking a suite. -/
structure Summary where
  started : Instant
  finished : Instant
  files : Nat
  tests : Nat
  consulted : Bool
  errors : List Diagnostic

namespace Summary

/-- A suite about which there is nothing to report. -/
def valid (s : Summary) : Bool := s.errors.isEmpty

/-- **The summary** of what was gathered and found. -/
def of (g : Gathering) (f : Findings) (started finished : Instant) : Summary :=
  { started, finished
    files := g.files
    tests := g.scripts.length
    consulted := f.consulted
    errors := g.faults.map (·.diagnostic) ++ f.faults.map (·.diagnostic) }

/-- A summary as JSON. -/
def toJson (s : Summary) : Json :=
  .record
    [("status", .text (if s.valid then "valid" else "invalid")),
      ("started_at", .text s.started.text), ("finished_at", .text s.finished.text),
      ("files", .nat s.files), ("tests", .nat s.tests),
      ("external_lookup_attempted", .bool s.consulted),
      ("errors", .array (s.errors.map Diagnostic.toJson))]

end Summary

/-- The check of a gathering: ids of files that are no scripts count as known. -/
def Gathering.check (g : Gathering) (external : Option (List ExternalScript)) : Findings :=
  Suite.check g.scripts external g.unloadedIds

end ScriptSuite.Suite
