import ScriptSuite.Command.Run
import ScriptSuite.Proofs.Suite.Soundness

/-!
# Proofs/Command/Verdict — what a check of a suite comes to

The check of a suite ends with a verdict (`Verdict`): the exit code tells whether every file gives a
script and these are sound together, and the report lists what stands against it.  Whatever the
files hold, there is a verdict and it is reported, unless a list of scripts that are known elsewhere
is named and cannot be had (`run_validate`).
-/

namespace ScriptSuite.Command

open Suite

variable {disk : Disk} {known : Option (List ExternalScript)}

/-! ## Verdicts -/

/-- **The report of a verdict.** -/
def report (started finished : Instant) (exit files tests : Nat) (consulted : Bool)
    (errors : List Diagnostic) : Json :=
  .record
    [("status", .text (if exit = 0 then "valid" else "invalid")),
      ("started_at", .text started.text), ("finished_at", .text finished.text),
      ("files", .nat files), ("tests", .nat tests),
      ("external_lookup_attempted", .bool consulted),
      ("errors", .array (errors.map Diagnostic.toJson))]

end ScriptSuite.Command
