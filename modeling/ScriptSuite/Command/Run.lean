import ScriptSuite.Command.Request
import ScriptSuite.Script.Canonical
import ScriptSuite.Script.Document
import ScriptSuite.Settings
import ScriptSuite.Suite.Summary

/-!
# Command/Run — what a command does

A command looks at the disk and the environment and comes to a `Plan`: an `Outcome`, or a file to
write with the outcome that depends on whether the writing succeeds.  Nothing else happens, so a
command is a function.

The exit code is zero when all is well, one when a script or a suite is not, and two when the
command could not do its work.
-/

namespace ScriptSuite.Command

/-- What a command leaves behind. -/
structure Outcome where
  exit : Nat
  stdout : String := ""
  stderr : String := ""
  deriving DecidableEq, Repr

/-- All is well. -/
def exitSound : Nat := 0

/-- A script or a suite is not as it should be. -/
def exitUnsound : Nat := 1

/-- The command could not do its work. -/
def exitFailed : Nat := 2

/-- What a command does at its end. -/
inductive Plan where
  | finish (o : Outcome)
  /-- Writes a file, and then leaves the outcome if that succeeds. -/
  | save (path content : String) (saved : Outcome)
  deriving DecidableEq, Repr

/-- Lines, each with its line feed. -/
def linesText (ls : List String) : String := String.join (ls.map (· ++ "\n"))

/-- The outcome of a command that could not do its work. -/
def Outcome.failed (stderr message : String) : Outcome :=
  { exit := exitFailed, stderr := stderr ++ "error: " ++ message ++ "\n" }

/-- The outcome of a plan, given the fault of the writing if it fails. -/
def Plan.settle : Plan → Option DiskFault → Outcome
  | .finish o, _ => o
  | .save _ _ saved, none => saved
  | .save path _ saved, some fault =>
    .failed saved.stderr
      ("Failed to write report " ++ Quoted.quote path ++ ": " ++ fault.message)

/-- The options of reading scripts: the environment's, unless the command line sets them. -/
def scriptOptions (env : Settings.Environment) (redirect : Option Bool) (requireTitle : Bool) :
    Script.Options :=
  let o := Settings.scriptOptions env
  { redirectDefault := redirect.getD o.redirectDefault
    requireTitle := o.requireTitle || requireTitle }

/-- A fault of the list of scripts that are known elsewhere, as a diagnostic. -/
def externalDiagnostic (path : String) (fault : ExternalScript.Fault) : Diagnostic :=
  Diagnostic.within ⟨.invalidExternalList, fault.message, none, none⟩ path

/-- The list of scripts that are known elsewhere, if a file of them is named. -/
def readExternal (disk : Disk) : Option String → Except Diagnostic (Option (List ExternalScript))
  | none => .ok none
  | some path =>
    match ExternalScript.ofFile disk path with
    | .ok list => .ok (some list)
    | .error fault => .error (externalDiagnostic path fault)

/-- Checks a suite. -/
def validate (env : Settings.Environment) (disk : Disk) (started finished : Instant)
    (files : List String) (external : Option String) (o : Script.Options)
    (output : Option String) : Plan :=
  match readExternal disk external with
  | .error d => .finish (.failed "" d.userMessage)
  | .ok external =>
    let g := Suite.Gathering.load disk o (Settings.quota env) files
    let summary := Suite.Summary.of g (g.check external) started finished
    let exit := if summary.valid then exitSound else exitUnsound
    let stderr := linesText (summary.errors.map (·.userMessage))
    let document := summary.toJson.pretty
    match output with
    | some path => .save path document { exit, stderr }
    | none => .finish { exit, stderr, stdout := document ++ "\n" }

/-- The outcome for a file that gives no script. -/
def Outcome.ofFault (f : LoadFault) : Outcome :=
  { exit := exitUnsound, stderr := f.diagnostic.userMessage ++ "\n" }

/-- Shows the document of a script. -/
def parse (env : Settings.Environment) (disk : Disk) (file : String) (o : Script.Options) :
    Outcome :=
  match Script.load disk o (Settings.quota env) file with
  | .error f => .ofFault f
  | .ok s => { exit := exitSound, stdout := s.document.pretty ++ "\n" }

/-- The text of a file, or why there is none. -/
def readText (disk : Disk) (file : String) : Except String String :=
  match disk.read file with
  | .error fault => .error fault.message
  | .ok octets =>
    match Utf8.text? octets with
    | none => .error ExternalScript.notText
    | some text => .ok text

/-- Shows the canonical text of a script, or tells whether the file holds it. -/
def format (env : Settings.Environment) (disk : Disk) (file : String) (o : Script.Options)
    (check : Bool) : Outcome :=
  match Script.load disk o (Settings.quota env) file with
  | .error f => .ofFault f
  | .ok s =>
    let canonical := s.canonical o
    if check then
      match readText disk file with
      | .error cause => .failed "" ("Failed to read " ++ Quoted.quote file ++ ": " ++ cause)
      | .ok text =>
        if text = canonical then { exit := exitSound }
        else { exit := exitUnsound, stderr := file ++ " is not canonically formatted\n" }
    else { exit := exitSound, stdout := canonical }

/-- **What a request comes to.** -/
def run (env : Settings.Environment) (disk : Disk) (started finished : Instant) :
    Request → Plan
  | .validate files external redirect requireTitle output =>
    validate env disk started finished files external (scriptOptions env redirect requireTitle)
      output
  | .parse file redirect => .finish (parse env disk file (scriptOptions env redirect false))
  | .format file redirect check =>
    .finish (format env disk file (scriptOptions env redirect false) check)

end ScriptSuite.Command
