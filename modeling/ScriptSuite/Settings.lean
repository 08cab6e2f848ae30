import ScriptSuite.Script.Basic
import ScriptSuite.Suite.Quota
import ScriptSuite.Text.Blank
import ScriptSuite.Text.Boolean
import ScriptSuite.Text.Numeral

/-!
# Settings — what the environment sets

A variable that is not set, or whose value cannot be read, leaves the setting at its usual value.
Values are trimmed, except the two of reading scripts.
-/

namespace ScriptSuite.Settings

/-- The values of variables. -/
def Environment := String → Option String

/-- The variables that settings are read from. -/
def variableNames : List String :=
  ["RFML_REDIRECT_DEFAULT", "RFML_REQUIRE_TITLE", "RFML_MAX_FILE_BYTES", "RFML_MAX_STEPS",
    "RFML_MAX_PARALLEL", "RFML_LOG_LEVEL", "RFML_LOG_CONSOLE"]

/-- How much is logged. -/
inductive Level where
  | error | warn | info | debug | trace
  deriving DecidableEq, Repr

namespace Level

/-- Every level, from the one that logs least. -/
def all : List Level := [error, warn, info, debug, trace]

/-- The name of a level. -/
def name : Level → String
  | error => "ERROR"
  | warn => "WARN"
  | info => "INFO"
  | debug => "DEBUG"
  | trace => "TRACE"

/-- The place of a level among all, from one. -/
def rank : Level → Nat
  | error => 1
  | warn => 2
  | info => 3
  | debug => 4
  | trace => 5

/-- The level with a name, in any case, or with a rank. -/
def ofText? (s : String) : Option Level :=
  match nat64? s with
  | some n => all.find? (·.rank = n)
  | none =>
    let upper := String.ofList (s.toList.map Char.toUpper)
    all.find? (·.name = upper)

end Level

/-- How logging is set up. -/
structure Logging where
  service : String := "rfml"
  console : Bool := true
  level : Level := .warn
  deriving DecidableEq, Repr

/-- The logging that the environment sets. -/
def Logging.ofEnvironment (env : Environment) : Logging :=
  { console := ((env "RFML_LOG_CONSOLE").bind fun v => boolOfText? (trim v)).getD true
    level := ((env "RFML_LOG_LEVEL").bind fun v => Level.ofText? (trim v)).getD .warn }

/-- Logging that tells at least what is good for finding errors. -/
def Logging.verbose (l : Logging) : Logging :=
  if l.level.rank < Level.debug.rank then { l with level := .debug } else l

/-- The options of reading scripts that the environment sets. -/
def scriptOptions (env : Environment) : Script.Options :=
  { redirectDefault := ((env "RFML_REDIRECT_DEFAULT").bind boolOfText?).getD true
    requireTitle := ((env "RFML_REQUIRE_TITLE").bind boolOfText?).getD false }

/-- A number that a variable sets. -/
def number (env : Environment) (name : String) (default : Nat) : Nat :=
  ((env name).bind fun v => nat64? (trim v)).getD default

/-- The quota that the environment sets; at least one file may be read at a time. -/
def quota (env : Environment) : Quota :=
  let usual : Quota := {}
  { maxBytes := number env "RFML_MAX_FILE_BYTES" usual.maxBytes
    maxSteps := number env "RFML_MAX_STEPS" usual.maxSteps
    maxReads := max 1 (number env "RFML_MAX_PARALLEL" usual.maxReads) }

end ScriptSuite.Settings
