import Std.Time.DateTime.Timestamp
import ScriptSuite.Command.Run

/-!
# Main — the command line

Everything that touches the system is here: the arguments, the environment, the clock, the files
that a request names, and the streams.  The files are read before the request is run, since running
it is a function of what they hold.
-/

open ScriptSuite

namespace ScriptSuite.Main

/-- The fault with a number of the system, which comes with either sign. -/
def numberedFault? (code : UInt32) : Option DiskFault :=
  [(2, DiskFault.missing), (20, .notADirectory), (21, .isADirectory), (36, .nameTooLong)].findSome?
    fun f => if code = f.1 ∨ code = 0 - f.1 then some f.2 else none

/-- The fault that a failed reading or writing is. -/
def diskFault : IO.Error → DiskFault
  | .noFileOrDirectory .. => .missing
  | .inappropriateType _ code details | .invalidArgument _ code details
  | .permissionDenied _ code details =>
    (numberedFault? code).getD (.other details)
  | e => .other e.toString

/-- What stands at a path. -/
def entry (path : String) : IO Disk.Entry := do
  try
    return .file (← IO.FS.readBinFile path).toList
  catch e =>
    return match diskFault e with
      | .isADirectory => .directory 0
      | fault => .unreachable fault

/-- The disk as far as these paths lead. -/
def readDisk (paths : List String) : IO Disk := do
  let entries ← paths.mapM fun path => return (path, ← entry path)
  return fun path => (entries.lookup path).getD (.unreachable .missing)

/-- The values of the variables that settings are read from. -/
def readEnvironment : IO Settings.Environment := do
  let values ← Settings.variableNames.mapM fun name => return (name, ← IO.getEnv name)
  return fun name => (values.lookup name).join

/-- The time. -/
def now : IO Instant :=
  return .ofNanoseconds (← Std.Time.Timestamp.now).toNanosecondsSinceUnixEpoch.val

/-- Carries out what a plan leaves to do, and gives the fault if it fails. -/
def carryOut : Command.Plan → IO (Option DiskFault)
  | .finish _ => return none
  | .save path content _ => do
    try
      IO.FS.writeFile path content
      return none
    catch e => return some (diskFault e)

/-- Runs a request. -/
def runRequest (request : Command.Request) : IO UInt32 := do
  let started ← now
  let env ← readEnvironment
  let disk ← readDisk request.paths
  let plan := Command.run env disk started (← now) request
  let outcome := plan.settle (← carryOut plan)
  IO.eprint outcome.stderr
  IO.print outcome.stdout
  return outcome.exit.toUInt32

/-- How the command line is used. -/
def usage : String :=
  "usage: rfml [-v] validate FILES... [-e FILE] [--redirect-default BOOL] [--require-title] " ++
    "[-o FILE]\n       rfml [-v] parse FILE [--redirect-default BOOL]\n" ++
    "       rfml [-v] fmt FILE [--redirect-default BOOL] [--check]\n"

end ScriptSuite.Main

/-- Runs the request of the command line. -/
def main (args : List String) : IO UInt32 := do
  match Command.Request.ofArguments? args with
  | some request => ScriptSuite.Main.runRequest request
  | none =>
    IO.eprint ScriptSuite.Main.usage
    return Command.exitFailed.toUInt32
