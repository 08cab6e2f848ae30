import ScriptSuite.Disk.Basic
import ScriptSuite.Script.Source
import ScriptSuite.Suite.Quota

/-!
# Suite/Load — one file of a suite

A file is loaded in four steps, and the first that fails settles the fault: its size is asked and
compared with the quota, its octets are read, the script in them is read, and size and steps are
compared with the quota again.  A file that is no script keeps the id that it declares.
-/

namespace ScriptSuite

/-- Why there is no script from a file. -/
inductive LoadFault where
  | missing (path : String)
  | unreadable (path cause : String)
  | overQuota (path : String) (breaches : List Quota.Breach)
  | malformed (path : String) (defect : Defect) (declared : Option String)
  /-- The reading itself broke off; it is not known for which file. -/
  | interrupted (cause : String)
  deriving DecidableEq, Repr

namespace LoadFault

/-- The fault of a path at which no file can be read. -/
def ofDisk (path : String) (fault : DiskFault) : LoadFault :=
  if fault = .missing then .missing path else .unreadable path fault.message

/-- The path that a fault is about. -/
def path? : LoadFault → Option String
  | missing path | unreadable path _ | overQuota path _ | malformed path _ _ => some path
  | interrupted _ => none

/-- The id that the file declares although it is no script. -/
def declared? : LoadFault → Option String
  | malformed _ _ declared => declared
  | _ => none

/-- The wordings of several breaches. -/
def breachesText (breaches : List Quota.Breach) : String :=
  String.intercalate "; " (breaches.map (·.message))

/-- The wording of a fault, without its path. -/
def cause : LoadFault → String
  | missing _ => "file not found"
  | unreadable _ cause => "failed to read file: " ++ cause
  | overQuota _ breaches => breachesText breaches
  | malformed _ defect _ => defect.message
  | interrupted cause => "loader task failed: " ++ cause

/-- The wording of a fault. -/
def message (f : LoadFault) : String :=
  match f.path? with
  | some path => path ++ ": " ++ f.cause
  | none => f.cause

/-- The code under which a fault is reported. -/
def code : LoadFault → Diagnostic.Code
  | missing _ => .fileMissing
  | unreadable _ _ => .fileUnreadable
  | overQuota _ _ => .limitExceeded
  | malformed _ defect _ => defect.reason.code
  | interrupted _ => .internalError

/-- A fault as a diagnostic; that of a malformed file names the line. -/
def diagnostic (f : LoadFault) : Diagnostic :=
  match f with
  | malformed path defect _ => defect.diagnostic path
  | _ => Diagnostic.within ⟨f.code, f.cause, none, none⟩ (f.path?.getD "")

end LoadFault

/-- The script in octets that were read. -/
def Script.ofOctetsWithin (o : Script.Options) (q : Quota) (path : String)
    (octets : List UInt8) : Except LoadFault Script :=
  match Script.ofFile o path octets with
  | .error defect => .error (.malformed path defect (declaredId? octets))
  | .ok s =>
    match q.breaches octets.length (some s.steps.length) with
    | [] => .ok s
    | breaches => .error (.overQuota path breaches)

/-- **The script in the file at a path**, or the fault of the file. -/
def Script.load (disk : Disk) (o : Script.Options) (q : Quota) (path : String) :
    Except LoadFault Script :=
  match disk.size path with
  | .error fault => .error (.ofDisk path fault)
  | .ok size =>
    match q.breaches size none with
    | [] =>
      match disk.read path with
      | .error fault => .error (.ofDisk path fault)
      | .ok octets => Script.ofOctetsWithin o q path octets
    | breaches => .error (.overQuota path breaches)

end ScriptSuite
