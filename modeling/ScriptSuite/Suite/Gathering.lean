import ScriptSuite.Disk.Path
import ScriptSuite.Suite.Load

/-!
# Suite/Gathering — the files of a suite together

Files may be read at the same time and finish in any order.  What they give is put into the order of
their paths afterwards, so a gathering does not depend on who finished first.  Every distinct path
gives one script or one fault.
-/

namespace ScriptSuite.Suite

/-- The scripts of a suite, and the faults of the files that gave none. -/
structure Gathering where
  scripts : List Script := []
  faults : List LoadFault := []
  deriving DecidableEq

namespace Gathering

/-- How many files there were. -/
def files (g : Gathering) : Nat := g.scripts.length + g.faults.length

/-- The ids that files declare which are no scripts. -/
def unloadedIds (g : Gathering) : List String := g.faults.filterMap LoadFault.declared?

/-- What a file has given. -/
abbrev Arrival := String × Except LoadFault Script

/-- The script that a file has given. -/
def Arrival.script? : Arrival → Option Script
  | (_, .ok s) => some s
  | (_, .error _) => none

/-- The fault that a file has given. -/
def Arrival.fault? : Arrival → Option LoadFault
  | (_, .ok _) => none
  | (_, .error f) => some f

/-- What files have given, in the order of their paths. -/
def inOrder (arrivals : List Arrival) : List Arrival :=
  arrivals.mergeSort fun a b => decide (List.le (Path.key a.1) (Path.key b.1))

/-- **The gathering** of what files have given. -/
def ofArrivals (arrivals : List Arrival) : Gathering :=
  let arrivals := inOrder arrivals
  ⟨arrivals.filterMap Arrival.script?, arrivals.filterMap Arrival.fault?⟩

/-- **The gathering of the files at some paths.** -/
def load (disk : Disk) (o : Script.Options) (q : Quota) (paths : List String) : Gathering :=
  ofArrivals ((Path.distinct paths).map fun path => (path, Script.load disk o q path))

end Gathering

end ScriptSuite.Suite
