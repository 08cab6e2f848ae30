/-!
# Suite/Quota — how large a script may be

A quota bounds the octets of a file and the steps of a script, and says how many files may be read
at a time.  The octets are checked before a file is read and the steps after.
-/

namespace ScriptSuite

/-- The bounds on the scripts of a suite. -/
structure Quota where
  maxBytes : Nat := 1048576
  maxSteps : Nat := 500
  /-- How many files may be read at a time. -/
  maxReads : Nat := 16
  deriving DecidableEq, Repr

namespace Quota

/-- Narrow bounds. -/
def strict : Quota := ⟨65536, 50, 2⟩

/-- Wide bounds, for large suites. -/
def relaxed : Quota := ⟨16777216, 5000, 64⟩

/-- A bound that is exceeded. -/
inductive Breach where
  | bytes (actual limit : Nat)
  | steps (actual limit : Nat)
  deriving DecidableEq, Repr

namespace Breach

/-- The name of the bound. -/
def name : Breach → String
  | bytes _ _ => "max_file_bytes"
  | steps _ _ => "max_steps_per_test"

/-- The value that was found. -/
def actual : Breach → Nat
  | bytes actual _ | steps actual _ => actual

/-- The largest value that is allowed. -/
def limit : Breach → Nat
  | bytes _ limit | steps _ limit => limit

/-- The wording of a breach. -/
def message : Breach → String
  | bytes actual limit =>
    "file has " ++ toString actual ++ " bytes, maximum allowed is " ++ toString limit
  | steps actual limit =>
    "test has " ++ toString actual ++ " steps, maximum allowed is " ++ toString limit

end Breach

/-- **The bounds that are exceeded** by a file of so many octets and, once they are known, so many
steps. -/
def breaches (q : Quota) (bytes : Nat) (steps : Option Nat) : List Breach :=
  (if q.maxBytes < bytes then [.bytes bytes q.maxBytes] else []) ++
  (steps.toList.filter (q.maxSteps < ·)).map fun n => .steps n q.maxSteps

end Quota

end ScriptSuite
