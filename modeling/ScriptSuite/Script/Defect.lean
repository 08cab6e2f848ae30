import ScriptSuite.Diagnostic
import ScriptSuite.Script.Basic

/-!
# Script/Defect — why a text is no script

A text that defines no script has a first defect: a reason, and the number of its line.  Line zero
stands for the whole file.  The wording of a reason is given once, by `Reason.message`.
-/

namespace ScriptSuite

/-- The header keys that mean something. -/
inductive Header.Key where
  | title | startUri | siteId | featureId | tags | browsers | redirect | execute | state | priority
  deriving DecidableEq, Repr

namespace Header.Key

/-- A key as it is written. -/
def name : Key → String
  | title => "title"
  | startUri => "start_uri"
  | siteId => "site_id"
  | featureId => "feature_id"
  | tags => "tags"
  | browsers => "browsers"
  | redirect => "redirect"
  | execute => "execute"
  | state => "state"
  | priority => "priority"

/-- Every key. -/
def all : List Key :=
  [title, startUri, siteId, featureId, tags, browsers, redirect, execute, state, priority]

/-- The key that is written so; every other header line is part of the description. -/
def ofName? (s : String) : Option Key := all.find? (·.name = s)

@[simp] theorem ofName?_name (k : Key) : ofName? k.name = some k := by
  cases k <;> decide

end Header.Key

/-- A reason why a text is no script. -/
inductive Defect.Reason where
  | identityMissing
  | identityRepeated
  | identityEmpty
  | questionMissing
  | stepsNotSeparated
  | stepUnfinished
  | notAnInteger (key : Header.Key)
  | notABoolean (key : Header.Key)
  | unknownState (value : String)
  | unknownPriority (value : String)
  | titleMissing
  | notUtf8
  deriving DecidableEq, Repr

namespace Defect.Reason

/-- The wording of a reason. -/
def message : Reason → String
  | identityMissing => "identity is required, start a line with #! followed by a unique id"
  | identityRepeated => "only one identity may be specified"
  | identityEmpty => "identity must not be empty"
  | questionMissing => "each step must contain a question, with a `?`"
  | stepsNotSeparated => "steps must be separated by blank lines"
  | stepUnfinished => "each action must have a corresponding question"
  | notAnInteger key => key.name ++ " must be a valid integer"
  | notABoolean key => key.name ++ " must be a valid boolean"
  | unknownState value => "state '" ++ value ++ "' is not one of enabled, disabled, draft"
  | unknownPriority value => "priority '" ++ value ++ "' is not one of P1, P2, P3"
  | titleMissing => "title is required, specify it using \"# title:\" followed by the test's title"
  | notUtf8 => "file is not valid UTF-8"

/-- The code under which a reason is reported. -/
def code : Reason → Diagnostic.Code
  | identityMissing => .missingIdentity
  | identityRepeated | identityEmpty => .invalidIdentity
  | questionMissing => .missingQuestion
  | stepsNotSeparated => .unseparatedSteps
  | stepUnfinished => .incompleteStep
  | notAnInteger _ | notABoolean _ | unknownState _ | unknownPriority _ => .invalidHeaderValue
  | titleMissing => .missingTitle
  | notUtf8 => .invalidEncoding

end Defect.Reason

/-- A defect of a text. -/
structure Defect where
  line : Nat
  reason : Defect.Reason
  deriving DecidableEq, Repr

namespace Defect

/-- A defect as it is shown on its own. -/
def message (d : Defect) : String := "line " ++ toString d.line ++ ": " ++ d.reason.message

/-- A defect of the text at a location. -/
def diagnostic (d : Defect) (location : String) : Diagnostic :=
  (Diagnostic.within ⟨d.reason.code, d.reason.message, none, none⟩ location).onLine d.line

end Defect

end ScriptSuite
