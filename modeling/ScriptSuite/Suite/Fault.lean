import ScriptSuite.Diagnostic

/-!
# Suite/Fault — what can be wrong between scripts

Each script may be sound and their suite not: an id may be used twice, an embed may name no script,
and scripts may embed each other in a circle.
-/

namespace ScriptSuite

/-- A fault of a suite. -/
inductive SuiteFault where
  /-- A script whose id an earlier one has, which stands at the location `canonical`. -/
  | duplicateId (id location canonical : String)
  /-- An embed, in the step with an index, of an id that no script has.  The flag tells whether
  scripts that are known elsewhere were taken into account. -/
  | unresolvedEmbed (source location : String) (step : Nat) (target : String) (consulted : Bool)
  /-- Ids that embed each other in a circle, in order. -/
  | circularEmbeds (members : List String)
  deriving DecidableEq, Repr

namespace SuiteFault

/-- What is added to the wording of an unresolved embed when only the suite itself was asked. -/
def localOnlyHint : String :=
  ". Only local tests were checked; supply the external identifier list to check against " ++
    "remote tests"

/-- The wording of a fault.  Steps are counted from one in it. -/
def message : SuiteFault → String
  | duplicateId id location canonical =>
    "duplicate id '" ++ id ++ "' in " ++ location ++ ", also found in: " ++ canonical
  | unresolvedEmbed source _ step target consulted =>
    "test '" ++ source ++ "' step " ++ toString (step + 1) ++ " - embedded test id '" ++ target ++
      "' not found" ++ (if consulted then "" else localOnlyHint)
  | circularEmbeds members => "circular embedding between: " ++ String.intercalate ", " members

/-- The code under which a fault is reported. -/
def code : SuiteFault → Diagnostic.Code
  | duplicateId .. => .duplicateId
  | unresolvedEmbed .. => .unresolvedEmbed
  | circularEmbeds _ => .circularEmbed

/-- The one file to mend, when there is one. -/
def location? : SuiteFault → Option String
  | duplicateId _ location _ => some location
  | unresolvedEmbed _ location _ _ _ => some location
  | circularEmbeds _ => none

/-- A fault as a diagnostic. -/
def diagnostic (f : SuiteFault) : Diagnostic :=
  Diagnostic.within ⟨f.code, f.message, none, none⟩ (f.location?.getD "")

end SuiteFault

end ScriptSuite
