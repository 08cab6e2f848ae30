import ScriptSuite.Script.Basic
import ScriptSuite.Text.Boolean
import ScriptSuite.Text.Lines

/-!
# Script/Canonical — the canonical text of a script

The canonical text is a list of lines in a fixed order: the identity, the header lines, the
description, and the steps.  What has its usual value is left out, except the start address.  A
blank line goes before every step, and a `# redirect:` line before a step whose flag is not the
default.
-/

namespace ScriptSuite.Script

/-- A line with a value, or the bare label when the value is empty, so that no line ends in a
blank. -/
def labelled (label value : String) : String :=
  if value.isEmpty then label else label ++ " " ++ value

/-- A step's text on one line: line feeds and carriage returns become spaces. -/
def onOneLine (s : String) : String :=
  String.ofList (s.toList.map fun c => if c = '\n' ∨ c = '\r' then ' ' else c)

/-- A line for a list, unless it is empty. -/
def listLine (label : String) (items : List String) : List String :=
  if items.isEmpty then [] else [label ++ " " ++ String.intercalate ", " items]

/-- A number as it is written. -/
def numberText (n : Int64) : String := toString n.toInt

/-- The line of the feature. -/
def featureLine : Option Feature → List String
  | some (.assigned id) => ["# feature_id: " ++ numberText id]
  | some .cleared => ["# feature_id:"]
  | none => []

/-- The header lines, in their order. -/
def headerLines (s : Script) : List String :=
  (if s.title.isEmpty then [] else ["# title: " ++ s.title]) ++
  [labelled "# start_uri:" s.startUri] ++
  (s.siteId.map fun id => "# site_id: " ++ numberText id).toList ++
  featureLine s.feature ++
  listLine "# tags:" s.tags ++
  listLine "# browsers:" s.browsers ++
  (if s.state = .enabled then [] else ["# state: " ++ s.state.name]) ++
  (s.priority.map fun p => "# priority: " ++ p.name).toList ++
  (if s.execute then [] else ["# execute: false"])

/-- The lines of the description. -/
def descriptionLines (s : Script) : List String :=
  (linesOf s.description).map fun l => labelled "#" l

/-- The line for a redirect flag, unless it is the default. -/
def redirectLine (o : Options) (flag : Bool) : List String :=
  if flag = o.redirectDefault then [] else ["# redirect: " ++ textOfBool flag]

/-- The lines of a step, without the blank line before it. -/
def stepLines (o : Options) (step : Step) : List String :=
  redirectLine o step.redirect ++
    match step with
    | .instruction i => [onOneLine i.action, onOneLine i.response]
    | .embed e => [labelled "-" e.target]

/-- **The lines of the canonical text.** -/
def canonicalLines (o : Options) (s : Script) : List String :=
  ["#! " ++ s.id] ++ s.headerLines ++ s.descriptionLines ++
    s.steps.flatMap fun step => "" :: stepLines o step

/-- **The canonical text** of a script: its lines, each with its line feed. -/
def canonical (o : Options) (s : Script) : String :=
  String.join ((canonicalLines o s).map (· ++ "\n"))

end ScriptSuite.Script
