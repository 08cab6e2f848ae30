import ScriptSuite.Script.Defect
import ScriptSuite.Text.Blank
import ScriptSuite.Text.Boolean
import ScriptSuite.Text.Lines

/-!
# Script/Header — reading the header lines that mean something

A header line whose key is one of ten names sets something.  `Entry.read` reads the value,
`Script.set` puts it into the script.  The key `redirect` sets nothing in the script itself: it is
about the step that follows.
-/

namespace ScriptSuite.Header

/-- The items of a list: separated by commas, trimmed, the empty ones left out. -/
def listItems (value : String) : List String :=
  ((pieces ',' value.toList).map fun cs => String.ofList (trimChars cs)).filter (!·.isEmpty)

/-- What a header line sets. -/
inductive Entry where
  | title (text : String)
  | startUri (text : String)
  | siteId (id : Int64)
  | feature (f : Script.Feature)
  | tags (items : List String)
  | browsers (items : List String)
  | redirect (flag : Bool)
  | execute (flag : Bool)
  | state (s : Script.State)
  | priority (p : Option Script.Priority)
  deriving DecidableEq

/-- A whole number as the value of a key. -/
def wholeNumber (key : Key) (value : String) : Except Defect.Reason Int64 :=
  match int64? value with
  | some n => .ok n
  | none => .error (.notAnInteger key)

/-- A boolean as the value of a key. -/
def boolean (key : Key) (value : String) : Except Defect.Reason Bool :=
  match boolOfText? value with
  | some b => .ok b
  | none => .error (.notABoolean key)

/-- **The value of a header line.**  An empty value clears the feature and the priority; the other
keys take it as it is, which for numbers, booleans and states is a defect. -/
def Entry.read (key : Key) (value : String) : Except Defect.Reason Entry :=
  match key with
  | .title => .ok (.title value)
  | .startUri => .ok (.startUri value)
  | .siteId => (wholeNumber .siteId value).map .siteId
  | .featureId =>
    if value.isEmpty then .ok (.feature .cleared)
    else (wholeNumber .featureId value).map fun n => .feature (.assigned n)
  | .tags => .ok (.tags (listItems value))
  | .browsers => .ok (.browsers (listItems value))
  | .redirect => (boolean .redirect value).map .redirect
  | .execute => (boolean .execute value).map .execute
  | .state =>
    match Script.State.ofName? value with
    | some s => .ok (.state s)
    | none => .error (.unknownState value)
  | .priority =>
    if value.isEmpty then .ok (.priority none)
    else match Script.Priority.ofAnyCase? value with
      | some p => .ok (.priority (some p))
      | none => .error (.unknownPriority value)

end ScriptSuite.Header

namespace ScriptSuite

/-- Puts an entry into a script. -/
def Script.set (s : Script) : Header.Entry → Script
  | .title text => { s with title := text }
  | .startUri text => { s with startUri := text }
  | .siteId id => { s with siteId := some id }
  | .feature f => { s with feature := some f }
  | .tags items => { s with tags := items }
  | .browsers items => { s with browsers := items }
  | .redirect _ => s
  | .execute flag => { s with execute := flag }
  | .state state => { s with state := state }
  | .priority p => { s with priority := p }

end ScriptSuite
