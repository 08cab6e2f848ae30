import ScriptSuite.Json.Layout
import ScriptSuite.Json.Record
import ScriptSuite.Script.Placeholder

/-!
# Script/Document — scripts as JSON

`Script.toJson` and `Script.ofJson?` are the two directions; fields that are unset are left out,
and those that a reader can do without may be missing.  The document of a script also lists the
files that its steps ask for, which a reader of the script passes over.
-/

namespace ScriptSuite

/-! ## Writing -/

/-- What a script says about its feature. -/
def Script.Feature.toJson : Script.Feature → Json
  | .assigned id => .record [("assigned", .int64 id)]
  | .cleared => .text "cleared"

/-- A step, with its kind as the member `type`. -/
def Step.toJson : Step → Json
  | .instruction i =>
    .record [("type", .text "instruction"), ("action", .text i.action),
      ("response", .text i.response), ("redirect", .bool i.redirect)]
  | .embed e =>
    .record [("type", .text "embed"), ("target_id", .text e.target), ("redirect", .bool e.redirect)]

namespace Script

/-- A member for a field, unless the field is unset. -/
def optional {α : Type} (name : String) (toJson : α → Json) : Option α → List (String × Json)
  | none => []
  | some a => [(name, toJson a)]

/-- The members of a script, in their order. -/
def members (s : Script) : List (String × Json) :=
  [("id", .text s.id), ("title", .text s.title), ("start_uri", .text s.startUri)] ++
  optional "site_id" .int64 s.siteId ++
  optional "feature_id" Feature.toJson s.feature ++
  [("state", .text s.state.name), ("execute", .bool s.execute)] ++
  optional "priority" (fun p => .text p.name) s.priority ++
  [("tags", .texts s.tags), ("browsers", .texts s.browsers), ("description", .text s.description),
    ("steps", .array (s.steps.map Step.toJson)), ("source_location", .text s.location)]

/-- A script. -/
def toJson (s : Script) : Json := .record s.members

/-- A file that a step asks for. -/
def uploadJson (u : Nat × Upload) : Json :=
  .record [("step_index", .nat u.1), ("kind", .text u.2.kind.name), ("path", .text u.2.path)]

/-- **The document of a script**: its members, then the files that its steps ask for. -/
def document (s : Script) : Json :=
  .record (s.members ++ [("uploadable_files", .array (s.uploads.map uploadJson))])

end Script

/-! ## Reading -/

/-- What a script says about its feature. -/
def Script.Feature.ofJson? (v : Json) : Option Script.Feature :=
  match v.case? with
  | some ("assigned", some n) => n.int64?.map .assigned
  | some ("cleared", none) | some ("cleared", some .null) => some .cleared
  | _ => none

/-- The kind of a step, and the record of its other fields.  A step that is an array holds its kind
as the first item. -/
def Step.kind? : Json → Option (String × Json)
  | .object members => do
    let kinds := members.filter fun m => unescapesTo m.1
    match kinds with
    | [(_, v)] => return (← v.text?, .object (members.filter fun m => !unescapesTo m.1))
    | _ => none
  | .array (v :: vs) => do return (← v.text?, .array vs)
  | _ => none
where
  /-- The key is `type`. -/
  unescapesTo (key : List Char) : Bool := Json.unescape key == some "type".toList

/-- A step. -/
def Step.ofJson? (v : Json) : Option Step := do
  let (kind, content) ← Step.kind? v
  match kind with
  | "instruction" =>
    let fs ← content.fields? ["action", "response", "redirect"]
    return .instruction
      ⟨← Json.field? fs "action" Json.text?, ← Json.field? fs "response" Json.text?,
        ← Json.field? fs "redirect" Json.bool?⟩
  | "embed" =>
    let fs ← content.fields? ["target_id", "redirect"]
    return .embed
      ⟨← Json.field? fs "target_id" Json.text?, ← Json.field? fs "redirect" Json.bool?⟩
  | _ => none

/-- The fields of a script, in their order. -/
def Script.fieldNames : List String :=
  ["id", "title", "start_uri", "site_id", "feature_id", "state", "execute", "priority", "tags",
    "browsers", "description", "steps", "source_location"]

/-- **The script that a value describes.**  The id, the start address, the state, the execute flag
and the steps have to be there; a number, the feature and the priority may also be null. -/
def Script.ofJson? (v : Json) : Option Script := do
  let fs ← v.fields? Script.fieldNames
  return {
    id := ← Json.field? fs "id" Json.text?
    title := ← Json.fieldOr fs "title" "" Json.text?
    startUri := ← Json.field? fs "start_uri" Json.text?
    siteId := ← Json.fieldOrNull fs "site_id" Json.int64?
    feature := ← Json.fieldOrNull fs "feature_id" Feature.ofJson?
    state := ← Json.field? fs "state" fun v => v.bareCase?.bind State.ofName?
    execute := ← Json.field? fs "execute" Json.bool?
    priority := ← Json.fieldOrNull fs "priority" fun v => v.bareCase?.bind Priority.ofName?
    tags := ← Json.fieldOr fs "tags" [] Json.texts?
    browsers := ← Json.fieldOr fs "browsers" [] Json.texts?
    description := ← Json.fieldOr fs "description" "" Json.text?
    steps := ← Json.field? fs "steps" fun v => v.items?.bind fun vs => vs.mapM Step.ofJson?
    location := ← Json.fieldOr fs "source_location" "" Json.text? }

end ScriptSuite
