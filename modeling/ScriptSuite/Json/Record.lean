import ScriptSuite.Json.Basic

/-!
# Json/Record — a value with named fields

A record may be written as an object, with its fields in any order and with members that nobody
asks for, or as an array that holds the fields in their order.  A field may be missing; it may not
occur twice.

A choice between named cases is written as the name alone or, with the value that belongs to the
case, as an object with that one member.
-/

namespace ScriptSuite.Json

/-- The fields of a record, among those that have one of the names. -/
def fields? (names : List String) : Json → Option (List (String × Json))
  | .object members => do
    let named ← members.mapM fun m => (unescape m.1).map fun key => (String.ofList key, m.2)
    let known := named.filter fun m => names.contains m.1
    if (known.map Prod.fst).Nodup then some known else none
  | .array items => if items.length ≤ names.length then some (names.zip items) else none
  | _ => none

/-- A field that has to be there. -/
def field? {α : Type} (fields : List (String × Json)) (name : String) (value? : Json → Option α) :
    Option α :=
  (fields.lookup name).bind value?

/-- A field that stands for `default` when it is missing. -/
def fieldOr {α : Type} (fields : List (String × Json)) (name : String) (default : α)
    (value? : Json → Option α) : Option α :=
  match fields.lookup name with
  | none => some default
  | some v => value? v

/-- A field that is unset when it is missing or null. -/
def fieldOrNull {α : Type} (fields : List (String × Json)) (name : String)
    (value? : Json → Option α) : Option (Option α) :=
  match fields.lookup name with
  | none | some .null => some none
  | some v => (value? v).map some

/-- The name of a case, with the value that belongs to it. -/
def case? : Json → Option (String × Option Json)
  | .object [(key, v)] => (unescape key).map fun name => (String.ofList name, some v)
  | v => v.text?.map fun name => (name, none)

/-- The name of a case that has no value. -/
def bareCase? (v : Json) : Option String :=
  match v.case? with
  | some (name, none) | some (name, some .null) => some name
  | _ => none

end ScriptSuite.Json
