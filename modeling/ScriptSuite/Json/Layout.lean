import ScriptSuite.Json.Basic

/-!
# Json/Layout — a document with one item or member a line

Every item and every member stands on a line of its own, two blanks further in than the brackets
around it; an empty container is a pair of brackets.
-/

namespace ScriptSuite.Json

/-- The beginning of a line at some depth. -/
def newLine (depth : Nat) : String := "\n" ++ String.ofList (List.replicate (2 * depth) ' ')

/-- A body between its quotes. -/
def quoted (body : List Char) : String := "\"" ++ String.ofList body ++ "\""

mutual

/-- Writes a value behind `out`. -/
def writeTo (out : String) (depth : Nat) : Json → String
  | .null => out ++ "null"
  | .bool true => out ++ "true"
  | .bool false => out ++ "false"
  | .number literal => out ++ String.ofList literal
  | .string body => out ++ quoted body
  | .array [] => out ++ "[]"
  | .array (v :: vs) =>
    writeItems (writeTo (out ++ "[" ++ newLine (depth + 1)) (depth + 1) v) depth vs
  | .object [] => out ++ "\x7b\x7d"
  | .object (m :: ms) =>
    writeMembers (writeMember (out ++ "\x7b" ++ newLine (depth + 1)) depth m) depth ms

/-- Writes the items after the first, and the end of their array. -/
def writeItems (out : String) (depth : Nat) : List Json → String
  | [] => out ++ newLine depth ++ "]"
  | v :: vs => writeItems (writeTo (out ++ "," ++ newLine (depth + 1)) (depth + 1) v) depth vs

/-- Writes a key and its value. -/
def writeMember (out : String) (depth : Nat) : List Char × Json → String
  | (key, v) => writeTo (out ++ quoted key ++ ": ") (depth + 1) v

/-- Writes the members after the first, and the end of their object. -/
def writeMembers (out : String) (depth : Nat) : List (List Char × Json) → String
  | [] => out ++ newLine depth ++ "\x7d"
  | m :: ms => writeMembers (writeMember (out ++ "," ++ newLine (depth + 1)) depth m) depth ms

end

/-- **The document of a value.** -/
def pretty (v : Json) : String := writeTo "" 0 v

end ScriptSuite.Json
