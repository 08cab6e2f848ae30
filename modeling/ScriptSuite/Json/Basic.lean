import ScriptSuite.Json.Escape
import ScriptSuite.Text.Numeral

/-!
# Json/Basic — JSON values, with their literals as written

A value keeps the literal of each number and the body of each string (`Json.Escape`).  What a
literal means is asked only by whoever uses it: a number that is too large and a string that
denotes no text do no harm in a part of a document that nobody reads.
-/

namespace ScriptSuite

/-- A JSON value.  Members keep their order, and a key may occur more than once. -/
inductive Json where
  | null
  | bool (value : Bool)
  | number (literal : List Char)
  | string (body : List Char)
  | array (items : List Json)
  | object (members : List (List Char × Json))
  deriving Inhabited

namespace Json

/-! ## Building values -/

/-- The string literal of a text. -/
def text (s : String) : Json := .string (escape s.toList)

/-- The decimal literal of a whole number. -/
def int (n : Int) : Json := .number (toString n).toList

/-- The decimal literal of a natural number. -/
def nat (n : Nat) : Json := .int n

/-- The decimal literal of a number of sixty-four bits. -/
def int64 (n : Int64) : Json := .int n.toInt

/-- An array of texts. -/
def texts (ss : List String) : Json := .array (ss.map text)

/-- An object with these members. -/
def record (members : List (String × Json)) : Json :=
  .object (members.map fun m => (escape m.1.toList, m.2))

/-! ## Reading values -/

/-- The text that a string literal denotes. -/
def text? : Json → Option String
  | .string body => (unescape body).map String.ofList
  | _ => none

/-- A boolean. -/
def bool? : Json → Option Bool
  | .bool b => some b
  | _ => none

/-- **A whole number**: a literal without fraction and exponent.  Minus zero is not one. -/
def int? : Json → Option Int
  | .number ('-' :: ds) => (digits? ds).bind fun n => if n = 0 then none else some (-n)
  | .number ds => (digits? ds).map fun n => n
  | _ => none

/-- A whole number within signed sixty-four bits. -/
def int64? : Json → Option Int64
  | .number ('-' :: ds) => (wordOfDigits? true ds).filter (· ≠ 0)
  | .number ds => wordOfDigits? false ds
  | _ => none

/-- It is a whole number that fits. -/
theorem int64?_eq (v : Json) : v.int64? = v.int?.bind wordOfInt? := by
  unfold int64? int?
  split
  · rename_i ds
    rw [wordOfDigits?_eq]
    cases digits? ds with
    | none => rfl
    | some n =>
      rw [Option.bind_some, Option.bind_some, if_pos rfl]
      by_cases h : n = 0
      · have h0 : wordOfInt? (-((0 : Nat) : Int)) = some 0 := by decide
        rw [if_pos h, h, h0]
        decide
      · rw [if_neg h, Option.bind_some]
        exact wordOfInt?_filter_ne_zero (by omega)
  · rename_i ds hds
    rw [wordOfDigits?_eq]
    cases digits? ds with
    | none => rfl
    | some n => rfl
  · rfl

/-- A whole number that is not negative. -/
def nat? (v : Json) : Option Nat :=
  v.int?.bind fun n => if 0 ≤ n then some n.toNat else none

/-- The items of an array. -/
def items? : Json → Option (List Json)
  | .array vs => some vs
  | _ => none

/-- The texts of an array of string literals. -/
def texts? (v : Json) : Option (List String) :=
  v.items?.bind fun vs => vs.mapM text?

end Json

end ScriptSuite
