import ScriptSuite.Json.Basic
import ScriptSuite.Text.Numeral

/-!
# Diagnostic — numbered messages about scripts and suites

Whatever is wrong with a script, a suite or the files around them is reported as a `Diagnostic`:
one of a fixed list of numbered codes, a message, and where it applies.  The thousands of a code's
number are its `Category`.
-/

namespace ScriptSuite

namespace Diagnostic

/-- What a diagnostic is about. -/
inductive Category where
  /-- The text of one script. -/
  | script
  /-- The scripts of a suite together. -/
  | suite
  /-- Files, limits and settings. -/
  | configuration
  /-- The program itself. -/
  | internal
  deriving DecidableEq, Repr

/-- The category as it is shown. -/
def Category.title : Category → String
  | .script => "Syntax"
  | .suite => "Suite"
  | .configuration => "Configuration"
  | .internal => "Internal"

/-- The category as it is written into documents. -/
def Category.key : Category → String
  | .script => "syntax"
  | .suite => "suite"
  | .configuration => "configuration"
  | .internal => "internal"

/-- The kinds of diagnostics. -/
inductive Code where
  | missingIdentity
  | invalidIdentity
  | missingQuestion
  | unseparatedSteps
  | incompleteStep
  | invalidHeaderValue
  | missingTitle
  | invalidEncoding
  | duplicateId
  | unresolvedEmbed
  | circularEmbed
  | fileMissing
  | fileUnreadable
  | limitExceeded
  | invalidExternalList
  | internalError
  | unwritableDocument
  deriving DecidableEq, Repr

namespace Code

/-- The number of a code. -/
def number : Code → Nat
  | missingIdentity => 1001
  | invalidIdentity => 1002
  | missingQuestion => 1003
  | unseparatedSteps => 1004
  | incompleteStep => 1005
  | invalidHeaderValue => 1006
  | missingTitle => 1007
  | invalidEncoding => 1008
  | duplicateId => 2001
  | unresolvedEmbed => 2002
  | circularEmbed => 2003
  | fileMissing => 4001
  | fileUnreadable => 4002
  | limitExceeded => 4003
  | invalidExternalList => 4004
  | internalError => 5001
  | unwritableDocument => 5002

/-- What a code stands for, in two or three words. -/
def description : Code → String
  | missingIdentity => "Missing identity"
  | invalidIdentity => "Invalid identity"
  | missingQuestion => "Missing question"
  | unseparatedSteps => "Steps not separated"
  | incompleteStep => "Incomplete step"
  | invalidHeaderValue => "Invalid metadata value"
  | missingTitle => "Missing title"
  | invalidEncoding => "Invalid encoding"
  | duplicateId => "Duplicate identifier"
  | unresolvedEmbed => "Unresolved reference"
  | circularEmbed => "Circular reference"
  | fileMissing => "File not found"
  | fileUnreadable => "File read error"
  | limitExceeded => "Limit exceeded"
  | invalidExternalList => "Invalid external identifiers"
  | internalError => "Internal error"
  | unwritableDocument => "Serialization error"

/-- **The thousands** of a code's number give its category. -/
def category (c : Code) : Category :=
  match c.number / 1000 with
  | 1 => .script
  | 2 => .suite
  | 4 => .configuration
  | _ => .internal

/-- A code as it is shown: the letter E and four digits. -/
def text (c : Code) : String := "E" ++ padded 4 c.number

end Code

end Diagnostic

/-- A numbered message, with the file and the line that it applies to when there are such. -/
structure Diagnostic where
  code : Diagnostic.Code
  message : String
  location : Option String := none
  line : Option Nat := none
  deriving DecidableEq, Repr

namespace Diagnostic

/-- The diagnostic at a location; an empty location is none. -/
def within (d : Diagnostic) (location : String) : Diagnostic :=
  if location.isEmpty then d else { d with location := some location }

/-- The diagnostic on a line; line zero stands for the whole file and is none. -/
def onLine (d : Diagnostic) (line : Nat) : Diagnostic :=
  if line = 0 then d else { d with line := some line }

/-- **What a user is shown**: the code, the message, and where it applies. -/
def userMessage (d : Diagnostic) : String :=
  "[" ++ d.code.text ++ "] " ++ d.message ++
    match d.location, d.line with
    | some location, some line => " (" ++ location ++ ":" ++ toString line ++ ")"
    | some location, none => " (" ++ location ++ ")"
    | none, some line => " (line " ++ toString line ++ ")"
    | none, none => ""

/-- A diagnostic in a document; what is unset is left out. -/
def toJson (d : Diagnostic) : Json :=
  .record <|
    [("code", .text d.code.text), ("category", .text d.code.category.key),
      ("description", .text d.code.description), ("message", .text d.message)] ++
    (d.location.map fun location => ("location", Json.text location)).toList ++
    (d.line.map fun line => ("line", Json.nat line)).toList

end Diagnostic

end ScriptSuite
