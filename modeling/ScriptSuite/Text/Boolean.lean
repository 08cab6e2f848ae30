/-!
# Text/Boolean — the spellings of a boolean

A boolean is spelled as a word in lower case, in upper case or with a capital, as the word's first
letter in either case, or as a digit.  Nothing else spells one; in particular blanks count.
-/

namespace ScriptSuite

/-- The boolean that a text spells. -/
def boolOfText? (s : String) : Option Bool :=
  if s ∈ ["true", "True", "TRUE", "t", "T", "1"] then some true
  else if s ∈ ["false", "False", "FALSE", "f", "F", "0"] then some false
  else none

/-- A boolean as its word in lower case. -/
def textOfBool (b : Bool) : String := if b then "true" else "false"

end ScriptSuite
