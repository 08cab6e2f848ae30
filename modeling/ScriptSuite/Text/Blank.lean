import ScriptSuite.Text.CodeRanges

/-!
# Text/Blank — blank characters, and what trimming leaves

A character is **blank** when Unicode gives it the White_Space property.  Trimming a text takes
the blanks off both of its ends and nothing else; a text that trimming leaves alone is `Trimmed`.
-/

namespace ScriptSuite

/-- The blank code points: the White_Space property, twenty-five characters. -/
def blankRanges : CodeRanges where
  ranges :=
    [(0x09, 0x0D), (0x20, 0x20), (0x85, 0x85), (0xA0, 0xA0), (0x1680, 0x1680), (0x2000, 0x200A),
     (0x2028, 0x2029), (0x202F, 0x202F), (0x205F, 0x205F), (0x3000, 0x3000)]
  ascending := by decide

/-- A character of one of the `blankRanges`. -/
def isBlank (c : Char) : Bool := blankRanges.covers c.toNat

/-- The characters from the first one that is not blank. -/
def trimStart (cs : List Char) : List Char := cs.dropWhile isBlank

/-- The characters up to the last one that is not blank. -/
def trimEnd (cs : List Char) : List Char := (cs.reverse.dropWhile isBlank).reverse

/-- The characters between the blanks at the two ends. -/
def trimChars (cs : List Char) : List Char := trimEnd (trimStart cs)

/-- **Trimming** a text takes the blanks off both of its ends. -/
def trim (s : String) : String := String.ofList (trimChars s.toList)

/-- A text that neither begins nor ends with a blank. -/
def Trimmed (s : String) : Prop :=
  (∀ c ∈ s.toList.head?, isBlank c = false) ∧ ∀ c ∈ s.toList.getLast?, isBlank c = false

instance (s : String) : Decidable (Trimmed s) :=
  @instDecidableAnd _ _ (Option.decidableForallMem _) (Option.decidableForallMem _)

end ScriptSuite
