import ScriptSuite.Text.Combining
import ScriptSuite.Text.Unassigned

/-!
# Text/Quoted — a name inside a message

A message shows a file's name between double quotes.  The double quote and the backslash are
escaped, and so is every character that would not show as itself: four controls by a letter or a
digit, all others by their code point.
-/

namespace ScriptSuite.Quoted

/-- The characters made to have no visible form: controls, format characters, separators other
than the space, private use, and the fillers for a missing syllable part. -/
def formatRanges : CodeRanges where
  ranges :=
    [(0x0000, 0x001F), (0x007F, 0x00A0), (0x00AD, 0x00AD), (0x0600, 0x0605), (0x061C, 0x061C),
     (0x06DD, 0x06DD), (0x070F, 0x070F), (0x0890, 0x0891), (0x08E2, 0x08E2), (0x115F, 0x1160),
     (0x1680, 0x1680), (0x180E, 0x180E), (0x2000, 0x200F), (0x2028, 0x202F), (0x205F, 0x2064),
     (0x2066, 0x206F), (0x3000, 0x3000), (0x3164, 0x3164), (0xE000, 0xF8FF), (0xFEFF, 0xFEFF),
     (0xFFA0, 0xFFA0), (0xFFF9, 0xFFFB), (0x110BD, 0x110BD), (0x110CD, 0x110CD), (0x13430, 0x1343F),
     (0x1BCA0, 0x1BCA3), (0x1D173, 0x1D17A), (0xE0001, 0xE0001), (0xE0020, 0xE007F),
     (0xF0000, 0xFFFFD), (0x100000, 0x10FFFD)]
  ascending := by decide +kernel

/-- **A hidden character** has no visible form, or none of its own, or is no character yet. -/
def isHidden (c : Char) : Bool :=
  formatRanges.covers c.toNat || combiningRanges.covers c.toNat || unassignedRanges.covers c.toNat

/-- The letter or digit that stands for a character behind a backslash. -/
def letter? : Char → Option Char
  | '\x00' => some '0'
  | '\t' => some 't'
  | '\n' => some 'n'
  | '\r' => some 'r'
  | '"' => some '"'
  | '\\' => some '\\'
  | _ => none

/-- One character between the quotes. -/
def escapeChar (c : Char) : List Char :=
  match letter? c with
  | some l => ['\\', l]
  | none =>
    if isHidden c then ['\\', 'u', '\x7b'] ++ Nat.toDigits 16 c.toNat ++ ['\x7d'] else [c]

/-- A name between double quotes. -/
def quote (s : String) : String :=
  String.ofList ('"' :: s.toList.flatMap escapeChar ++ ['"'])

end ScriptSuite.Quoted
