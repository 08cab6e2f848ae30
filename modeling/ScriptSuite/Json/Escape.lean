/-!
# Json/Escape — between a text and the body of a string literal

The **body** of a string literal is what stands between its quotes.  `escape` gives the body that
is written for a text; `unescape` gives the text that a body denotes, and refuses a body with half
of a surrogate pair in it, which denotes none.
-/

namespace ScriptSuite.Json

/-- The value of a hexadecimal digit of either case. -/
def hexDigit? (c : Char) : Option Nat :=
  if '0' ≤ c ∧ c ≤ '9' then some (c.toNat - '0'.toNat)
  else if 'a' ≤ c ∧ c ≤ 'f' then some (c.toNat - 'a'.toNat + 10)
  else if 'A' ≤ c ∧ c ≤ 'F' then some (c.toNat - 'A'.toNat + 10)
  else none

/-- The value of four hexadecimal digits. -/
def hexUnit? (a b c d : Char) : Option Nat := do
  return ((← hexDigit? a) * 16 + (← hexDigit? b)) * 256 + (← hexDigit? c) * 16 + (← hexDigit? d)

/-- One lower-case hexadecimal digit. -/
def hexDigit (n : Nat) : Char := Nat.digitChar n

/-- The character that a one-letter escape stands for. -/
def shortEscape? : Char → Option Char
  | '"' => some '"'
  | '\\' => some '\\'
  | '/' => some '/'
  | 'b' => some '\x08'
  | 'f' => some '\x0C'
  | 'n' => some '\n'
  | 'r' => some '\r'
  | 't' => some '\t'
  | _ => none

/-- **What is written for a character**: a one-letter escape where there is one, a code point in
hexadecimal for the other controls, and the character itself for all else. -/
def escapeChar (c : Char) : List Char :=
  if c = '"' then ['\\', '"']
  else if c = '\\' then ['\\', '\\']
  else if c = '\x08' then ['\\', 'b']
  else if c = '\x0C' then ['\\', 'f']
  else if c = '\n' then ['\\', 'n']
  else if c = '\r' then ['\\', 'r']
  else if c = '\t' then ['\\', 't']
  else if c.toNat < 0x20 then
    ['\\', 'u', '0', '0', hexDigit (c.toNat / 16), hexDigit (c.toNat % 16)]
  else [c]

/-- The body that is written for a text. -/
def escape (cs : List Char) : List Char := cs.flatMap escapeChar

/-- The first halves of surrogate pairs. -/
def isHighSurrogate (u : Nat) : Bool := 0xD800 ≤ u && u < 0xDC00

/-- The second halves of surrogate pairs. -/
def isLowSurrogate (u : Nat) : Bool := 0xDC00 ≤ u && u < 0xE000

/-- The character of a surrogate pair. -/
def pairChar (high low : Nat) : Char :=
  Char.ofNat (0x10000 + (high - 0xD800) * 0x400 + (low - 0xDC00))

/-- `unescape`, behind the characters already read, latest first. -/
def unescapeFrom (read : List Char) : List Char → Option (List Char)
  | '\\' :: 'u' :: a :: b :: c :: d :: '\\' :: 'u' :: e :: f :: g :: h :: rest =>
    match hexUnit? a b c d with
    | none => none
    | some u =>
      if isHighSurrogate u then
        match hexUnit? e f g h with
        | none => none
        | some v => if isLowSurrogate v then unescapeFrom (pairChar u v :: read) rest else none
      else if isLowSurrogate u then none
      else unescapeFrom (Char.ofNat u :: read) ('\\' :: 'u' :: e :: f :: g :: h :: rest)
  | '\\' :: 'u' :: a :: b :: c :: d :: rest =>
    match hexUnit? a b c d with
    | none => none
    | some u =>
      if isHighSurrogate u || isLowSurrogate u then none
      else unescapeFrom (Char.ofNat u :: read) rest
  | '\\' :: c :: rest =>
    match shortEscape? c with
    | none => none
    | some x => unescapeFrom (x :: read) rest
  | ['\\'] => none
  | c :: rest => unescapeFrom (c :: read) rest
  | [] => some read.reverse

/-- **The text that a body denotes**, if it denotes one. -/
def unescape (body : List Char) : Option (List Char) := unescapeFrom [] body

end ScriptSuite.Json
