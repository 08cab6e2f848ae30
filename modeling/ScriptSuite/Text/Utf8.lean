/-!
# Text/Utf8 — reading octets as UTF-8

Octets are read one at a time.  After the first octet of a longer character the reader knows how
many octets are owed and between which bounds the next one must lie, so it finds an ill-formed
sequence at the first octet that rules it out, and begins again with that octet.  It writes a
character for each well-formed sequence and U+FFFD for each maximal ill-formed one, and remembers
the line of the first of these.

Both readings of a file come from this one.  The strict one, `decode`, refuses a file with an
ill-formed sequence and names its line; the lenient one, `decodeLossy`, takes what was written.
-/

namespace ScriptSuite.Utf8

/-- A character under way: the octets still owed, the bounds of the next one, and the value of the
bits read so far. -/
structure Pending where
  owed : Nat
  least : Nat
  greatest : Nat
  bits : Nat
  deriving DecidableEq, Repr

/-- What an octet does between characters. -/
inductive Opening where
  /-- It is a character of its own. -/
  | whole (c : Char)
  /-- It begins a longer character. -/
  | begins (p : Pending)
  /-- It begins no character. -/
  | illFormed
  deriving DecidableEq, Repr

/-- **The first octet** settles the length of the character and narrows its second octet, so that
neither an overlong form nor a surrogate nor a value past U+10FFFF can be finished. -/
@[inline] def Opening.ofOctet (b : Nat) : Opening :=
  if b < 0x80 then .whole (Char.ofNat b)
  else if b < 0xC2 then .illFormed
  else if b < 0xE0 then .begins ⟨1, 0x80, 0xBF, b - 0xC0⟩
  else if b = 0xE0 then .begins ⟨2, 0xA0, 0xBF, 0⟩
  else if b = 0xED then .begins ⟨2, 0x80, 0x9F, 0xD⟩
  else if b < 0xF0 then .begins ⟨2, 0x80, 0xBF, b - 0xE0⟩
  else if b = 0xF0 then .begins ⟨3, 0x90, 0xBF, 0⟩
  else if b < 0xF4 then .begins ⟨3, 0x80, 0xBF, b - 0xF0⟩
  else if b = 0xF4 then .begins ⟨3, 0x80, 0x8F, 4⟩
  else .illFormed

/-- A reading in progress. -/
structure Reading where
  /-- The character under way. -/
  pending : Option Pending := none
  /-- The characters read, latest first, with U+FFFD for each ill-formed sequence. -/
  read : List Char := []
  /-- The line of the first ill-formed sequence. -/
  fault : Option Nat := none
  deriving DecidableEq, Repr

/-- What stands for an ill-formed sequence. -/
def replacement : Char := '\uFFFD'

namespace Reading

/-- The number of the line that is being read. -/
def line (r : Reading) : Nat := r.read.count '\n' + 1

/-- Ends an ill-formed sequence. -/
def refuse (r : Reading) : Reading :=
  match r.fault with
  | some line => ⟨none, replacement :: r.read, some line⟩
  | none => ⟨none, replacement :: r.read, some r.line⟩

/-- Reads an octet between characters. -/
@[inline] def start (r : Reading) (b : Nat) : Reading :=
  match Opening.ofOctet b with
  | .whole c => ⟨none, c :: r.read, r.fault⟩
  | .begins p => ⟨some p, r.read, r.fault⟩
  | .illFormed => r.refuse

/-- Reads one octet.  One outside the bounds ends an ill-formed sequence and is read again as the
first of what follows. -/
@[inline] def step (r : Reading) (octet : UInt8) : Reading :=
  let b := octet.toNat
  match r.pending with
  | none => r.start b
  | some p =>
    if p.least ≤ b ∧ b ≤ p.greatest then
      let bits := p.bits * 64 + (b - 0x80)
      if p.owed ≤ 1 then ⟨none, Char.ofNat bits :: r.read, r.fault⟩
      else ⟨some ⟨p.owed - 1, 0x80, 0xBF, bits⟩, r.read, r.fault⟩
    else r.refuse.start b

/-- Reads the end: a character still under way is an ill-formed sequence. -/
def finish (r : Reading) : Reading :=
  match r.pending with
  | none => r
  | some _ => r.refuse

/-- The characters read, in order. -/
def chars (r : Reading) : List Char := r.read.reverse

/-- **The reading of octets** from the first to the last. -/
def ofOctets (octets : List UInt8) : Reading := (octets.foldl step {}).finish

end Reading

/-- The mark that some editors put in front of a file (U+FEFF). -/
def byteOrderMark : Char := '\uFEFF'

/-- The text without one byte order mark in front. -/
def withoutMark : List Char → List Char
  | c :: cs => if c = byteOrderMark then cs else c :: cs
  | [] => []

/-- **Strict reading**: the text without its byte order mark, or the number of the line that holds
the first ill-formed octet. -/
def decode (octets : List UInt8) : Except Nat String :=
  let r := Reading.ofOctets octets
  match r.fault with
  | some line => .error line
  | none => .ok (String.ofList (withoutMark r.chars))

/-- The text when every octet sequence is well formed; a byte order mark stays. -/
def text? (octets : List UInt8) : Option String :=
  let r := Reading.ofOctets octets
  match r.fault with
  | some _ => none
  | none => some (String.ofList r.chars)

/-- **Lenient reading**: U+FFFD stands for each ill-formed sequence, and a byte order mark stays. -/
def decodeLossy (octets : List UInt8) : String :=
  String.ofList (Reading.ofOctets octets).chars

/-- The octets of a text. -/
def encode (s : String) : List UInt8 := s.toList.flatMap String.utf8EncodeChar

end ScriptSuite.Utf8
