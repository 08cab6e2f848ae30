import ScriptSuite.Json.Basic

/-!
# Json/Reader — reading a document one character at a time

The reader is a machine.  Its `State` says what the character at hand belongs to — a string, a
number, a word, or the space between tokens — and which containers are still open around it; one
`step` reads one character.  The open containers are a list, so nesting may be as deep as it likes.

A document is one value with blank space around it (`Json.read?`).  The machine is strict: every
literal has to be well formed, also in members that nobody asks for.

Because a run over two texts is a run over the first and then over the second (`run_append`),
statements about documents are put together from statements about their parts.
-/

namespace ScriptSuite.Json

/-! ## What is open, and what may follow -/

/-- A container around the value at hand, with its contents so far, latest first. -/
inductive Frame where
  | array (items : List Json)
  | object (members : List (List Char × Json)) (key : List Char)

/-- What may follow between two tokens. -/
inductive Phase where
  /-- A value. -/
  | value
  /-- The first item of an array, or its end. -/
  | firstItem
  /-- The first key of an object, or its end. -/
  | firstKey
  /-- A key, after these members. -/
  | key (members : List (List Char × Json))
  /-- The colon behind a key. -/
  | colon (members : List (List Char × Json)) (key : List Char)
  /-- A comma or the end of an array with these items. -/
  | afterItem (items : List Json)
  /-- A comma or the end of an object with these members. -/
  | afterMember (members : List (List Char × Json))
  /-- Nothing: the document's value is complete. -/
  | done (value : Json)

/-- The part of a number that was read last. -/
inductive Part where
  | minus | zero | whole | point | fraction | mark | markSign | exponent
  deriving DecidableEq

/-- What a string is: a value, or a key after these members. -/
inductive Role where
  | value
  | key (members : List (List Char × Json))

/-- How much of an escape is still to come. -/
inductive Owed where
  | nothing
  | letter
  | digits (n : Nat)

/-- What the next character belongs to.  Literals are kept latest character first. -/
inductive Mode where
  | between (p : Phase)
  | word (next : Char) (rest : List Char) (value : Json)
  | number (part : Part) (read : List Char)
  | string (role : Role) (read : List Char) (owed : Owed)

/-- The reader between two characters. -/
structure State where
  stack : List Frame
  mode : Mode

/-! ## Numbers -/

/-- The part that a character continues a number with. -/
def Part.next? : Part → Char → Option Part
  | .minus, c => if c = '0' then some .zero else if c.isDigit then some .whole else none
  | .zero, c => point? c
  | .whole, c => if c.isDigit then some .whole else point? c
  | .point, c => if c.isDigit then some .fraction else none
  | .fraction, c => if c.isDigit then some .fraction else mark? c
  | .mark, c =>
    if c = '+' ∨ c = '-' then some .markSign else if c.isDigit then some .exponent else none
  | .markSign, c => if c.isDigit then some .exponent else none
  | .exponent, c => if c.isDigit then some .exponent else none
where
  /-- An exponent begins. -/
  mark? (c : Char) : Option Part := if c = 'e' ∨ c = 'E' then some .mark else none
  /-- A fraction or an exponent begins. -/
  point? (c : Char) : Option Part := if c = '.' then some .point else mark? c

/-- A number may end with this part. -/
def Part.complete : Part → Bool
  | .zero | .whole | .fraction | .exponent => true
  | _ => false

/-! ## Steps -/

namespace State

/-- A value is complete: it goes into the innermost open container. -/
def deliver (v : Json) : List Frame → List Frame × Phase
  | [] => ([], .done v)
  | .array items :: fs => (fs, .afterItem (v :: items))
  | .object members key :: fs => (fs, .afterMember ((key, v) :: members))

/-- The reader behind a complete value. -/
def after (v : Json) (stack : List Frame) : State :=
  ⟨(deliver v stack).1, .between (deliver v stack).2⟩

/-- The first character of a value. -/
def begin? (stack : List Frame) : Char → Option State
  | '[' => some ⟨stack, .between .firstItem⟩
  | '\x7b' => some ⟨stack, .between .firstKey⟩
  | '"' => some ⟨stack, .string .value [] .nothing⟩
  | '-' => some ⟨stack, .number .minus ['-']⟩
  | 'n' => some ⟨stack, .word 'u' ['l', 'l'] .null⟩
  | 't' => some ⟨stack, .word 'r' ['u', 'e'] (.bool true)⟩
  | 'f' => some ⟨stack, .word 'a' ['l', 's', 'e'] (.bool false)⟩
  | c =>
    if c = '0' then some ⟨stack, .number .zero [c]⟩
    else if c.isDigit then some ⟨stack, .number .whole [c]⟩
    else none

/-- The space that may stand between tokens. -/
def isSpace (c : Char) : Bool := c = ' ' || c = '\t' || c = '\n' || c = '\r'

/-- One character between tokens. -/
def between? (stack : List Frame) (p : Phase) (c : Char) : Option State :=
  if isSpace c then some ⟨stack, .between p⟩
  else match p with
    | .value => begin? stack c
    | .firstItem =>
      if c = ']' then some (after (.array []) stack) else begin? (.array [] :: stack) c
    | .firstKey =>
      if c = '\x7d' then some (after (.object []) stack)
      else if c = '"' then some ⟨stack, .string (.key []) [] .nothing⟩
      else none
    | .key members => if c = '"' then some ⟨stack, .string (.key members) [] .nothing⟩ else none
    | .colon members key =>
      if c = ':' then some ⟨.object members key :: stack, .between .value⟩ else none
    | .afterItem items =>
      if c = ',' then some ⟨.array items :: stack, .between .value⟩
      else if c = ']' then some (after (.array items.reverse) stack)
      else none
    | .afterMember members =>
      if c = ',' then some ⟨stack, .between (.key members)⟩
      else if c = '\x7d' then some (after (.object members.reverse) stack)
      else none
    | .done _ => none

/-- A string is complete. -/
def closeString (stack : List Frame) (body : List Char) : Role → State
  | .value => after (.string body) stack
  | .key members => ⟨stack, .between (.colon members body)⟩

/-- One character inside a string.  A control character has to be escaped. -/
def inString? (stack : List Frame) (role : Role) (read : List Char) (c : Char) :
    Owed → Option State
  | .nothing =>
    if c = '"' then some (closeString stack read.reverse role)
    else if c = '\\' then some ⟨stack, .string role (c :: read) .letter⟩
    else if c.toNat < 0x20 then none
    else some ⟨stack, .string role (c :: read) .nothing⟩
  | .letter =>
    if c = 'u' then some ⟨stack, .string role (c :: read) (.digits 4)⟩
    else if (shortEscape? c).isSome then some ⟨stack, .string role (c :: read) .nothing⟩
    else none
  | .digits n =>
    if (hexDigit? c).isSome then
      some ⟨stack, .string role (c :: read) (if n ≤ 1 then .nothing else .digits (n - 1))⟩
    else none

/-- **One character.**  A character that does not continue a number ends it. -/
def step (s : State) (c : Char) : Option State :=
  match s.mode with
  | .between p => between? s.stack p c
  | .word next rest v =>
    if c ≠ next then none
    else match rest with
      | [] => some (after v s.stack)
      | next' :: rest' => some ⟨s.stack, .word next' rest' v⟩
  | .number part read =>
    match part.next? c with
    | some next => some ⟨s.stack, .number next (c :: read)⟩
    | none =>
      if part.complete then
        let (stack, phase) := deliver (.number read.reverse) s.stack
        between? stack phase c
      else none
  | .string role read owed => inString? s.stack role read c owed

/-- The reader before the first character. -/
def start : State := ⟨[], .between .value⟩

/-- Reads a text. -/
def run : State → List Char → Option State
  | s, [] => some s
  | s, c :: cs =>
    match s.step c with
    | none => none
    | some s' => run s' cs

/-- The value of a document that ends here. -/
def finish : State → Option Json
  | ⟨[], .between (.done v)⟩ => some v
  | ⟨[], .number part read⟩ => if part.complete then some (.number read.reverse) else none
  | _ => none

/-- **A run over two texts** is a run over the first and then over the second. -/
theorem run_append (s : State) (as bs : List Char) :
    s.run (as ++ bs) = (s.run as).bind fun t => t.run bs := by
  induction as generalizing s with
  | nil => rfl
  | cons c cs ih =>
    simp only [List.cons_append, run]
    cases s.step c with
    | none => rfl
    | some t => exact ih t

end State

/-- **The value of a document.** -/
def read? (s : String) : Option Json := (State.start.run s.toList).bind State.finish

end ScriptSuite.Json
