import ScriptSuite.Text.Blank
import ScriptSuite.Text.Lines

/-!
# Script/Line — the lines of a script and their markers

The text of a script is read line by line, each line without the blanks at its ends.  The first
characters of a line settle what kind of line it is; what a kind means is for the reader of the
script (`Script/Draft`).  The end of the text is the last entry of the list of lines, numbered like
the last line before it.
-/

namespace ScriptSuite

/-- What the marker of a line says. -/
inductive Line.Kind where
  /-- `#! id` -/
  | identity (id : String)
  /-- `# key: value`, cut at the first colon -/
  | header (key value : String)
  /-- `#` and no colon -/
  | remark
  /-- `- target` -/
  | dash (target : String)
  /-- Any other line that is not empty. -/
  | content
  | blank
  | endOfText
  deriving DecidableEq, Repr

/-- A line without the blanks at its ends. -/
structure Line where
  number : Nat
  text : String
  kind : Line.Kind
  deriving DecidableEq, Repr

namespace Line

/-- The text before the first colon and the text behind it. -/
def cutColon? (cs : List Char) : Option (List Char × List Char) :=
  match cs.dropWhile (· ≠ ':') with
  | [] => none
  | _ :: value => some (cs.takeWhile (· ≠ ':'), value)

/-- Trimmed characters as a text. -/
def field (cs : List Char) : String := String.ofList (trimChars cs)

/-- The kind of a line with these characters. -/
def Kind.ofChars : List Char → Kind
  | [] => .blank
  | '#' :: '!' :: rest => .identity (field rest)
  | '#' :: rest =>
    match cutColon? rest with
    | some (key, value) => .header (field key) (field value)
    | none => .remark
  | '-' :: rest => .dash (field rest)
  | _ => .content

/-- The line with this number and these characters. -/
def ofChars (number : Nat) (cs : List Char) : Line :=
  let text := trimChars cs
  ⟨number, String.ofList text, Kind.ofChars text⟩

/-- The end of a text of so many lines. -/
def final (number : Nat) : Line := ⟨number, "", .endOfText⟩

/-- Lines that stand behind `n` others, and the end of the text behind them. -/
def numbered (n : Nat) (ls : List (List Char)) : List Line :=
  ls.mapIdx (fun i cs => ofChars (i + n + 1) cs) ++ [final (ls.length + n)]

/-- **The lines of a text**, numbered from one, and its end. -/
def ofText (s : String) : List Line := numbered 0 (lines s.toList)

@[simp] theorem numbered_nil (n : Nat) : numbered n [] = [final n] := by
  simp [numbered]

@[simp] theorem numbered_cons (n : Nat) (cs : List Char) (ls : List (List Char)) :
    numbered n (cs :: ls) = ofChars (n + 1) cs :: numbered (n + 1) ls := by
  simp [numbered, List.mapIdx_cons, Nat.add_assoc, Nat.add_comm 1]

/-- What a line says behind its `#` and one space. -/
def body (l : Line) : String :=
  let cs := match l.text.toList with
    | '#' :: cs => cs
    | cs => cs
  match cs with
  | ' ' :: cs => String.ofList cs
  | cs => String.ofList cs

end Line

end ScriptSuite
