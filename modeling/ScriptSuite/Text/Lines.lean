/-!
# Text/Lines — cutting a text at a character

Two ways to cut a text at every occurrence of a separator.  `pieces` keeps everything between the
separators, so there is always one piece more than there are separators.  `lines` reads the
separator, a line feed, as the *end* of a line: what follows the last one is a line only when it is
not empty.

Both are one fold from the right, so each turns a text that is put in front of another into a
statement about the fold's next step (`lines_cons`, `pieces_cons`).
-/

namespace ScriptSuite

/-- Puts a character in front of the first of some pieces, which it opens when there is none. -/
def consFirst (c : Char) : List (List Char) → List (List Char)
  | [] => [[c]]
  | p :: ps => (c :: p) :: ps

/-- One step of a cut at `sep`: the separator opens a piece, any other character joins one. -/
def cutStep (sep c : Char) (ps : List (List Char)) : List (List Char) :=
  if c = sep then [] :: ps else consFirst c ps

/-- Cuts a text at `sep` from its last character to its first, in front of some pieces. -/
def cutBefore (sep : Char) (cs : List Char) (ps : List (List Char)) : List (List Char) :=
  cs.reverse.foldl (fun ps c => cutStep sep c ps) ps

/-- The pieces between the occurrences of `sep`. -/
def pieces (sep : Char) (cs : List Char) : List (List Char) := cutBefore sep cs [[]]

/-- The lines of a text: each ends with a line feed, except that the last one need not. -/
def lines (cs : List Char) : List (List Char) := cutBefore '\n' cs []

@[simp] theorem cutBefore_nil (sep : Char) (ps : List (List Char)) : cutBefore sep [] ps = ps := rfl

@[simp] theorem cutBefore_cons (sep c : Char) (cs : List Char) (ps : List (List Char)) :
    cutBefore sep (c :: cs) ps = cutStep sep c (cutBefore sep cs ps) := by
  simp [cutBefore]

@[simp] theorem pieces_nil (sep : Char) : pieces sep [] = [[]] := rfl

@[simp] theorem pieces_cons (sep c : Char) (cs : List Char) :
    pieces sep (c :: cs) = cutStep sep c (pieces sep cs) := cutBefore_cons sep c cs [[]]

@[simp] theorem lines_nil : lines [] = [] := rfl

@[simp] theorem lines_cons (c : Char) (cs : List Char) :
    lines (c :: cs) = cutStep '\n' c (lines cs) := cutBefore_cons '\n' c cs []

/-- The lines of a text, as texts. -/
def linesOf (s : String) : List String := (lines s.toList).map String.ofList

end ScriptSuite
