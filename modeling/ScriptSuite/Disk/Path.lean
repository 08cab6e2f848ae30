import ScriptSuite.Text.Lines

/-!
# Disk/Path — the components of a path, and the order of paths

A path is compared by its components, not by its characters: repeated slashes, a slash at the end
and a dot in the middle do not count.  A dot in front does, and two dots are a component of their
own.  A path from the root comes before one with a dot in front, then come two dots, then names in
the order of their characters.

The order is that of a key in lists of numbers (`Path.key`), so two paths are equal as paths when
their keys are.
-/

namespace ScriptSuite.Path

/-- A component of a path. -/
inductive Component where
  /-- The slash in front. -/
  | root
  /-- The dot in front. -/
  | here
  /-- Two dots. -/
  | parent
  | name (s : String)
  deriving DecidableEq, Repr

/-- The component that a piece between slashes is, unless it does not count. -/
def Component.ofPiece? (piece : List Char) : Option Component :=
  if piece = [] ∨ piece = ['.'] then none
  else if piece = ['.', '.'] then some .parent
  else some (.name (String.ofList piece))

/-- The components of a path. -/
def components (path : String) : List Component :=
  let ps := pieces '/' path.toList
  let front : List Component :=
    if path.isEmpty then []
    else match ps.head? with
      | some [] => [.root]
      | some ['.'] => [.here]
      | _ => []
  front ++ ps.filterMap Component.ofPiece?

/-- A component as numbers, in the order of components. -/
def Component.key : Component → List Nat
  | .root => [0]
  | .here => [1]
  | .parent => [2]
  | .name s => 3 :: s.toList.map Char.toNat

/-- A path as numbers, in the order of paths. -/
def key (path : String) : List (List Nat) := (components path).map Component.key

/-- Paths in order; equal paths stay in the order in which they are given. -/
def sorted (paths : List String) : List String :=
  paths.mergeSort fun a b => decide (List.le (key a) (key b))

/-- Puts a path in front of others, in place of an equal one that stands first there. -/
def consFirst (path : String) : List String → List String
  | [] => [path]
  | q :: qs => if key q = key path then path :: qs else path :: q :: qs

/-- **The distinct paths** in order; of equal ones the first given. -/
def distinct (paths : List String) : List String := (sorted paths).foldr consFirst []

end ScriptSuite.Path
