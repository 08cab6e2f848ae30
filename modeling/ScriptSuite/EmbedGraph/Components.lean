import ScriptSuite.EmbedGraph.Basic

/-!
# EmbedGraph/Components — strongly connected components

One depth-first search finds the components.  Nodes are numbered as the search opens them, and an
open node goes on a stack.  A node's **low** number is the least that the search has met at or
below it among the nodes still on the stack; a node whose low number is its own closes a component,
which is the part of the stack down to that node.

The nodes that the search is inside of are kept as a list of `Frame`s, so a path of embeds may be
as long as it likes.  Each step opens a node, looks at one edge, or leaves a node; that is the
measure by which the search ends (`Search.measure`).  It fails only at an edge to a number that is
no node.
-/

namespace ScriptSuite.EmbedGraph

/-- What the search knows about a node. -/
inductive Mark where
  /-- It was not met. -/
  | fresh
  /-- It is on the stack, and was opened as the node of this order. -/
  | opened (order : Nat)
  /-- Its component is closed. -/
  | closed
  deriving DecidableEq, Repr

/-- Whether a node was not met. -/
def Mark.isFresh : Mark → Bool
  | .fresh => true
  | _ => false

/-- A node that the search is inside of, with the edges it has not looked at. -/
structure Frame where
  vertex : Nat
  order : Nat
  low : Nat
  rest : List Nat
  deriving DecidableEq, Repr

/-- A search in progress.  The innermost frame, the latest node of the stack and the latest
component come first. -/
structure Search where
  marks : Array Mark
  count : Nat := 0
  frames : List Frame := []
  stack : List Nat := []
  found : List (List Nat) := []

namespace Search

/-- The search of a graph before its first step. -/
def ofGraph (g : EmbedGraph) : Search := { marks := Array.replicate g.size .fresh }

/-- Opens a node. -/
def enter (g : EmbedGraph) (s : Search) (v : Nat) : Search :=
  { s with
    marks := s.marks.setIfInBounds v (.opened s.count)
    count := s.count + 1
    frames := ⟨v, s.count, s.count, g.targets v⟩ :: s.frames
    stack := v :: s.stack }

/-- The frame around a node that is left takes over the node's low number, if it is less. -/
def passLow (low : Nat) : List Frame → List Frame
  | [] => []
  | f :: fs => { f with low := min f.low low } :: fs

/-- Takes a component off the stack: everything down to its root. -/
def closeComponent (s : Search) (root : Nat) : Search :=
  let component := s.stack.takeWhile (· ≠ root) ++ [root]
  { s with
    marks := component.foldl (fun marks v => marks.setIfInBounds v .closed) s.marks
    stack := (s.stack.dropWhile (· ≠ root)).drop 1
    found := component :: s.found }

/-- Leaves the innermost node `f`, with the frames `fs` around it. -/
def leave (s : Search) (f : Frame) (fs : List Frame) : Search :=
  let s := { s with frames := passLow f.low fs }
  if f.low = f.order then s.closeComponent f.vertex else s

/-- Looks at the edge from the innermost node `f` to `w`; fails when `w` is no node. -/
def look (g : EmbedGraph) (s : Search) (f : Frame) (fs : List Frame) (w : Nat)
    (rest : List Nat) : Option Search :=
  let f := { f with rest := rest }
  match s.marks[w]? with
  | none => none
  | some .fresh => some ({ s with frames := f :: fs }.enter g w)
  | some (.opened order) => some { s with frames := { f with low := min f.low order } :: fs }
  | some .closed => some { s with frames := f :: fs }

/-! ### The search ends -/

/-- The edges still to look at and the nodes still to leave. -/
def work (fs : List Frame) : Nat := fs.foldr (fun f n => f.rest.length + 1 + n) 0

@[simp] theorem work_cons (f : Frame) (fs : List Frame) :
    work (f :: fs) = f.rest.length + 1 + work fs := rfl

/-- The nodes still to open, and the work on those that are open. -/
def measure (s : Search) : Nat × Nat := (s.marks.countP Mark.isFresh, work s.frames)

theorem countP_setIfInBounds_le (marks : Array Mark) (v : Nat) {m : Mark}
    (hm : m.isFresh = false) :
    (marks.setIfInBounds v m).countP Mark.isFresh ≤ marks.countP Mark.isFresh := by
  unfold Array.setIfInBounds
  split
  · rw [Array.countP_set _, hm, if_neg Bool.false_ne_true]
    omega
  · exact Nat.le_refl _

theorem countP_setIfInBounds_lt {marks : Array Mark} {v : Nat} (h : marks[v]? = some .fresh)
    {m : Mark} (hm : m.isFresh = false) :
    (marks.setIfInBounds v m).countP Mark.isFresh < marks.countP Mark.isFresh := by
  obtain ⟨hv, hf⟩ := Array.getElem?_eq_some_iff.mp h
  have hpos : 0 < marks.countP Mark.isFresh :=
    Array.countP_pos_iff.mpr ⟨_, Array.getElem_mem hv, by rw [hf]; rfl⟩
  unfold Array.setIfInBounds
  rw [dif_pos hv, Array.countP_set _, hf, hm, if_pos (show Mark.isFresh .fresh = true from rfl),
    if_neg Bool.false_ne_true]
  omega

theorem countP_closeComponent_le (s : Search) (root : Nat) :
    (s.closeComponent root).marks.countP Mark.isFresh ≤ s.marks.countP Mark.isFresh := by
  simp only [closeComponent]
  generalize s.stack.takeWhile (· ≠ root) ++ [root] = component
  generalize s.marks = marks
  induction component generalizing marks with
  | nil => exact Nat.le_refl _
  | cons v vs ih =>
    exact Nat.le_trans (ih _) (countP_setIfInBounds_le marks v rfl)

theorem work_passLow (low : Nat) (fs : List Frame) : work (passLow low fs) = work fs := by
  cases fs <;> rfl

theorem measure_leave_lt {s : Search} {f : Frame} {fs : List Frame}
    (h : s.frames = f :: fs) :
    Prod.Lex Nat.lt Nat.lt (s.leave f fs).measure s.measure := by
  have hwork : work (passLow f.low fs) < work s.frames := by
    rw [work_passLow, h, work_cons]
    omega
  unfold leave
  split
  · exact Prod.Lex.right' _ (countP_closeComponent_le _ _) hwork
  · exact Prod.Lex.right' _ (Nat.le_refl _) hwork

theorem measure_look_lt {g : EmbedGraph} {s t : Search} {f : Frame} {fs : List Frame} {w : Nat}
    {rest : List Nat} (hf : s.frames = f :: fs) (hr : f.rest = w :: rest)
    (h : s.look g f fs w rest = some t) :
    Prod.Lex Nat.lt Nat.lt t.measure s.measure := by
  have hwork : rest.length + 1 + work fs < work s.frames := by
    simp [hf, hr]
  unfold look at h
  split at h
  · cases h
  · next hw =>
    cases h
    exact Prod.Lex.left _ _ (countP_setIfInBounds_lt hw rfl)
  · cases h
    exact Prod.Lex.right' _ (Nat.le_refl _) hwork
  · cases h
    exact Prod.Lex.right' _ (Nat.le_refl _) hwork

/-! ### Running -/

/-- What one step of a search comes to. -/
inductive Progress where
  /-- The search is inside of no node. -/
  | ended (s : Search)
  /-- It met an edge to a number that is no node. -/
  | stuck
  | next (s : Search)

/-- **One step**: the innermost node's next edge is looked at, or the node is left. -/
def step (g : EmbedGraph) (s : Search) : Progress :=
  match s.frames with
  | [] => .ended s
  | f :: fs =>
    match f.rest with
    | [] => .next (s.leave f fs)
    | w :: rest =>
      match s.look g f fs w rest with
      | none => .stuck
      | some t => .next t

theorem measure_step_lt {g : EmbedGraph} {s t : Search} (h : s.step g = .next t) :
    Prod.Lex Nat.lt Nat.lt t.measure s.measure := by
  unfold step at h
  split at h
  · cases h
  · next f fs hf =>
    split at h
    · cases h
      exact measure_leave_lt hf
    · next w rest hr =>
      split at h
      · cases h
      · next hl =>
        cases h
        exact measure_look_lt hf hr hl

/-- Steps until the search is inside of no node. -/
def run (g : EmbedGraph) (s : Search) : Option Search :=
  match _h : s.step g with
  | .ended t => some t
  | .stuck => none
  | .next t => run g t
termination_by s.measure
decreasing_by exact measure_step_lt _h

/-- Searches from a node, unless it was met before. -/
def visit (g : EmbedGraph) (s : Search) (root : Nat) : Option Search :=
  match s.marks[root]? with
  | some .fresh => run g (s.enter g root)
  | _ => some s

/-- Searches from each of some nodes in turn. -/
def visitAll (g : EmbedGraph) : List Nat → Search → Option Search
  | [], s => some s
  | root :: roots, s =>
    match s.visit g root with
    | none => none
    | some t => visitAll g roots t

end Search

/-- **The strongly connected components**, in the order in which the search closes them, so that a
component comes before every component with an edge into it.  There are none to give when an edge
leads to a number that is no node. -/
def components? (g : EmbedGraph) : Option (List (List Nat)) :=
  (Search.visitAll g (List.range g.size) (Search.ofGraph g)).map (·.found.reverse)

end ScriptSuite.EmbedGraph
