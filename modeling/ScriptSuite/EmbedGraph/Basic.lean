import Std.Data.HashMap

/-!
# EmbedGraph/Basic — the graph of embeds

The nodes of the graph are ids, numbered in the order in which they were added; a directed edge
leads from an id to an id that it embeds.  Numbers are given once and for all: a node keeps its
number whatever is added later.

An edge is added between numbers.  Its source has to be a node; its target is taken as it is, and
an edge to a number that is no node makes the searches of `EmbedGraph/Components` fail.
-/

namespace ScriptSuite

/-- Ids with their numbers, and the edges that leave each of them, in the order of adding. -/
structure EmbedGraph where
  names : Array String := #[]
  index : Std.HashMap String Nat := {}
  edges : Array (Array Nat) := #[]

namespace EmbedGraph

/-- The graph without nodes. -/
def empty : EmbedGraph := {}

/-- How many nodes there are. -/
def size (g : EmbedGraph) : Nat := g.names.size

/-- The number of an id. -/
def node? (g : EmbedGraph) (id : String) : Option Nat := g.index[id]?

/-- Whether an id is a node. -/
def contains (g : EmbedGraph) (id : String) : Bool := g.index.contains id

/-- The id with a number. -/
def name? (g : EmbedGraph) (i : Nat) : Option String := g.names[i]?

/-- The targets of the edges that leave a node. -/
def targets (g : EmbedGraph) (i : Nat) : List Nat := (g.edges.getD i #[]).toList

/-- The graph with an id among its nodes, and the number of the id. -/
def addNode (g : EmbedGraph) (id : String) : EmbedGraph × Nat :=
  match g.index[id]? with
  | some i => (g, i)
  | none =>
    let i := g.names.size
    ({ names := g.names.push id, index := g.index.insert id i, edges := g.edges.push #[] }, i)

/-- The graph with these ids among its nodes. -/
def addNodes (g : EmbedGraph) (ids : List String) : EmbedGraph :=
  ids.foldl (fun g id => (g.addNode id).1) g

/-- The graph with one edge more; the same graph when the source is no node. -/
def addEdge (g : EmbedGraph) (i j : Nat) : EmbedGraph :=
  { g with edges := g.edges.modify i (·.push j) }

/-- The graph with one edge more, unless its source is no node. -/
def addEdge? (g : EmbedGraph) (i j : Nat) : Option EmbedGraph :=
  if i < g.edges.size then some (g.addEdge i j) else none

/-- The graph with one edge more between two ids, which become nodes. -/
def link (g : EmbedGraph) (source target : String) : EmbedGraph × Nat × Nat :=
  let (g, i) := g.addNode source
  let (g, j) := g.addNode target
  (g.addEdge i j, i, j)

/-- How many edges there are. -/
def edgeCount (g : EmbedGraph) : Nat := g.edges.foldr (fun targets n => targets.size + n) 0

/-- Whether an edge leads from a node to itself, if there is such a node. -/
def hasSelfLoop? (g : EmbedGraph) (i : Nat) : Option Bool :=
  g.edges[i]?.map (·.contains i)

end EmbedGraph

end ScriptSuite
