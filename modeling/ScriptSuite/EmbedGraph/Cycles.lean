import ScriptSuite.EmbedGraph.Components

/-!
# EmbedGraph/Cycles — the cycles of the graph of embeds

A component is a cycle when it has two nodes or more, or when its one node has an edge to itself.
Cycles are shown as sorted lists of ids, in sorted order, so that what is shown depends only on
which ids embed which.
-/

namespace ScriptSuite.EmbedGraph

/-- Whether the nodes of a component lie on a cycle. -/
def isCycle (g : EmbedGraph) : List Nat → Bool
  | [] => false
  | [v] => (g.hasSelfLoop? v).getD false
  | _ => true

/-- Ids in order. -/
def sortedIds (ids : List String) : List String := ids.mergeSort fun a b => decide (a ≤ b)

/-- **The cycles of the graph**, each as its sorted ids, in order. -/
def cycles? (g : EmbedGraph) : Option (List (List String)) :=
  g.components?.map fun components =>
    (((components.filter g.isCycle).map fun c => sortedIds (c.filterMap g.name?)).mergeSort
      fun a b => decide (List.le a b))

end ScriptSuite.EmbedGraph
