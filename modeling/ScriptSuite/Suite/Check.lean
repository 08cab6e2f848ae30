import ScriptSuite.EmbedGraph.Cycles
import ScriptSuite.Script.Basic
import ScriptSuite.Suite.External
import ScriptSuite.Suite.Fault

/-!
# Suite/Check — whether the scripts of a suite fit together

Scripts are taken in the order of their locations; scripts at one location stay in the order in
which they are given.  Three kinds of faults are gathered, and all of them are reported: ids that an
earlier script has, embeds of ids that nobody has, and circles of embeds.

An id may be had by a script of the suite, by a script that is known elsewhere, or by a file of the
suite that is no script but declares an id (an *unloaded* id).  The last two embed nothing.
-/

namespace ScriptSuite.Suite

/-- The result of a check. -/
structure Findings where
  /-- Duplicate ids, then unresolved embeds, then circles. -/
  faults : List SuiteFault
  /-- Whether scripts that are known elsewhere were taken into account. -/
  consulted : Bool
  scripts : Nat
  nodes : Nat
  edges : Nat
  deriving DecidableEq, Repr

/-- A suite without faults. -/
def Findings.valid (f : Findings) : Bool := f.faults.isEmpty

/-- Scripts in the order of their locations. -/
def ordered (scripts : List Script) : List Script :=
  scripts.mergeSort fun a b => decide (a.location ≤ b.location)

/-! ## Duplicate ids -/

/-- The scripts seen so far: the first location of each id, and the faults, latest first. -/
structure Census where
  first : Std.HashMap String String := {}
  faults : List SuiteFault := []

/-- Sees a script. -/
def Census.see (c : Census) (s : Script) : Census :=
  match c.first[s.id]? with
  | some canonical => { c with faults := .duplicateId s.id s.location canonical :: c.faults }
  | none => { c with first := c.first.insert s.id s.location }

/-- A fault for each script whose id an earlier one has. -/
def duplicates (scripts : List Script) : List SuiteFault :=
  (scripts.foldl Census.see {}).faults.reverse

/-! ## Embeds -/

/-- The embeds followed so far: the graph, and the faults, latest first. -/
structure Linking where
  graph : EmbedGraph
  faults : List SuiteFault := []

/-- Follows an embed: an edge when its target is a node, and a fault otherwise. -/
def Linking.embed (consulted : Bool) (s : Script) (source : Nat) (l : Linking) (e : Nat × Embed) :
    Linking :=
  match l.graph.node? e.2.target with
  | some target => { l with graph := l.graph.addEdge source target }
  | none =>
    { l with faults := .unresolvedEmbed s.id s.location e.1 e.2.target consulted :: l.faults }

/-- Follows the embeds of a script. -/
def Linking.script (consulted : Bool) (l : Linking) (s : Script) : Linking :=
  let (graph, source) := l.graph.addNode s.id
  s.embeds.foldl (Linking.embed consulted s source) { l with graph := graph }

/-- The graph whose nodes are the ids that somebody has. -/
def knownIds (scripts : List Script) (external : Option (List ExternalScript))
    (unloaded : List String) : EmbedGraph :=
  ((EmbedGraph.empty.addNodes (scripts.map (·.id))).addNodes
    ((external.getD []).map (·.id))).addNodes unloaded

/-- The graph of all embeds that name a known id, and the faults of the others. -/
def link (scripts : List Script) (external : Option (List ExternalScript))
    (unloaded : List String) : Linking :=
  scripts.foldl (Linking.script external.isSome) ⟨knownIds scripts external unloaded, []⟩

/-! ## The check -/

/-- **The findings about a suite.**  The graph has edges between its own nodes only, so it always
has cycles to give. -/
def check (scripts : List Script) (external : Option (List ExternalScript))
    (unloaded : List String) : Findings :=
  let inOrder := ordered scripts
  let linking := link inOrder external unloaded
  { faults :=
      duplicates inOrder ++ linking.faults.reverse ++
        (linking.graph.cycles?.getD []).map .circularEmbeds
    consulted := external.isSome
    scripts := scripts.length
    nodes := linking.graph.size
    edges := linking.graph.edgeCount }

end ScriptSuite.Suite
