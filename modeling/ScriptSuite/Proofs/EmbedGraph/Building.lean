import ScriptSuite.Proofs.EmbedGraph.Circles

/-!
# Proofs/EmbedGraph/Building — graphs that are built by adding nodes and edges

A graph is built from the graph without nodes, by adding nodes and by adding edges that leave nodes
(`Built`), so it is coherent (`Built.coherent`).  An edge may be given a target that is no node.
Where that was not done, a node that is added has no edges to begin with
(`Closed.namedEdge_addNode`), and to link two ids adds an edge between them and none elsewhere
(`Closed.namedEdge_link`).
-/

namespace ScriptSuite.EmbedGraph

variable {g : EmbedGraph} {a b id source target : String} {i j : Nat}

/-- **A graph that was built**, with its nodes and edges in any order of adding. -/
inductive Built : EmbedGraph → Prop
  | empty : Built empty
  | addNode {g : EmbedGraph} (h : Built g) (id : String) : Built (g.addNode id).1
  | addEdge {g : EmbedGraph} (h : Built g) {i : Nat} (hi : i < g.size) (j : Nat) :
      Built (g.addEdge i j)

theorem Built.coherent (h : Built g) : g.Coherent := by
  induction h with
  | empty => exact Coherent.empty
  | addNode _ id ih => exact ih.addNode id
  | addEdge _ _ j ih => exact ih.addEdge _ j

/-! ## Edges between ids -/

theorem name?_addNode_of_lt (g : EmbedGraph) (id : String) (hi : i < g.size) :
    (g.addNode id).1.name? i = g.name? i := by
  cases h : g.node? id with
  | some k => rw [addNode_of_some h]
  | none =>
    rw [addNode_of_none h]
    exact Array.getElem?_push_lt hi |>.trans (Array.getElem?_eq_getElem hi).symm

/-- **A new node has no edges.** -/
theorem Closed.namedEdge_addNode (h : g.Closed) (hc : g.Coherent) (id : String) :
    (g.addNode id).1.NamedEdge a b ↔ g.NamedEdge a b := by
  refine exists_congr fun v => exists_congr fun w => ?_
  simp only [Edge, targets_addNode, ← and_assoc]
  refine and_congr_left fun hedge => ?_
  have hv : v < g.size := hc.lt_of_edge hedge
  rw [name?_addNode_of_lt g id hv, name?_addNode_of_lt g id (h v hv w hedge)]

theorem Coherent.namedEdge_addEdge (h : g.Coherent) (hi : i < g.size) (j : Nat) :
    (g.addEdge i j).NamedEdge a b ↔
      g.NamedEdge a b ∨ g.name? i = some a ∧ g.name? j = some b := by
  have hedge : ∀ v w, (g.addEdge i j).Edge v w ↔ g.Edge v w ∨ v = i ∧ w = j := by
    intro v w
    rw [Edge, targets_addEdge, h.size_edges, List.mem_append]
    by_cases hv : v = i <;> simp [hv, hi, Edge]
  simp only [NamedEdge, name?_addEdge, hedge]
  constructor
  · rintro ⟨v, w, hv, hw, hvw | ⟨rfl, rfl⟩⟩
    · exact .inl ⟨v, w, hv, hw, hvw⟩
    · exact .inr ⟨hv, hw⟩
  · rintro (⟨v, w, hv, hw, hvw⟩ | ⟨hv, hw⟩)
    · exact ⟨v, w, hv, hw, .inl hvw⟩
    · exact ⟨i, j, hv, hw, .inr ⟨rfl, rfl⟩⟩

/-! ## Linking two ids -/

theorem node?_addNode_self (g : EmbedGraph) (id : String) :
    (g.addNode id).1.node? id = some (g.addNode id).2 := by
  rw [node?_addNode, if_pos rfl]

/-- An id keeps the number that it was given. -/
theorem node?_addNode_of_some (h : g.node? a = some i) (id : String) :
    (g.addNode id).1.node? a = some i := by
  rw [node?_addNode]
  split
  · next hid => rw [addNode_of_some (hid ▸ h)]
  · exact h

theorem Built.link (h : Built g) (source target : String) : Built (g.link source target).1 :=
  have hlt := (h.coherent.addNode source).addNode target |>.node?_lt
    (node?_addNode_of_some (node?_addNode_self g source) target)
  ((h.addNode source).addNode target).addEdge hlt _

/-- **Linking two ids** adds the edge between them. -/
theorem Closed.namedEdge_link (h : g.Closed) (hc : g.Coherent) (source target : String) :
    (g.link source target).1.NamedEdge a b ↔ g.NamedEdge a b ∨ a = source ∧ b = target := by
  have hc' := hc.addNode source
  have hc'' := hc'.addNode target
  have hsource := node?_addNode_of_some (node?_addNode_self g source) target
  have htarget := node?_addNode_self (g.addNode source).1 target
  rw [EmbedGraph.link, hc''.namedEdge_addEdge (hc''.node?_lt hsource),
    (h.addNode hc source).namedEdge_addNode hc', h.namedEdge_addNode hc,
    (hc''.node?_eq_some _ _).mp hsource, (hc''.node?_eq_some _ _).mp htarget]
  simp only [Option.some.injEq, eq_comm]

theorem not_namedEdge_empty : ¬ empty.NamedEdge a b := by
  rintro ⟨v, w, hv, -⟩
  exact absurd (name?_lt hv) (Nat.not_lt_zero v)

/-! ## Graphs of links -/

/-- **The graph of some links**, which are made one after the other. -/
def ofLinks (links : List (String × String)) : EmbedGraph :=
  links.foldl (fun g link => (g.link link.1 link.2).1) empty

theorem ofLinks_snoc (links : List (String × String)) (source target : String) :
    ofLinks (links ++ [(source, target)]) = ((ofLinks links).link source target).1 :=
  List.foldl_append ..

theorem built_ofLinks (links : List (String × String)) : (ofLinks links).Built := by
  induction links using List.reverseRecOn with
  | nil => exact .empty
  | append_singleton links link ih => exact ofLinks_snoc links .. ▸ ih.link link.1 link.2

theorem closed_ofLinks (links : List (String × String)) : (ofLinks links).Closed := by
  induction links using List.reverseRecOn with
  | nil => exact .empty
  | append_singleton links link ih =>
    exact ofLinks_snoc links .. ▸ ih.link (built_ofLinks links).coherent link.1 link.2

/-- **The edges of a graph of links** are its links, whatever their order and however often they are
made. -/
theorem namedEdge_ofLinks (links : List (String × String)) :
    (ofLinks links).NamedEdge a b ↔ (a, b) ∈ links := by
  induction links using List.reverseRecOn with
  | nil => simpa [ofLinks] using not_namedEdge_empty
  | append_singleton links link ih =>
    rw [ofLinks_snoc, (closed_ofLinks links).namedEdge_link (built_ofLinks links).coherent, ih,
      List.mem_append, List.mem_singleton, Prod.mk.injEq]

end ScriptSuite.EmbedGraph
