import ScriptSuite.Proofs.EmbedGraph.Peeling

/-!
# Proofs/EmbedGraph/Arena — ids, their numbers, and the edges between them

A graph that was built by adding nodes and edges is **coherent** (`Coherent`): an id and its number
determine each other, and every node has its list of edges.  Here is what adding a node and adding
an edge do to the numbers, the names and the edges of a graph; nobody else has to look inside.
-/

namespace ScriptSuite.EmbedGraph

variable {g : EmbedGraph} {id : String} {i j : Nat}

/-- **A coherent graph**: its three tables are in step. -/
structure Coherent (g : EmbedGraph) : Prop where
  node?_eq_some : ∀ id i, g.node? id = some i ↔ g.name? i = some id
  size_edges : g.edges.size = g.size

theorem name?_lt (h : g.name? i = some id) : i < g.size :=
  (Array.getElem?_eq_some_iff.mp h).1

theorem exists_name? (h : i < g.size) : ∃ id, g.name? i = some id :=
  ⟨_, Array.getElem?_eq_getElem h⟩

/-! ## Adding a node -/

theorem addNode_of_some (h : g.node? id = some i) : g.addNode id = (g, i) := by
  unfold addNode
  rw [show g.index[id]? = some i from h]

theorem addNode_of_none (h : g.node? id = none) : g.addNode id =
    ({ names := g.names.push id, index := g.index.insert id g.size, edges := g.edges.push #[] },
      g.size) := by
  unfold addNode
  rw [show g.index[id]? = none from h]
  rfl

/-- The new node has the number that is given for it, and all other ids keep theirs. -/
theorem node?_addNode (g : EmbedGraph) (id id' : String) :
    (g.addNode id).1.node? id' = if id = id' then some (g.addNode id).2 else g.node? id' := by
  cases h : g.node? id with
  | some i =>
    rw [addNode_of_some h]
    by_cases hid : id = id'
    · rw [if_pos hid, ← hid, h]
    · rw [if_neg hid]
  | none =>
    rw [addNode_of_none h]
    simp [node?, Std.HashMap.getElem?_insert]

@[simp] theorem targets_addNode (g : EmbedGraph) (id : String) (i : Nat) :
    (g.addNode id).1.targets i = g.targets i := by
  cases h : g.node? id with
  | some k => rw [addNode_of_some h]
  | none =>
    rw [addNode_of_none h]
    simp only [targets, Array.getD_eq_getD_getElem?, Array.getElem?_push]
    by_cases hi : i = g.edges.size
    · simp [hi]
    · simp [hi]

theorem size_le_size_addNode (g : EmbedGraph) (id : String) : g.size ≤ (g.addNode id).1.size := by
  cases h : g.node? id with
  | some k => simp [addNode_of_some h]
  | none => simp [addNode_of_none h, size]

theorem Coherent.addNode (h : Coherent g) (id : String) : Coherent (g.addNode id).1 := by
  cases hid : g.node? id with
  | some i => rwa [addNode_of_some hid]
  | none =>
    have hnew : ∀ i, g.name? i ≠ some id := fun i hi => by
      simp [(h.node?_eq_some id i).mpr hi] at hid
    refine ⟨fun id' i => ?_, by simpa [addNode_of_none hid, size] using h.size_edges⟩
    rw [node?_addNode, addNode_of_none hid]
    simp only [name?, Array.getElem?_push, show g.names.size = g.size from rfl]
    by_cases hi : i = g.size
    · have hnot : g.node? id' ≠ some g.size := fun h' =>
        Nat.lt_irrefl _ (name?_lt ((h.node?_eq_some id' g.size).mp h'))
      subst hi
      by_cases hid' : id = id' <;> simp [hid', hnot]
    · rw [if_neg hi]
      by_cases hid' : id = id'
      · subst hid'
        simpa [Ne.symm hi, name?] using hnew i
      · rw [if_neg hid']
        exact h.node?_eq_some id' i

theorem Coherent.node?_lt (h : Coherent g) (hi : g.node? id = some i) : i < g.size :=
  name?_lt ((h.node?_eq_some id i).mp hi)

/-- No two nodes have one id. -/
theorem Coherent.name?_inj (h : Coherent g) (hi : g.name? i = some id) (hj : g.name? j = some id) :
    i = j :=
  Option.some.inj (((h.node?_eq_some id i).mpr hi).symm.trans ((h.node?_eq_some id j).mpr hj))

theorem Coherent.empty : Coherent empty where
  node?_eq_some id i := by simp [node?, name?, EmbedGraph.empty]
  size_edges := rfl

theorem Coherent.targets_eq_nil (h : Coherent g) (hi : g.size ≤ i) : g.targets i = [] := by
  rw [← h.size_edges] at hi
  simp [targets, hi]

/-- Only nodes have edges that leave them. -/
theorem Coherent.lt_of_edge (h : Coherent g) (hedge : g.Edge i j) : i < g.size := by
  by_contra hi
  rw [Edge, h.targets_eq_nil (Nat.le_of_not_lt hi)] at hedge
  exact List.not_mem_nil hedge

theorem Closed.empty : Closed empty := fun v hv => absurd hv (Nat.not_lt_zero v)

theorem Closed.addNode (h : Closed g) (hc : Coherent g) (id : String) :
    Closed (g.addNode id).1 := by
  intro v _ w hw
  rw [targets_addNode] at hw
  refine Nat.lt_of_lt_of_le ?_ (size_le_size_addNode g id)
  by_cases hv : v < g.size
  · exact h v hv w hw
  · simp [hc.targets_eq_nil (Nat.le_of_not_lt hv)] at hw

/-! ## Adding an edge -/

@[simp] theorem size_addEdge (g : EmbedGraph) (i j : Nat) : (g.addEdge i j).size = g.size := rfl

@[simp] theorem node?_addEdge (g : EmbedGraph) (i j : Nat) (id : String) :
    (g.addEdge i j).node? id = g.node? id := rfl

@[simp] theorem name?_addEdge (g : EmbedGraph) (i j k : Nat) :
    (g.addEdge i j).name? k = g.name? k := rfl

theorem targets_addEdge (g : EmbedGraph) (i j k : Nat) : (g.addEdge i j).targets k =
    g.targets k ++ if k = i ∧ i < g.edges.size then [j] else [] := by
  simp only [targets, addEdge, Array.getD_eq_getD_getElem?, Array.getElem?_modify]
  by_cases hk : k = i
  · subst hk
    by_cases hi : k < g.edges.size <;> simp [hi]
  · simp [hk, Ne.symm hk]

theorem Coherent.addEdge (h : Coherent g) (i j : Nat) : Coherent (g.addEdge i j) where
  node?_eq_some := h.node?_eq_some
  size_edges := (Array.size_modify ..).trans h.size_edges

theorem Closed.addEdge (h : Closed g) (i : Nat) (hj : j < g.size) : Closed (g.addEdge i j) := by
  intro v hv w hw
  rw [targets_addEdge, List.mem_append] at hw
  rcases hw with hw | hw
  · exact h v hv w hw
  · obtain rfl : w = j := by
      by_cases hvi : v = i ∧ i < g.edges.size
      · simpa [hvi] using hw
      · simp [hvi] at hw
    exact hj

/-! ## Adding several nodes, and several edges from one node -/

theorem node?_addNodes (g : EmbedGraph) (ids : List String) :
    (∃ i, (g.addNodes ids).node? id = some i) ↔ (∃ i, g.node? id = some i) ∨ id ∈ ids := by
  induction ids generalizing g with
  | nil => simp [addNodes]
  | cons id' ids ih =>
    rw [show g.addNodes (id' :: ids) = (g.addNode id').1.addNodes ids from rfl, ih, node?_addNode,
      List.mem_cons]
    by_cases hid : id' = id
    · simp [hid]
    · simp [hid, Ne.symm hid]

theorem targets_addNodes (g : EmbedGraph) (ids : List String) (i : Nat) :
    (g.addNodes ids).targets i = g.targets i := by
  induction ids generalizing g with
  | nil => rfl
  | cons id ids ih => exact (ih (g.addNode id).1).trans (targets_addNode g id i)

theorem Coherent.addNodes (h : Coherent g) (ids : List String) : Coherent (g.addNodes ids) := by
  induction ids generalizing g with
  | nil => exact h
  | cons id ids ih => exact ih (h.addNode id)

theorem Closed.addNodes (h : Closed g) (hc : Coherent g) (ids : List String) :
    Closed (g.addNodes ids) := by
  induction ids generalizing g with
  | nil => exact h
  | cons id ids ih => exact ih (h.addNode hc id) (hc.addNode id)

/-- The graph with edges more from one node. -/
def addEdges (g : EmbedGraph) (i : Nat) (js : List Nat) : EmbedGraph :=
  js.foldl (fun g j => g.addEdge i j) g

@[simp] theorem node?_addEdges (g : EmbedGraph) (i : Nat) (js : List Nat) (id : String) :
    (g.addEdges i js).node? id = g.node? id := by
  induction js generalizing g with
  | nil => rfl
  | cons j js ih => exact ih (g.addEdge i j)

theorem Coherent.addEdges (h : Coherent g) (i : Nat) (js : List Nat) :
    Coherent (g.addEdges i js) := by
  induction js generalizing g with
  | nil => exact h
  | cons j js ih => exact ih (h.addEdge i j)

theorem Closed.addEdges (h : Closed g) (i : Nat) {js : List Nat} (hjs : ∀ j ∈ js, j < g.size) :
    Closed (g.addEdges i js) := by
  induction js generalizing g with
  | nil => exact h
  | cons j js ih =>
    exact ih (h.addEdge i (hjs j List.mem_cons_self)) fun k hk => hjs k (List.mem_cons_of_mem _ hk)

/-- Edges are added behind those that a node has. -/
theorem Coherent.targets_addEdges (h : Coherent g) (hi : i < g.size) (js : List Nat) (k : Nat) :
    (g.addEdges i js).targets k = g.targets k ++ if k = i then js else [] := by
  induction js generalizing g with
  | nil => simp [EmbedGraph.addEdges]
  | cons j js ih =>
    rw [show g.addEdges i (j :: js) = (g.addEdge i j).addEdges i js from rfl,
      ih (h.addEdge i j) hi, targets_addEdge, h.size_edges]
    by_cases hk : k = i <;> simp [hk, hi]

/-! ## Linking two ids -/

/-- The number that is given for a new node is the number of a node. -/
theorem Coherent.addNode_lt (h : Coherent g) (id : String) :
    (g.addNode id).2 < (g.addNode id).1.size :=
  (h.addNode id).node?_lt (by rw [node?_addNode, if_pos rfl])

theorem Coherent.link (h : Coherent g) (source target : String) :
    Coherent (g.link source target).1 :=
  ((h.addNode source).addNode target).addEdge _ _

theorem Closed.link (h : Closed g) (hc : Coherent g) (source target : String) :
    Closed (g.link source target).1 :=
  have hc' := hc.addNode source
  ((h.addNode hc source).addNode hc' target).addEdge _ (hc'.addNode_lt target)

end ScriptSuite.EmbedGraph
