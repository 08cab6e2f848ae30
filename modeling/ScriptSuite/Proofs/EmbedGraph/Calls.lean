import ScriptSuite.Proofs.EmbedGraph.Building
import ScriptSuite.Proofs.EmbedGraph.Counting

/-!
# Proofs/EmbedGraph/Calls — a graph under any calls

Nodes and edges are added in any order (`Call`), and a call that asks for an edge from a number that
is no node fails and changes nothing.  What a graph holds after some calls is told by the edges that
were made by them (`Arena`): each call keeps this account (`Arena.perform`), so it is right after
every sequence of calls (`arena_performAll`).  No call takes a number away from an id
(`node?_performAll_of_some`), so whoever was given a number may use it for good.
-/

namespace ScriptSuite.EmbedGraph

variable {g : EmbedGraph} {id : String} {i : Nat} {made : List (Nat × Nat)}

/-! ## Calls -/

/-- **A call that changes a graph.** -/
inductive Call where
  | addNode (id : String)
  | addEdge (source target : Nat)
  deriving DecidableEq, Repr

/-- The graph after a call; a call that fails leaves it as it is. -/
def perform (g : EmbedGraph) : Call → EmbedGraph
  | .addNode id => (g.addNode id).1
  | .addEdge i j => (g.addEdge? i j).getD g

/-- The graph after some calls, one after the other. -/
def performAll (g : EmbedGraph) (calls : List Call) : EmbedGraph := calls.foldl perform g

/-- The edge that a call makes, unless it fails. -/
def made? (g : EmbedGraph) : Call → Option (Nat × Nat)
  | .addNode _ => none
  | .addEdge i j => (g.addEdge? i j).map fun _ => (i, j)

/-- **The edges that some calls make**, in the order of the calls. -/
def madeBy (g : EmbedGraph) : List Call → List (Nat × Nat)
  | [] => []
  | call :: calls => (g.made? call).toList ++ (g.perform call).madeBy calls

/-! ## Numbers stay -/

/-- **No call takes a number away.** -/
theorem node?_perform_of_some (h : g.node? id = some i) (call : Call) :
    (g.perform call).node? id = some i := by
  cases call with
  | addNode id' => exact node?_addNode_of_some h id'
  | addEdge source target =>
    rw [perform, addEdge?]
    split <;> exact h

theorem node?_performAll_of_some (h : g.node? id = some i) (calls : List Call) :
    (g.performAll calls).node? id = some i := by
  induction calls generalizing g with
  | nil => exact h
  | cons call calls ih => exact ih (node?_perform_of_some h call)

/-! ## The account of a graph -/

/-- **What a graph holds** when these edges were made: ids and numbers that determine each other,
and for each node the targets of its edges, in the order in which they were made. -/
structure Arena (g : EmbedGraph) (made : List (Nat × Nat)) : Prop extends Coherent g where
  targets_eq : ∀ i, g.targets i = (made.filter (·.1 = i)).map Prod.snd
  source_lt : ∀ e ∈ made, e.1 < g.size

theorem arena_empty : Arena empty [] where
  toCoherent := Coherent.empty
  targets_eq i := by simp [targets, empty]
  source_lt := List.forall_mem_nil _

/-- **Each call keeps the account.** -/
theorem Arena.perform (h : Arena g made) (call : Call) :
    Arena (g.perform call) (made ++ (g.made? call).toList) := by
  cases call with
  | addNode id =>
    rw [made?, Option.toList_none, List.append_nil]
    exact ⟨h.toCoherent.addNode id, fun i => (targets_addNode g id i).trans (h.targets_eq i),
      fun e he => Nat.lt_of_lt_of_le (h.source_lt e he) (size_le_size_addNode g id)⟩
  | addEdge source target =>
    rw [EmbedGraph.perform, made?, addEdge?]
    by_cases hsource : source < g.edges.size
    · rw [if_pos hsource, Option.getD_some, Option.map_some, Option.toList_some]
      refine ⟨h.toCoherent.addEdge source target, fun i => ?_, fun e he => ?_⟩
      · rw [targets_addEdge, h.targets_eq, List.filter_append, List.map_append]
        by_cases hi : i = source
        · simp [hi, hsource]
        · simp [hi, Ne.symm hi]
      · rw [size_addEdge]
        rcases List.mem_append.mp he with he | he
        · exact h.source_lt e he
        · rw [List.mem_singleton.mp he, ← h.size_edges]
          exact hsource
    · rw [if_neg hsource, Option.getD_none, Option.map_none, Option.toList_none, List.append_nil]
      exact h

theorem Arena.performAll (h : Arena g made) (calls : List Call) :
    Arena (g.performAll calls) (made ++ g.madeBy calls) := by
  induction calls generalizing g made with
  | nil => rwa [madeBy, List.append_nil]
  | cons call calls ih =>
    rw [madeBy, ← List.append_assoc]
    exact ih (h.perform call)

/-- Edges are as many as there are at each of their sources. -/
theorem sum_length_filter {n : Nat} {es : List (Nat × Nat)} (h : ∀ e ∈ es, e.1 < n) :
    ∑ i ∈ Finset.range n, (es.filter (·.1 = i)).length = es.length := by
  induction es with
  | nil => simp
  | cons e es ih =>
    obtain ⟨he, hes⟩ := List.forall_mem_cons.mp h
    have hone : ∑ i ∈ Finset.range n, (if e.1 = i then 1 else 0) = 1 := by
      rw [Finset.sum_ite_eq, if_pos (Finset.mem_range.mpr he)]
    rw [List.length_cons, ← ih hes, ← hone, ← Finset.sum_add_distrib]
    refine Finset.sum_congr rfl fun i _ => ?_
    by_cases hi : e.1 = i <;> simp [hi]

theorem Arena.edgeCount_eq (h : Arena g made) : g.edgeCount = made.length := by
  rw [h.edgeCount_eq_sum, ← sum_length_filter h.source_lt]
  simp only [h.targets_eq, List.length_map]

/-- The ids that are nodes are the names. -/
theorem Coherent.contains_iff (h : g.Coherent) : g.contains id = true ↔ id ∈ g.names := by
  have hcontains : g.contains id = (g.node? id).isSome := by
    rw [contains, node?, Std.HashMap.isSome_getElem?_eq_contains]
  rw [hcontains, Option.isSome_iff_exists, Array.mem_iff_getElem?]
  exact exists_congr fun i => h.node?_eq_some id i

/-- An edge is made when its source is a node, and only then. -/
theorem Coherent.isSome_made?_addEdge (h : g.Coherent) (i j : Nat) :
    (g.made? (.addEdge i j)).isSome = true ↔ i < g.size := by
  rw [made?, Option.isSome_map, addEdge?, h.size_edges]
  by_cases hi : i < g.size <;> simp [hi]

/-- **After any calls** no id is named twice, ids and numbers determine each other, every node has
its list of edges, and what is in the lists are the edges that were made, in order; an edge is made
by each call for one that leaves a node.  Numbers are given for good: an id that has one is not
added again and keeps it whatever is called later. -/
theorem arena_performAll (calls : List Call) :
    let g := empty.performAll calls
    let made := empty.madeBy calls
    g.names.toList.Nodup ∧
    (∀ id, g.contains id = true ↔ id ∈ g.names) ∧
    (∀ id i, g.node? id = some i ↔ g.name? i = some id) ∧
    g.edges.size = g.names.size ∧
    (∀ i, g.targets i = (made.filter (·.1 = i)).map Prod.snd) ∧
    g.edgeCount = made.length ∧
    (∀ i j, (g.made? (.addEdge i j)).isSome = true ↔ i < g.size) ∧
    (∀ id i, g.node? id = some i → g.addNode id = (g, i)) ∧
    (∀ id i, g.node? id = some i → ∀ more,
      (g.performAll more).node? id = some i ∧ (g.performAll more).name? i = some id) ∧
    ∀ id more, let g' := (g.perform (.addNode id)).performAll more
      g'.node? id = some (g.addNode id).2 ∧ g'.name? (g.addNode id).2 = some id := by
  intro g made
  have h : Arena g made := arena_empty.performAll calls
  -- a number that is known now is known after any more calls, and then it has its name
  have hstays : ∀ (g : EmbedGraph) (made : List (Nat × Nat)), Arena g made → ∀ id i,
      g.node? id = some i → ∀ more,
        (g.performAll more).node? id = some i ∧ (g.performAll more).name? i = some id := by
    intro g made h id i hid more
    have hlater := node?_performAll_of_some hid more
    exact ⟨hlater, ((h.performAll more).node?_eq_some id i).mp hlater⟩
  exact ⟨h.nodup_names, fun _ => h.contains_iff, h.node?_eq_some, h.size_edges, h.targets_eq,
    h.edgeCount_eq, h.isSome_made?_addEdge, fun _ _ => addNode_of_some, hstays g made h,
    fun id => hstays _ _ (h.perform (.addNode id)) id _ (node?_addNode_self g id)⟩

/-- An id is added twice, and an edge is asked for from a number that is no node yet; an edge that
leads to no node is made. -/
theorem arena_performAll_refused :
    let calls : List Call := [.addNode "a", .addEdge 0 7, .addEdge 1 0, .addNode "b", .addNode "a",
      .addEdge 0 1]
    let g := empty.performAll calls
    g.names = #["a", "b"] ∧ empty.madeBy calls = [(0, 7), (0, 1)] ∧ g.targets 0 = [7, 1] ∧
      g.edgeCount = 2 ∧ g.node? "a" = some 0 ∧ g.made? (.addEdge 2 0) = none := by
  intro calls g
  have hnames : g.names = #["a", "b"] := by
    simp [g, calls, performAll, perform, addEdge?, addNode, empty, addEdge]
  have hmade : empty.madeBy calls = [(0, 7), (0, 1)] := by
    simp [calls, madeBy, made?, perform, addEdge?, addNode, empty, addEdge]
  obtain ⟨-, -, hindex, -, htargets, hcount, hsome, -⟩ := arena_performAll calls
  refine ⟨hnames, hmade, (htargets 0).trans (by rw [hmade]; decide),
    hcount.trans (by rw [hmade]; rfl), (hindex "a" 0).mpr (by rw [name?, hnames]; rfl), ?_⟩
  exact Option.not_isSome_iff_eq_none.mp fun h =>
    absurd ((hsome 2 0).mp h) (by rw [size, hnames]; decide)

end ScriptSuite.EmbedGraph
