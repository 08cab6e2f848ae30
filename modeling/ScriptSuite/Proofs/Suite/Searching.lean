import ScriptSuite.Proofs.EmbedGraph.Building
import ScriptSuite.Proofs.EmbedGraph.Events
import ScriptSuite.Proofs.Suite.Linking

/-!
# Proofs/Suite/Searching — the search for circles of embeds always comes through

A search of a graph that was built ends, and it comes through exactly when all edges lead to nodes
(`search_ends`).  The graph that a check searches was built, since embeds are followed from the node
of their script (`built_link`), and only to nodes; so a check never fails, whatever the suite.
-/

namespace ScriptSuite.Suite

open EmbedGraph EmbedGraph.Search

/-! ## The graph of a suite -/

/-- Following the embeds of a node builds on the graph. -/
theorem built_foldl_embed {consulted : Bool} {s : Script} {source : Nat} (es : List (Nat × Embed))
    {l : Linking} (h : l.graph.Built) (hsource : source < l.graph.size) :
    (es.foldl (Linking.embed consulted s source) l).graph.Built := by
  induction es generalizing l with
  | nil => exact h
  | cons e es ih =>
    rw [List.foldl_cons]
    cases he : l.graph.node? e.2.target with
    | some target =>
      rw [Linking.embed, he]
      exact ih (h.addEdge hsource target) hsource
    | none =>
      rw [Linking.embed, he]
      exact ih h hsource

theorem built_addNodes {g : EmbedGraph} (h : g.Built) (ids : List String) :
    (g.addNodes ids).Built := by
  induction ids generalizing g with
  | nil => exact h
  | cons id ids ih => exact ih (h.addNode id)

/-- **The graph that a check searches** was built by adding nodes, and edges that leave nodes. -/
theorem built_link (scripts : List Script) (external : Option (List ExternalScript))
    (unloaded : List String) : (link scripts external unloaded).graph.Built := by
  have hscripts : ∀ (l : Linking), l.graph.Built →
      (scripts.foldl (Linking.script external.isSome) l).graph.Built := by
    induction scripts with
    | nil => exact fun _ hl => hl
    | cons s rest ih =>
      exact fun l hl => ih _ (built_foldl_embed s.embeds (l := { l with graph := _ })
        (hl.addNode s.id) (hl.coherent.addNode_lt s.id))
  exact hscripts _ (built_addNodes (built_addNodes (built_addNodes .empty _) _) _)

/-! ## Searches -/

/-- **Every search of a graph that was built ends**, and it comes through exactly when all edges
lead to nodes.  On its way it numbers no node twice and looks at no edge twice, and its events say
what becomes of the stack.  When it comes through, each node has gone on the stack and off it once,
and the stack is empty behind each root; otherwise it breaks off at the first edge that leads to no
node.  The graph of a suite is searched through, whatever the suite, and all that is found are its
nodes. -/
theorem search_ends :
    (∀ g : EmbedGraph, g.Built →
      (∃ log result, Runs g (List.range g.size) (ofGraph g) log result) ∧
      (∀ s t : Search, s.step g = .next t →
        closedIn (s.events g) ++ t.stack = enteredIn (s.events g) ++ s.stack ∧
          t.count = s.count + (enteredIn (s.events g)).length) ∧
      ∀ log result, Runs g (List.range g.size) (ofGraph g) log result →
        g.components? = result.map (fun t => t.found.reverse) ∧
        (enteredIn log).Nodup ∧ (lookedIn log).Nodup ∧
        (∀ v ∈ enteredIn log, v < g.size ∧ v < g.edges.size) ∧
        (result.isSome = true ↔ g.Closed) ∧
        (g.Closed → Complete g log ∧ ∀ n ≤ g.size, ∃ t : Search,
          visitAll g (List.range n) (ofGraph g) = some t ∧ t.frames = [] ∧ t.stack = []) ∧
        (¬ g.Closed → BrokenOff g log)) ∧
    ∀ (scripts : List Script) (external : Option (List ExternalScript)) (unloaded : List String),
      let g := (link (ordered scripts) external unloaded).graph
      g.Built ∧ ∃ cs, g.components? = some cs ∧
        ∀ c ∈ cs, ∀ v ∈ c, (g.name? v).isSome = true ∧ (g.hasSelfLoop? v).isSome = true := by
  refine ⟨fun g hg => ⟨?_, fun s t => stack_of_step, fun log result hruns => ?_⟩,
    fun scripts external unloaded => ?_⟩
  · obtain ⟨log, hlog⟩ := exists_runs g (List.range g.size) (ofGraph g) rfl
    exact ⟨log, _, hlog⟩
  · have hconcluded : Concluded g (List.range g.size) log result :=
      hruns.concluded (logged_ofGraph g)
    obtain ⟨hentered, hlooked, hlt⟩ := hconcluded.nodup
    have hresult := hruns.result_eq
    rw [run_of_frames_eq_nil rfl, Option.bind_some] at hresult
    refine ⟨by rw [components?, hresult], hentered, hlooked,
      fun v hv => ⟨hlt v hv, hg.coherent.size_edges ▸ hlt v hv⟩, ?_⟩
    cases result with
    | some t =>
      obtain ⟨hclosed, hcomplete⟩ := hconcluded.complete
      refine ⟨iff_of_true rfl hclosed, fun _ => ⟨hcomplete, fun n _ => ?_⟩,
        fun hnot => absurd hclosed hnot⟩
      obtain ⟨t, ht, hsound, hframes, -, -⟩ :=
        (Sound.ofGraph g).visitAll hclosed (List.range n) rfl
      exact ⟨t, ht, hframes, hsound.stack_eq_nil hframes⟩
    | none =>
      obtain ⟨hnot, hbroken⟩ := hconcluded.brokenOff
      exact ⟨iff_of_false Bool.false_ne_true hnot, fun hclosed => absurd hclosed hnot,
        fun _ => hbroken⟩
  · intro g
    have hbuilt : g.Built := built_link (ordered scripts) external unloaded
    have hclosed : g.Closed := (linked_link (ordered scripts) external unloaded).closed
    obtain ⟨cs, hcs, hcomponents⟩ := components?_correct hclosed
    refine ⟨hbuilt, cs, hcs, fun c hc v hv => ?_⟩
    have hnode : v < g.size := List.mem_range.mp
      (hcomponents.partition.mem_iff.mp (List.mem_flatten.mpr ⟨c, hc, hv⟩))
    have hedges : v < g.edges.size := hbuilt.coherent.size_edges ▸ hnode
    rw [name?, hasSelfLoop?, Option.isSome_map, Array.getElem?_eq_getElem hnode,
      Array.getElem?_eq_getElem hedges]
    exact ⟨rfl, rfl⟩

/-- An id that embeds itself, and then a number that is no node. -/
def dangling : EmbedGraph := ((empty.addNode "a").1.addEdge 0 0).addEdge 0 7

/-- The search of it breaks off at the second edge of its node. -/
theorem search_ends_dangling : dangling.Built ∧ ¬ dangling.Closed ∧
    dangling.components? = none ∧ ∃ log,
      Runs dangling (List.range dangling.size) (ofGraph dangling) log none ∧
        BrokenOff dangling log := by
  have hnode : empty.node? "a" = none := by simp [node?, empty]
  have hone : (empty.addNode "a").1.size = 1 := by
    rw [addNode_of_none hnode]
    rfl
  have hsize : dangling.size = 1 := by rw [dangling, size_addEdge, size_addEdge, hone]
  have htargets : dangling.targets 0 = [0, 7] := by
    rw [dangling, addNode_of_none hnode]
    simp [targets, addEdge, empty]
  have hbuilt : dangling.Built :=
    ((Built.empty.addNode "a").addEdge (hone ▸ Nat.one_pos) 0).addEdge (hone ▸ Nat.one_pos) 7
  have hnot : ¬ dangling.Closed := fun hclosed => by
    have hlt := hclosed 0 (by simp [hsize]) 7 (by simp [htargets])
    simp [hsize] at hlt
  obtain ⟨⟨log, result, hruns⟩, -, hall⟩ := search_ends.1 dangling hbuilt
  obtain ⟨hresult, -, -, -, hsome, -, hbroken⟩ := hall log result hruns
  obtain rfl : result = none := by
    cases result with
    | none => rfl
    | some t => exact absurd (hsome.mp rfl) hnot
  exact ⟨hbuilt, hnot, hresult, log, hruns, hbroken hnot⟩

end ScriptSuite.Suite
