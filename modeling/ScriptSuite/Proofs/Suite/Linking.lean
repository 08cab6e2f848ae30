import ScriptSuite.Proofs.EmbedGraph.Arena
import ScriptSuite.Suite.Check

/-!
# Proofs/Suite/Linking — what the check makes of ids and embeds

Two passes of the check are folds that carry a table along.  Here each is told as a list: the faults
of the first pass are those of the scripts whose id an earlier one has (`duplicates_eq`), and the
graph that the second pass leaves has, for each script in turn, an edge for each embed of a known
id, in the order of the steps (`linked_link`).
-/

namespace ScriptSuite.Suite

/-! ## Duplicate ids -/

/-- The faults of scripts that come behind `earlier` ones. -/
def duplicatesAfter (earlier : List Script) : List Script → List SuiteFault
  | [] => []
  | s :: rest =>
    ((earlier.find? (·.id = s.id)).map fun first =>
      SuiteFault.duplicateId s.id s.location first.location).toList ++
        duplicatesAfter (earlier ++ [s]) rest

/-- The first script with an id, when one more script is looked at. -/
theorem find?_snoc (earlier : List Script) (s : Script) (id : String) :
    (earlier ++ [s]).find? (·.id = id) =
      (earlier.find? (·.id = id)).or (if s.id = id then some s else none) := by
  rw [List.find?_append, List.find?_cons, List.find?_nil]
  by_cases hid : s.id = id <;> simp [hid]

/-- **The table of the census** tells the location of the first script with an id. -/
theorem foldl_see (c : Census) (earlier scripts : List Script)
    (h : ∀ id, c.first[id]? = (earlier.find? (·.id = id)).map (·.location)) :
    (scripts.foldl Census.see c).faults.reverse =
      c.faults.reverse ++ duplicatesAfter earlier scripts := by
  induction scripts generalizing c earlier with
  | nil => simp [duplicatesAfter]
  | cons s rest ih =>
    rw [List.foldl_cons, duplicatesAfter]
    have hs := h s.id
    cases hfirst : earlier.find? (·.id = s.id) with
    | some first =>
      rw [hfirst] at hs
      have hsee : c.see s =
          { c with faults := .duplicateId s.id s.location first.location :: c.faults } := by
        simp [Census.see, hs]
      rw [hsee, ih _ (earlier ++ [s]) fun id => ?_]
      · simp
      · rw [find?_snoc, h id]
        by_cases hid : s.id = id
        · rw [← hid, hfirst, Option.some_or]
        · rw [if_neg hid, Option.or_none]
    | none =>
      rw [hfirst] at hs
      have hsee : c.see s = { c with first := c.first.insert s.id s.location } := by
        simp [Census.see, hs]
      rw [hsee, ih _ (earlier ++ [s]) fun id => ?_]
      · simp
      · rw [find?_snoc, Std.HashMap.getElem?_insert, h id]
        by_cases hid : s.id = id
        · simp [← hid, hfirst]
        · simp [hid]

theorem duplicates_eq (scripts : List Script) :
    duplicates scripts = duplicatesAfter [] scripts := by
  simpa [duplicates] using foldl_see {} [] scripts (by simp)

/-- No script has the id of an earlier one exactly when all ids are different. -/
theorem duplicatesAfter_eq_nil (earlier scripts : List Script) :
    duplicatesAfter earlier scripts = [] ↔
      (scripts.map (·.id)).Nodup ∧ ∀ s ∈ scripts, s.id ∉ earlier.map (·.id) := by
  induction scripts generalizing earlier with
  | nil => simp [duplicatesAfter]
  | cons s rest ih =>
    rw [duplicatesAfter, List.append_eq_nil_iff, ih]
    have hnone : ((earlier.find? (·.id = s.id)).map fun first =>
        SuiteFault.duplicateId s.id s.location first.location).toList = [] ↔
          s.id ∉ earlier.map (·.id) := by
      rw [Option.toList_eq_nil_iff, Option.map_eq_none_iff, List.find?_eq_none]
      simp
    rw [hnone]
    simp only [List.map_cons, List.nodup_cons, List.map_append, List.map_nil, List.mem_append,
      List.mem_cons, List.not_mem_nil, or_false, forall_eq_or_imp, not_or, List.mem_map]
    constructor
    · rintro ⟨hs, hnodup, hrest⟩
      exact ⟨⟨fun ⟨t, ht, hts⟩ => (hrest t ht).2 hts, hnodup⟩, hs, fun t ht => (hrest t ht).1⟩
    · rintro ⟨⟨hnew, hnodup⟩, hs, hrest⟩
      exact ⟨hs, hnodup, fun t ht => ⟨hrest t ht, fun hts => hnew ⟨t, ht, hts⟩⟩⟩

/-! ## Embeds -/

/-- **A known id**: that of a script, of a script known elsewhere, or of a file that is no
script. -/
def Known (scripts : List Script) (external : Option (List ExternalScript))
    (unloaded : List String) (id : String) : Prop :=
  id ∈ scripts.map (·.id) ∨ id ∈ (external.getD []).map (·.id) ∨ id ∈ unloaded

section KnownIds

variable (scripts : List Script) (external : Option (List ExternalScript)) (unloaded : List String)

theorem coherent_knownIds : (knownIds scripts external unloaded).Coherent :=
  ((EmbedGraph.Coherent.empty.addNodes _).addNodes _).addNodes _

theorem closed_knownIds : (knownIds scripts external unloaded).Closed := by
  have hlocal := EmbedGraph.Coherent.empty.addNodes (scripts.map (·.id))
  have hforeign := hlocal.addNodes ((external.getD []).map (·.id))
  exact ((EmbedGraph.Closed.empty.addNodes EmbedGraph.Coherent.empty _).addNodes hlocal _).addNodes
    hforeign unloaded

/-- **The nodes are the known ids.** -/
theorem node?_knownIds (id : String) :
    (∃ i, (knownIds scripts external unloaded).node? id = some i) ↔
      Known scripts external unloaded id := by
  simp only [knownIds, EmbedGraph.node?_addNodes, Known, or_assoc]
  simp [EmbedGraph.node?, EmbedGraph.empty]

theorem targets_knownIds (i : Nat) : (knownIds scripts external unloaded).targets i = [] := by
  rw [knownIds, EmbedGraph.targets_addNodes, EmbedGraph.targets_addNodes,
    EmbedGraph.targets_addNodes]
  rfl

end KnownIds

variable {consulted : Bool}

/-- The fault of an embed, when its target is no node. -/
def unresolved (g : EmbedGraph) (consulted : Bool) (s : Script) (e : Nat × Embed) :
    Option SuiteFault :=
  if (g.node? e.2.target).isSome then none
  else some (.unresolvedEmbed s.id s.location e.1 e.2.target consulted)

/-- **Following the embeds of a script** adds an edge for each that names a node, and the faults of
the others. -/
theorem foldl_embed (l : Linking) (s : Script) (source : Nat) (es : List (Nat × Embed)) :
    es.foldl (Linking.embed consulted s source) l =
      ⟨l.graph.addEdges source (es.filterMap fun e => l.graph.node? e.2.target),
        (es.filterMap (unresolved l.graph consulted s)).reverse ++ l.faults⟩ := by
  induction es generalizing l with
  | nil => rfl
  | cons e es ih =>
    rw [List.foldl_cons, ih]
    cases he : l.graph.node? e.2.target with
    | some j =>
      have hstep : Linking.embed consulted s source l e =
          { l with graph := l.graph.addEdge source j } := by
        rw [Linking.embed, he]
      rw [hstep]
      simp only [unresolved, List.filterMap_cons, he, EmbedGraph.node?_addEdge, Option.isSome_some,
        if_true]
      rfl
    | none =>
      have hstep : Linking.embed consulted s source l e =
          { l with faults :=
              .unresolvedEmbed s.id s.location e.1 e.2.target consulted :: l.faults } := by
        rw [Linking.embed, he]
      rw [hstep]
      simp [unresolved, he]

/-- **A graph in which scripts have been linked**, over the graph `g` of the known ids. -/
structure Linked (g : EmbedGraph) (consulted : Bool) (done : List Script) (l : Linking) : Prop where
  coherent : l.graph.Coherent
  closed : l.graph.Closed
  node?_eq : ∀ id, l.graph.node? id = g.node? id
  targets : ∀ i, l.graph.targets i = done.flatMap fun s =>
    if g.node? s.id = some i then s.targets.filterMap g.node? else []
  faults : l.faults.reverse = done.flatMap fun s => s.embeds.filterMap (unresolved g consulted s)

theorem Linked.script {g : EmbedGraph} {done : List Script} {l : Linking}
    (h : Linked g consulted done l) {s : Script} {i : Nat} (hs : g.node? s.id = some i) :
    Linked g consulted (done ++ [s]) (l.script consulted s) := by
  have hnode : l.graph.node? s.id = some i := (h.node?_eq s.id).trans hs
  have hi : i < l.graph.size := h.coherent.node?_lt hnode
  have hscript : l.script consulted s =
      ⟨l.graph.addEdges i (s.targets.filterMap l.graph.node?),
        (s.embeds.filterMap (unresolved l.graph consulted s)).reverse ++ l.faults⟩ := by
    rw [Linking.script, EmbedGraph.addNode_of_some hnode, Script.targets, List.filterMap_map]
    exact foldl_embed l s i s.embeds
  have hfun : l.graph.node? = g.node? := funext h.node?_eq
  rw [hscript]
  refine ⟨h.coherent.addEdges i _, h.closed.addEdges i fun j hj => ?_, fun id => ?_,
    fun k => ?_, ?_⟩
  · obtain ⟨t, _, ht⟩ := List.mem_filterMap.mp hj
    exact h.coherent.node?_lt ht
  · rw [EmbedGraph.node?_addEdges, h.node?_eq]
  · rw [h.coherent.targets_addEdges hi, h.targets, hfun, List.flatMap_append]
    by_cases hk : k = i
    · simp [hk, hs]
    · simp [hk, hs, Ne.symm hk]
  · have hunres : unresolved l.graph = unresolved g := by
      funext consulted s e
      rw [unresolved, unresolved, h.node?_eq]
    simp [h.faults, hunres]

/-- **What linking leaves**: the known ids, an edge for each embed of one, and the other embeds as
faults. -/
theorem linked_link (scripts : List Script) (external : Option (List ExternalScript))
    (unloaded : List String) :
    Linked (knownIds scripts external unloaded) external.isSome scripts
      (link scripts external unloaded) := by
  have hrun : ∀ (rest done : List Script) (l : Linking), done ++ rest = scripts →
      Linked (knownIds scripts external unloaded) external.isSome done l →
      Linked (knownIds scripts external unloaded) external.isSome scripts
        (rest.foldl (Linking.script external.isSome) l) := by
    intro rest
    induction rest with
    | nil =>
      rintro done l hdone hl
      rw [List.append_nil] at hdone
      exact hdone ▸ hl
    | cons s rest ih =>
      intro done l hdone hl
      have hs : s ∈ scripts := hdone ▸ List.mem_append_right _ List.mem_cons_self
      obtain ⟨i, hi⟩ := (node?_knownIds scripts external unloaded s.id).mpr
        (Or.inl (List.mem_map_of_mem hs))
      exact ih (done ++ [s]) _ (by simpa using hdone) (hl.script hi)
  exact hrun scripts [] _ rfl ⟨coherent_knownIds scripts external unloaded,
    closed_knownIds scripts external unloaded, fun _ => rfl,
    targets_knownIds scripts external unloaded, rfl⟩

end ScriptSuite.Suite
