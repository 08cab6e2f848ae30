import ScriptSuite.EmbedGraph.Cycles
import ScriptSuite.Proofs.EmbedGraph.Components

/-!
# Proofs/EmbedGraph/Cycles — a component is a cycle when its nodes lead back to themselves

The cycles that are shown come from the components, and `isCycle` only counts the nodes of a
component, or looks for one edge.  That is the same as to ask for a path of at least one edge from
any of its nodes back to it (`isCycle_iff`), so a graph without such paths shows no cycle, and only
such a graph (`exists_cycles`).
-/

namespace ScriptSuite.EmbedGraph

variable {g : EmbedGraph} {c : List Nat} {v : Nat}

/-- **A node on a cycle**: a path of at least one edge leads from it back to itself. -/
def OnCycle (g : EmbedGraph) (v : Nat) : Prop := Relation.TransGen g.Edge v v

theorem hasSelfLoop?_iff (g : EmbedGraph) (v : Nat) :
    (g.hasSelfLoop? v).getD false = true ↔ v ∈ g.targets v := by
  rw [hasSelfLoop?, targets, Array.getD_eq_getD_getElem?]
  cases g.edges[v]? with
  | none => simp
  | some ts => simp

/-- **The nodes of a component lie on a cycle** exactly when the component counts as one. -/
theorem isCycle_iff (hscc : ∀ w, w ∈ c ↔ g.Reaches v w ∧ g.Reaches w v) (hnodup : c.Nodup)
    (hv : v ∈ c) : g.isCycle c = true ↔ g.OnCycle v := by
  match c, hscc, hnodup, hv with
  | [u], hscc, _, hv =>
    obtain rfl : v = u := List.mem_singleton.mp hv
    rw [isCycle, hasSelfLoop?_iff]
    refine ⟨fun hloop => Relation.TransGen.single hloop, fun hcycle => ?_⟩
    obtain ⟨w, hedge, hback⟩ := Relation.TransGen.head'_iff.mp hcycle
    obtain rfl : w = v := List.mem_singleton.mp ((hscc w).mpr ⟨Reaches.single hedge, hback⟩)
    exact hedge
  | u :: u' :: c, hscc, hnodup, hv =>
    refine ⟨fun _ => ?_, fun _ => rfl⟩
    -- Another node of the component is away from `v`, and the way there and back is a cycle.
    obtain ⟨w, hw, hwv⟩ : ∃ w ∈ u :: u' :: c, w ≠ v := by
      by_cases huv : u = v
      · have hne : u ≠ u' := fun h => (List.nodup_cons.mp hnodup).1 (h ▸ List.mem_cons_self)
        exact ⟨u', by simp, huv ▸ hne.symm⟩
      · exact ⟨u, by simp, huv⟩
    obtain ⟨hforth, hback⟩ := (hscc w).mp hw
    rcases Relation.reflTransGen_iff_eq_or_transGen.mp hforth with h | h
    · exact absurd h hwv
    · exact h.trans_left hback

/-- **A closed graph shows its cycles**, and shows none exactly when no node lies on one. -/
theorem exists_cycles (hg : g.Closed) :
    ∃ cs, g.cycles? = some cs ∧ (cs = [] ↔ ∀ v < g.size, ¬ g.OnCycle v) := by
  obtain ⟨found, hfound, hpeeled, hnodup, hmem⟩ := exists_components hg
  have hcycle : ∀ c ∈ found, ∀ v ∈ c, g.isCycle c = true ↔ g.OnCycle v := fun c hc v hv =>
    isCycle_iff (hpeeled.mem_iff hnodup hc hv) ((List.nodup_flatten.mp hnodup).1 c hc) hv
  refine ⟨_, by rw [cycles?, hfound]; rfl, ?_⟩
  rw [← List.length_eq_zero_iff, List.length_mergeSort, List.length_map, List.length_eq_zero_iff,
    List.filter_eq_nil_iff]
  refine ⟨fun h v hv => ?_, fun h c hc hcyc => ?_⟩
  · obtain ⟨c, hc, hvc⟩ := List.mem_flatten.mp ((hmem v).mpr hv)
    rw [← hcycle c hc v hvc]
    exact h c (List.mem_reverse.mpr hc)
  · have hc' := List.mem_reverse.mp hc
    obtain ⟨v, hvc⟩ := List.exists_mem_of_ne_nil c (hpeeled.ne_nil hc')
    have hv : v < g.size := (hmem v).mp (List.mem_flatten.mpr ⟨c, hc', hvc⟩)
    exact h v hv ((hcycle c hc' v hvc).mp hcyc)

end ScriptSuite.EmbedGraph
