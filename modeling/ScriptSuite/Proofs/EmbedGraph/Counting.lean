import Mathlib.Algebra.BigOperators.Fin
import ScriptSuite.Proofs.EmbedGraph.Arena

/-!
# Proofs/EmbedGraph/Counting — how many nodes and edges there are

The nodes of a coherent graph are as many as there are different ids among them
(`Coherent.size_eq_card`), and its edges are counted node by node (`Coherent.edgeCount_eq_sum`).
-/

namespace ScriptSuite.EmbedGraph

variable {g : EmbedGraph}

theorem Coherent.nodup_names (h : g.Coherent) : g.names.toList.Nodup := by
  refine List.nodup_iff_injective_getElem.mpr fun i j hij => Fin.ext ?_
  have hname : ∀ k : Fin g.names.toList.length, g.name? k = some g.names.toList[k] :=
    fun k => by simp [name?]
  exact h.name?_inj ((hname i).trans (congrArg some hij)) (hname j)

/-- **Every id is counted once**, however often it is listed. -/
theorem Coherent.size_eq_card (h : g.Coherent) {ids : List String}
    (hids : ∀ id, (∃ i, g.node? id = some i) ↔ id ∈ ids) : g.size = ids.toFinset.card := by
  have hmem : ∀ id, id ∈ g.names.toList ↔ id ∈ ids := by
    intro id
    rw [← hids id, Array.mem_toList_iff, Array.mem_iff_getElem?]
    exact exists_congr fun i => (h.node?_eq_some id i).symm
  rw [← List.toFinset.ext hmem, List.toFinset_card_of_nodup h.nodup_names, Array.length_toList,
    size]

/-- **The edges are those that leave each of the nodes.** -/
theorem Coherent.edgeCount_eq_sum (h : g.Coherent) :
    g.edgeCount = ∑ i ∈ Finset.range g.size, (g.targets i).length := by
  have hfoldr : ∀ es : List (Array Nat),
      es.foldr (fun targets n => targets.size + n) 0 = (es.map Array.size).sum := by
    intro es
    induction es with
    | nil => rfl
    | cons e es ih => rw [List.foldr_cons, ih, List.map_cons, List.sum_cons]
  have hsize : g.edges.toList.length = g.size := h.size_edges
  rw [edgeCount, ← Array.foldr_toList, hfoldr, ← Fin.sum_univ_fun_getElem, Finset.sum_range,
    ← hsize]
  refine Finset.sum_congr rfl fun i _ => ?_
  simp [targets]

end ScriptSuite.EmbedGraph
