import Mathlib
import ScriptSuite.Proofs.EmbedGraph.Building
import ScriptSuite.Proofs.Text.Bytewise

/-!
# Proofs/EmbedGraph/ClosedWalks — what is shown of a graph are its closed walks

A closed walk goes from id to id along edges and ends where it began; as a list of ids it is a
`Cycle`, of which no id is the first.  Two ids are on one closed walk exactly when each of them
leads to the other (`exists_closedWalk_iff`), and that is when a circle holds both of them
(`exists_isCircle_iff`).  So the cycles that a graph shows are its closed walks put together, and
nothing of the way in which the graph was built is left in them (`cycles?_exact`).
-/

namespace ScriptSuite.EmbedGraph

/-! ## Closed walks of a relation -/

section Relation

variable {α : Type} {r : α → α → Prop} {a b : α}

/-- The steps from an element to another, with what is on the way. -/
theorem exists_isChain_of_transGen (h : Relation.TransGen r a b) :
    ∃ way, ((a :: way) ++ [b]).IsChain r := by
  induction h with
  | single hab => exact ⟨[], by simpa using hab⟩
  | @tail b c _ hbc ih =>
    obtain ⟨way, hway⟩ := ih
    have hlast : ([b] ++ [c]).IsChain r := by simpa using hbc
    exact ⟨way ++ [b], hway.append_overlap hlast (List.cons_ne_nil b [])⟩

/-- **Two elements are on one closed walk** exactly when each of them leads to the other. -/
theorem exists_closedWalk_iff :
    (∃ walk : Cycle α, walk.Chain r ∧ a ∈ walk ∧ b ∈ walk) ↔
      Relation.TransGen r a b ∧ Relation.TransGen r b a := by
  constructor
  · rintro ⟨walk, hwalk, ha, hb⟩
    have hlead := Cycle.chain_iff_pairwise.mp (hwalk.imp fun _ _ => Relation.TransGen.single)
    exact ⟨hlead a ha b hb, hlead b hb a ha⟩
  · rintro ⟨hab, hba⟩
    obtain ⟨forth, hforth⟩ := exists_isChain_of_transGen hab
    obtain ⟨back, hback⟩ := exists_isChain_of_transGen hba
    have hround : ((a :: forth) ++ [b] ++ (back ++ [a])).IsChain r :=
      hforth.append_overlap hback (List.cons_ne_nil b [])
    refine ⟨(a :: (forth ++ b :: back) : List α), ?_, by simp, by simp⟩
    rw [Cycle.chain_coe_cons]
    simpa using hround

end Relation

/-! ## What is shown of a graph -/

variable {g : EmbedGraph} {cs : List (List String)}

/-- **Lists that show the cycles of a graph**: they hold the ids that lead back to themselves, and
together those that are on one closed walk.  Ids and lists stand in the order of their octets. -/
structure ShowsCycles (g : EmbedGraph) (cs : List (List String)) : Prop where
  sorted : cs.Pairwise (List.Lex fun a b => Utf8.encode a < Utf8.encode b)
  sorted_ids : ∀ ids ∈ cs, ids.Pairwise fun a b => Utf8.encode a < Utf8.encode b
  ne_nil : ∀ ids ∈ cs, ids ≠ []
  mem_iff : ∀ a, (∃ ids ∈ cs, a ∈ ids) ↔ Relation.TransGen g.NamedEdge a a
  together_iff : ∀ a b, (∃ ids ∈ cs, a ∈ ids ∧ b ∈ ids) ↔
    ∃ walk : Cycle String, walk.Chain g.NamedEdge ∧ a ∈ walk ∧ b ∈ walk
  /-- No id is in two of them. -/
  eq_of_mem : ∀ ids ∈ cs, ∀ ids' ∈ cs, ∀ a ∈ ids, a ∈ ids' → ids = ids'

/-- **Two ids are in one circle** exactly when each of them leads to the other: only nodes lead
anywhere. -/
theorem exists_isCircle_iff {a b : String} :
    (∃ ids, IsCircle g.NamedEdge ids ∧ a ∈ ids ∧ b ∈ ids) ↔
      Relation.TransGen g.NamedEdge a b ∧ Relation.TransGen g.NamedEdge b a := by
  have hsources : ∀ c d, g.NamedEdge c d → c ∈ g.names.toList.toFinset := by
    rintro c d ⟨v, w, hv, -⟩
    exact List.mem_toFinset.mpr (Array.mem_toList_iff.mpr (Array.mem_of_getElem? hv))
  constructor
  · rintro ⟨ids, hids, ha, hb⟩
    exact (hids.mem_iff ha b).mp hb
  · rintro ⟨hab, hba⟩
    obtain ⟨ids, hids, ha⟩ := exists_isCircle hsources (hab.trans hba)
    exact ⟨ids, hids, ha, (hids.mem_iff ha b).mpr ⟨hab, hba⟩⟩

/-- **The circles of a graph show its cycles.** -/
theorem showsCycles_of_circles (hsorted : cs.SortedLT)
    (hmem : ∀ ids, ids ∈ cs ↔ IsCircle g.NamedEdge ids) : g.ShowsCycles cs where
  sorted := by
    simp only [Utf8.encode_lt_encode_iff]
    exact hsorted.pairwise
  sorted_ids ids hids := by
    simp only [Utf8.encode_lt_encode_iff]
    exact ((hmem ids).mp hids).sorted.pairwise
  ne_nil ids hids := by
    obtain ⟨a, ha⟩ := ((hmem ids).mp hids).maximal.prop.1
    exact List.ne_nil_of_mem ha
  mem_iff a := by
    simpa only [hmem, and_self] using exists_isCircle_iff (g := g) (a := a) (b := a)
  together_iff a b := by
    simp only [hmem, exists_closedWalk_iff, exists_isCircle_iff]
  eq_of_mem ids hids ids' hids' a ha ha' :=
    ((hmem ids).mp hids).eq_of_mem ((hmem ids').mp hids') ha ha'

/-- **Every graph whose edges lead to nodes shows its cycles**, and shows them as any graph with the
same edges between ids does: the order in which nodes and edges were added does not matter, nor
edges that were added again, nor ids without edges. -/
theorem cycles?_exact (hbuilt : g.Built) (hclosed : g.Closed) :
    ∃ cs, g.cycles? = some cs ∧ g.ShowsCycles cs ∧
      ∀ g' : EmbedGraph, g'.Built → g'.Closed → (∀ a b, g'.NamedEdge a b ↔ g.NamedEdge a b) →
        g'.cycles? = some cs := by
  obtain ⟨cs, hcs, hsorted, hmem⟩ := exists_circles hclosed hbuilt.coherent
  refine ⟨cs, hcs, showsCycles_of_circles hsorted hmem, fun g' hbuilt' hclosed' hedges => ?_⟩
  obtain ⟨cs', hcs', hsorted', hmem'⟩ := exists_circles hclosed' hbuilt'.coherent
  have hsame : g'.NamedEdge = g.NamedEdge := funext fun a => funext fun b => propext (hedges a b)
  have hcircles : ∀ ids, ids ∈ cs' ↔ ids ∈ cs := fun ids => by rw [hmem', hmem, hsame]
  rw [hcs', hsorted'.eq_of_mem_iff hsorted hcircles]

/-- A ring of two ids, and one that embeds itself, in two orders of linking. -/
theorem cycles?_exact_ring :
    let links := [("a", "b"), ("b", "a"), ("b", "c"), ("b", "c"), ("c", "c")]
    let links' := [("c", "c"), ("b", "c"), ("c", "c"), ("b", "a"), ("a", "b")]
    (ofLinks links).Built ∧ (ofLinks links).Closed ∧ (ofLinks links').Built ∧
      (ofLinks links').Closed ∧
      (∀ a b, (ofLinks links').NamedEdge a b ↔ (ofLinks links).NamedEdge a b) ∧
      (ofLinks links).cycles? = some [["a", "b"], ["c"]] ∧
      (ofLinks links).ShowsCycles [["a", "b"], ["c"]] ∧
      (ofLinks links').cycles? = some [["a", "b"], ["c"]] := by
  intro links links'
  have hedges : ∀ a b, (ofLinks links').NamedEdge a b ↔ (ofLinks links).NamedEdge a b := by
    intro a b
    rw [namedEdge_ofLinks, namedEdge_ofLinks]
    simp only [links, links', List.mem_cons, List.not_mem_nil, or_false]
    tauto
  have hcycles : (ofLinks links).cycles? = some [["a", "b"], ["c"]] := by cbv
  obtain ⟨cs, hcs, hshows, hsame⟩ := cycles?_exact (built_ofLinks links) (closed_ofLinks links)
  obtain rfl : cs = [["a", "b"], ["c"]] := Option.some.inj (hcs.symm.trans hcycles)
  exact ⟨built_ofLinks links, closed_ofLinks links, built_ofLinks links', closed_ofLinks links',
    hedges, hcs, hshows, hsame _ (built_ofLinks links') (closed_ofLinks links') hedges⟩

end ScriptSuite.EmbedGraph
