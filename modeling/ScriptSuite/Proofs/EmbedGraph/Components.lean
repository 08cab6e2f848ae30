import ScriptSuite.Proofs.EmbedGraph.Arena
import ScriptSuite.Proofs.EmbedGraph.Search

/-!
# Proofs/EmbedGraph/Components — the components found are the strongly connected ones

A search of a closed graph closes every node exactly once (`exists_components`), and what it closes
together is peeled off the graph.  What `Peeled` says of such a list becomes the correctness of
`components?`.
-/

namespace ScriptSuite.EmbedGraph

/-- **A closed graph has components**: they are peeled off it, and together they hold every node
once. -/
theorem exists_components {g : EmbedGraph} (hg : g.Closed) :
    ∃ found, g.components? = some found.reverse ∧ Peeled g found ∧ found.flatten.Nodup ∧
      ∀ v, v ∈ found.flatten ↔ v < g.size := by
  obtain ⟨t, ht, hsound, hframes, -, hmet⟩ :=
    (Search.Sound.ofGraph g).visitAll hg (List.range g.size) rfl
  refine ⟨t.found, by rw [components?, ht]; rfl, hsound.peeled, hsound.nodup, fun v => ⟨?_, ?_⟩⟩
  · intro hv
    rw [← hsound.size]
    exact (Array.getElem?_eq_some_iff.mp ((hsound.closed v).mp hv)).1
  · exact fun hv => hsound.closed_of_met hframes hv (hmet v (List.mem_range.mpr hv))

/-- **The strongly connected components of a graph**, in an order in which embeds come first. -/
structure AreComponents (g : EmbedGraph) (cs : List (List Nat)) : Prop where
  ne_nil : ∀ c ∈ cs, c ≠ []
  /-- Together they hold every node exactly once. -/
  partition : cs.flatten.Perm (List.range g.size)
  mutual_iff : ∀ v < g.size, ∀ w < g.size,
    (∃ c ∈ cs, v ∈ c ∧ w ∈ c) ↔ g.Reaches v w ∧ g.Reaches w v
  /-- An edge between different components leads to the one that comes first. -/
  lt_of_edge : ∀ (i j : Nat) (c d : List Nat), cs[i]? = some c → cs[j]? = some d → i ≠ j →
    ∀ v ∈ d, ∀ w ∈ c, g.Edge v w → i < j

/-- **The search finds the strongly connected components** of every graph whose edges lead to nodes,
and gives each of them before the components with edges into it. -/
theorem components?_correct {g : EmbedGraph} (hg : g.Closed) :
    ∃ cs, g.components? = some cs ∧ g.AreComponents cs := by
  obtain ⟨found, hfound, hpeeled, hnodup, hmem⟩ := exists_components hg
  have hperm : found.reverse.flatten.Perm found.flatten := (List.reverse_perm found).flatten
  refine ⟨found.reverse, hfound, fun c hc => hpeeled.ne_nil (List.mem_reverse.mp hc), ?_, ?_, ?_⟩
  · refine hperm.trans ((List.perm_ext_iff_of_nodup hnodup List.nodup_range).mpr fun v => ?_)
    rw [hmem v, List.mem_range]
  · intro v hv w _
    constructor
    · rintro ⟨c, hc, hvc, hwc⟩
      exact (hpeeled.mem_iff hnodup (List.mem_reverse.mp hc) hvc w).mp hwc
    · intro hmutual
      obtain ⟨c, hc, hvc⟩ := List.mem_flatten.mp ((hmem v).mpr hv)
      exact ⟨c, List.mem_reverse.mpr hc, hvc, (hpeeled.mem_iff hnodup hc hvc w).mpr hmutual⟩
  · have hpair : found.reverse.Pairwise fun earlier later =>
        ∀ v ∈ earlier, ∀ w ∈ later, ¬ g.Edge v w :=
      List.pairwise_reverse.mpr (hpeeled.not_edge hnodup)
    intro i j c d hi hj hij v hv w hw hedge
    refine Nat.lt_of_le_of_ne (Nat.le_of_not_lt fun hlt => ?_) hij
    obtain ⟨hi', rfl⟩ := List.getElem?_eq_some_iff.mp hi
    obtain ⟨hj', rfl⟩ := List.getElem?_eq_some_iff.mp hj
    exact List.pairwise_iff_getElem.mp hpair j i hj' hi' hlt v hv w hw hedge

/-- Two ids that embed each other; one of them embeds a third one twice, which embeds itself. -/
def ringWithTail : EmbedGraph :=
  let ring := ((empty.link "a" "b").1.link "b" "a").1
  let tail := ((ring.link "b" "c").1.link "b" "c").1
  (tail.link "c" "c").1

/-- The ring is one component, and the id that embeds itself another. -/
theorem components?_correct_ringWithTail : ringWithTail.Closed ∧
    ∃ cs, ringWithTail.components? = some cs ∧ ringWithTail.AreComponents cs := by
  have hring := (Coherent.empty.link "a" "b").link "b" "a"
  have htail := (hring.link "b" "c").link "b" "c"
  have hclosed : ringWithTail.Closed :=
    ((((Closed.empty.link Coherent.empty "a" "b").link (Coherent.empty.link "a" "b") "b" "a").link
      hring "b" "c").link (hring.link "b" "c") "b" "c").link htail "c" "c"
  exact ⟨hclosed, components?_correct hclosed⟩

end ScriptSuite.EmbedGraph
