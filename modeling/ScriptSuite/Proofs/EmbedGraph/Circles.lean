import Mathlib.Data.Finset.Sort
import Mathlib.Data.List.Lex
import Mathlib.Data.List.Sort
import Mathlib.Data.String.Basic
import Mathlib.Order.Minimal
import ScriptSuite.Proofs.EmbedGraph.Cycles

/-!
# Proofs/EmbedGraph/Circles — the cycles that are shown are the circles of ids

What a graph shows of itself are lists of ids, and they are said here without the graph's numbers: a
**circle** is a largest set of ids that lead to each other by edges (`IsCircle`).  A closed graph
shows its circles, each of them once and in order (`exists_circles`).  So two graphs whose ids lead
to each other in the same way show the same.
-/

namespace ScriptSuite.EmbedGraph

/-! ## Circles of a relation -/

section Relation

variable {r r' : String → String → Prop} {ids : List String}

/-- Ids that lead to each other, and each of them back to itself, in at least one step. -/
def LeadToEachOther (r : String → String → Prop) (ids : Set String) : Prop :=
  ids.Nonempty ∧ ∀ a ∈ ids, ∀ b ∈ ids, Relation.TransGen r a b

/-- **A circle**: ids in order that lead to each other, none of which is missing. -/
structure IsCircle (r : String → String → Prop) (ids : List String) : Prop where
  sorted : ids.SortedLT
  maximal : Maximal (LeadToEachOther r) {id | id ∈ ids}

/-- **A circle is made by any of its ids**: it holds what leads there and comes back. -/
theorem IsCircle.mem_iff {a : String} (h : IsCircle r ids) (ha : a ∈ ids) (b : String) :
    b ∈ ids ↔ Relation.TransGen r a b ∧ Relation.TransGen r b a := by
  obtain ⟨-, ⟨-, hlead⟩, hmax⟩ := h
  refine ⟨fun hb => ⟨hlead a ha b hb, hlead b hb a ha⟩, fun ⟨hab, hba⟩ => ?_⟩
  -- With `b` among them the ids still lead to each other, by way of `a`.
  have hto : ∀ c ∈ insert b {id | id ∈ ids}, Relation.TransGen r c a := by
    rintro c (rfl | hc)
    · exact hba
    · exact hlead c hc a ha
  have hfrom : ∀ c ∈ insert b {id | id ∈ ids}, Relation.TransGen r a c := by
    rintro c (rfl | hc)
    · exact hab
    · exact hlead a ha c hc
  exact hmax ⟨⟨b, Set.mem_insert b _⟩, fun c hc d hd => (hto c hc).trans (hfrom d hd)⟩
    (Set.subset_insert b _) (Set.mem_insert b _)

theorem isCircle_iff : IsCircle r ids ↔
    ids.SortedLT ∧ ∃ a, Relation.TransGen r a a ∧
      ∀ b, b ∈ ids ↔ Relation.TransGen r a b ∧ Relation.TransGen r b a := by
  constructor
  · intro h
    obtain ⟨a, ha⟩ := h.maximal.prop.1
    exact ⟨h.sorted, a, ((h.mem_iff ha a).mp ha).1, h.mem_iff ha⟩
  · rintro ⟨hsorted, a, haa, hmem⟩
    have ha : a ∈ ids := (hmem a).mpr ⟨haa, haa⟩
    refine ⟨hsorted, ⟨⟨a, ha⟩, fun b hb c hc => ((hmem b).mp hb).2.trans ((hmem c).mp hc).1⟩, ?_⟩
    intro others hothers hsub b hb
    exact (hmem b).mpr ⟨hothers.2 a (hsub ha) b hb, hothers.2 b hb a (hsub ha)⟩

/-- **An id that leads back to itself is in a circle**, when only some ids lead anywhere. -/
theorem exists_isCircle {sources : Finset String} (hsources : ∀ a b, r a b → a ∈ sources)
    {a : String} (haa : Relation.TransGen r a a) : ∃ ids, IsCircle r ids ∧ a ∈ ids := by
  classical
  let ids := (sources.filter fun b => Relation.TransGen r a b ∧ Relation.TransGen r b a).sort
  have hids : ∀ b, b ∈ ids ↔ Relation.TransGen r a b ∧ Relation.TransGen r b a := by
    intro b
    rw [Finset.mem_sort, Finset.mem_filter, and_iff_right_iff_imp]
    rintro ⟨-, hba⟩
    obtain ⟨c, hbc, -⟩ := Relation.TransGen.head'_iff.mp hba
    exact hsources b c hbc
  exact ⟨ids, isCircle_iff.mpr ⟨Finset.sortedLT_sort _, a, haa, hids⟩, (hids a).mpr ⟨haa, haa⟩⟩

/-- Circles that share an id are the same. -/
theorem IsCircle.eq_of_mem {ids' : List String} {a : String} (h : IsCircle r ids)
    (h' : IsCircle r ids') (ha : a ∈ ids) (ha' : a ∈ ids') : ids = ids' :=
  h.sorted.eq_of_mem_iff h'.sorted fun b => (h.mem_iff ha b).trans (h'.mem_iff ha' b).symm

/-- Two ids that are related both ways lead to each other. -/
theorem leadToEachOther_pair {a b : String} (hab : r a b) (hba : r b a) :
    LeadToEachOther r {id | id ∈ [a, b]} := by
  have haa : Relation.TransGen r a a := .tail (.single hab) hba
  have hbb : Relation.TransGen r b b := .tail (.single hba) hab
  refine ⟨⟨a, List.mem_cons_self⟩, fun c hc d hd => ?_⟩
  obtain rfl | rfl := List.mem_pair.mp hc
  · obtain rfl | rfl := List.mem_pair.mp hd
    · exact haa
    · exact .single hab
  · obtain rfl | rfl := List.mem_pair.mp hd
    · exact .single hba
    · exact hbb

/-- **Ids that lead to each other are the only circle**, when no other id leads anywhere. -/
theorem isCircle_iff_eq {ids' : List String} (hsorted : ids.SortedLT)
    (hlead : LeadToEachOther r {id | id ∈ ids}) (hsources : ∀ a b, r a b → a ∈ ids) :
    IsCircle r ids' ↔ ids' = ids := by
  have hsource : ∀ a b, Relation.TransGen r a b → a ∈ ids := fun a b hab => by
    obtain ⟨c, hac, -⟩ := Relation.TransGen.head'_iff.mp hab
    exact hsources a c hac
  obtain ⟨a, ha⟩ := hlead.1
  have hids : IsCircle r ids := isCircle_iff.mpr ⟨hsorted, a, hlead.2 a ha a ha, fun b =>
    ⟨fun hb => ⟨hlead.2 a ha b hb, hlead.2 b hb a ha⟩, fun hb => hsource b a hb.2⟩⟩
  refine ⟨fun h => ?_, fun h => h ▸ hids⟩
  obtain ⟨b, hb⟩ := h.maximal.prop.1
  exact h.eq_of_mem hids hb (hsource b b (h.maximal.prop.2 b hb b hb))

/-- Circles depend only on which ids lead to each other. -/
theorem isCircle_congr (h : ∀ a b, Relation.TransGen r a b ∧ Relation.TransGen r b a ↔
    Relation.TransGen r' a b ∧ Relation.TransGen r' b a) : IsCircle r ids ↔ IsCircle r' ids := by
  have hself : ∀ a, Relation.TransGen r a a ↔ Relation.TransGen r' a a := fun a => by
    simpa using h a a
  simp only [isCircle_iff, h, hself]

end Relation

/-! ## Edges between ids -/

variable {g : EmbedGraph} {a b : String} {v w : Nat} {c : List Nat}

/-- An edge between two ids. -/
def NamedEdge (g : EmbedGraph) (a b : String) : Prop :=
  ∃ v w, g.name? v = some a ∧ g.name? w = some b ∧ g.Edge v w

/-- **Paths between ids** are paths between their numbers. -/
theorem Coherent.transGen_namedEdge_iff (h : g.Coherent) (hv : g.name? v = some a)
    (hw : g.name? w = some b) :
    Relation.TransGen g.NamedEdge a b ↔ Relation.TransGen g.Edge v w := by
  constructor
  · intro hpath
    induction hpath generalizing w with
    | single hedge =>
      obtain ⟨v', w', hv', hw', hedge⟩ := hedge
      obtain rfl := h.name?_inj hv hv'
      obtain rfl := h.name?_inj hw hw'
      exact .single hedge
    | tail _ hedge ih =>
      obtain ⟨u, w', hu, hw', hedge⟩ := hedge
      obtain rfl := h.name?_inj hw hw'
      exact .tail (ih hu) hedge
  · intro hpath
    induction hpath generalizing b with
    | single hedge => exact .single ⟨v, _, hv, hw, hedge⟩
    | tail _ hedge ih =>
      obtain ⟨d, hd⟩ := exists_name? (h.lt_of_edge hedge)
      exact .tail (ih hd) ⟨_, _, hd, hw, hedge⟩

/-- A path between ids ends at a node. -/
theorem exists_name?_of_transGen (hpath : Relation.TransGen g.NamedEdge a b) :
    ∃ w, g.name? w = some b := by
  obtain ⟨d, -, v, w, -, hw, -⟩ := Relation.TransGen.tail'_iff.mp hpath
  exact ⟨w, hw⟩

/-! ## What is shown of a component -/

/-- The ids of a component, as they are shown. -/
def shown (g : EmbedGraph) (c : List Nat) : List String := sortedIds (c.filterMap g.name?)

theorem mem_shown : a ∈ g.shown c ↔ ∃ v ∈ c, g.name? v = some a := by
  simp [shown, sortedIds]

theorem Coherent.sortedLT_shown (h : g.Coherent) (hnodup : c.Nodup) : (g.shown c).SortedLT := by
  have hids : (c.filterMap g.name?).Nodup :=
    hnodup.filterMap fun _ _ _ hv hw => h.name?_inj hv hw
  exact List.sortedLE_mergeSort.sortedLT_of_nodup ((List.mergeSort_perm _ _).nodup_iff.mpr hids)

/-- Different components are shown differently. -/
theorem Coherent.shown_ne {d : List Nat} (h : g.Coherent) (hv : v ∈ c) (hsize : v < g.size)
    (hdisjoint : c.Disjoint d) : g.shown c ≠ g.shown d := by
  intro hsame
  obtain ⟨a, ha⟩ := exists_name? hsize
  obtain ⟨w, hw, hwa⟩ := mem_shown.mp (hsame ▸ mem_shown.mpr ⟨v, hv, ha⟩)
  exact hdisjoint hv (h.name?_inj ha hwa ▸ hw)

/-- **A component on a cycle** is shown as a circle. -/
theorem Coherent.isCircle_shown (h : g.Coherent) (hscc : ∀ w, w ∈ c ↔ g.Reaches v w ∧ g.Reaches w v)
    (hnodup : c.Nodup) (hname : g.name? v = some a) (hcycle : g.OnCycle v) :
    IsCircle g.NamedEdge (g.shown c) := by
  refine isCircle_iff.mpr ⟨h.sortedLT_shown hnodup, a, (h.transGen_namedEdge_iff hname hname).mpr
    hcycle, fun b => mem_shown.trans ⟨?_, ?_⟩⟩
  · rintro ⟨w, hw, hb⟩
    obtain ⟨hforth, hback⟩ := (hscc w).mp hw
    exact ⟨(h.transGen_namedEdge_iff hname hb).mpr (hcycle.trans_left hforth),
      (h.transGen_namedEdge_iff hb hname).mpr (hcycle.trans_right hback)⟩
  · rintro ⟨hforth, hback⟩
    obtain ⟨w, hb⟩ := exists_name?_of_transGen hforth
    exact ⟨w, (hscc w).mpr ⟨((h.transGen_namedEdge_iff hname hb).mp hforth).to_reflTransGen,
      ((h.transGen_namedEdge_iff hb hname).mp hback).to_reflTransGen⟩, hb⟩

/-! ## What is shown of a graph -/

theorem cycles?_eq {found : List (List Nat)} (hfound : g.components? = some found) :
    g.cycles? = some (((found.filter g.isCycle).map g.shown).mergeSort (· ≤ ·)) := by
  have hle : (fun a b : List String => decide (List.le a b)) = fun a b => decide (a ≤ b) := by
    funext a b
    exact decide_eq_decide.mpr not_lt
  rw [cycles?, hfound, Option.map_some, hle]
  rfl

/-- **A closed graph shows its circles**, each of them once, in order. -/
theorem exists_circles (hg : g.Closed) (h : g.Coherent) :
    ∃ cs, g.cycles? = some cs ∧ cs.SortedLT ∧ ∀ ids, ids ∈ cs ↔ IsCircle g.NamedEdge ids := by
  obtain ⟨found, hfound, hpeeled, hnodup, hmem⟩ := exists_components hg
  obtain ⟨hone, hdisjoint⟩ := List.nodup_flatten.mp hnodup
  have hscc : ∀ c ∈ found, ∀ v ∈ c, ∀ w, w ∈ c ↔ g.Reaches v w ∧ g.Reaches w v :=
    fun c hc v hv => hpeeled.mem_iff hnodup hc hv
  have hcycle : ∀ c ∈ found, ∀ v ∈ c, g.isCycle c = true ↔ g.OnCycle v := fun c hc v hv =>
    isCycle_iff (hscc c hc v hv) (hone c hc) hv
  have hnode : ∀ c ∈ found, ∃ v ∈ c, v < g.size := by
    intro c hc
    obtain ⟨v, hv⟩ := List.exists_mem_of_ne_nil c (hpeeled.ne_nil hc)
    exact ⟨v, hv, (hmem v).mp (List.mem_flatten.mpr ⟨c, hc, hv⟩)⟩
  have hcircle : ∀ c ∈ found, g.isCycle c = true → IsCircle g.NamedEdge (g.shown c) := by
    intro c hc hcyc
    obtain ⟨v, hv, hsize⟩ := hnode c hc
    obtain ⟨a, ha⟩ := exists_name? hsize
    exact h.isCircle_shown (hscc c hc v hv) (hone c hc) ha ((hcycle c hc v hv).mp hcyc)
  refine ⟨_, cycles?_eq hfound, List.sortedLE_mergeSort.sortedLT_of_nodup ?_, fun ids => ?_⟩
  · rw [(List.mergeSort_perm _ _).nodup_iff, List.nodup_iff_pairwise_ne, List.pairwise_map]
    refine List.Pairwise.filter _ (List.pairwise_reverse.mpr (hdisjoint.imp_of_mem ?_))
    intro c d _ hd hcd
    obtain ⟨v, hv, hsize⟩ := hnode d hd
    exact h.shown_ne hv hsize (List.disjoint_symm hcd)
  · simp only [List.mem_mergeSort, List.mem_map, List.mem_filter, List.mem_reverse]
    refine ⟨fun ⟨c, ⟨hc, hcyc⟩, hshown⟩ => hshown ▸ hcircle c hc hcyc, fun hids => ?_⟩
    obtain ⟨a, ha⟩ := hids.maximal.prop.1
    have haa := ((hids.mem_iff ha a).mp ha).1
    obtain ⟨v, hv⟩ := exists_name?_of_transGen haa
    obtain ⟨c, hc, hvc⟩ := List.mem_flatten.mp ((hmem v).mpr (name?_lt hv))
    have hcyc := (hcycle c hc v hvc).mpr ((h.transGen_namedEdge_iff hv hv).mp haa)
    exact ⟨c, ⟨hc, hcyc⟩, (hcircle c hc hcyc).eq_of_mem hids (mem_shown.mpr ⟨v, hvc, hv⟩) ha⟩

end ScriptSuite.EmbedGraph
