import Mathlib.Data.List.Nodup
import Mathlib.Logic.Relation
import ScriptSuite.EmbedGraph.Components

/-!
# Proofs/EmbedGraph/Peeling — reachability, and components peeled off a graph

A list of components is **peeled off** a graph when each of them is strongly connected and its edges
lead to itself or to components peeled off before it.  Nothing else about a list is needed: such a
list, when it has no repetition, holds with each node exactly the nodes that it reaches and that
reach it (`Peeled.mem_iff`), and edges between different components lead to the earlier one
(`Peeled.not_edge`).
-/

namespace ScriptSuite.EmbedGraph

variable {g : EmbedGraph}

/-- An edge between two nodes. -/
def Edge (g : EmbedGraph) (v w : Nat) : Prop := w ∈ g.targets v

/-- **Reachability**: a path of edges leads from one node to another; it may be empty. -/
def Reaches (g : EmbedGraph) : Nat → Nat → Prop := Relation.ReflTransGen g.Edge

theorem Reaches.refl (v : Nat) : g.Reaches v v := Relation.ReflTransGen.refl

theorem Reaches.trans {u v w : Nat} (h : g.Reaches u v) (h' : g.Reaches v w) : g.Reaches u w :=
  Relation.ReflTransGen.trans h h'

theorem Reaches.single {v w : Nat} (h : w ∈ g.targets v) : g.Reaches v w :=
  Relation.ReflTransGen.single h

/-- A property that edges carry on is carried along paths. -/
theorem Reaches.carry {P : Nat → Prop} (hP : ∀ v, P v → ∀ w ∈ g.targets v, P w) {v w : Nat}
    (h : g.Reaches v w) (hv : P v) : P w := by
  induction h with
  | refl => exact hv
  | tail _ hedge ih => exact hP _ ih _ hedge

/-- Every edge of a node leads to a node. -/
def Closed (g : EmbedGraph) : Prop := ∀ v < g.size, ∀ w ∈ g.targets v, w < g.size

/-- **Components peeled off a graph**, the latest one first. -/
inductive Peeled (g : EmbedGraph) : List (List Nat) → Prop
  | nil : Peeled g []
  | cons {c : List Nat} {found : List (List Nat)} (inhabited : c ≠ [])
      (linked : ∀ v ∈ c, ∀ w ∈ c, g.Reaches v w)
      (leads : ∀ v ∈ c, ∀ w ∈ g.targets v, w ∈ c ∨ w ∈ found.flatten)
      (earlier : Peeled g found) : Peeled g (c :: found)

namespace Peeled

variable {found : List (List Nat)}

theorem tail {c : List Nat} (h : Peeled g (c :: found)) : Peeled g found := by
  obtain _ | ⟨_, _, _, earlier⟩ := h
  exact earlier

/-- The components up to any one of them were peeled off themselves. -/
theorem of_append {later : List (List Nat)} (h : Peeled g (later ++ found)) : Peeled g found := by
  induction later with
  | nil => exact h
  | cons c later ih => exact ih h.tail

theorem ne_nil (h : Peeled g found) {c : List Nat} (hc : c ∈ found) : c ≠ [] := by
  obtain ⟨later, earlier, rfl⟩ := List.append_of_mem hc
  obtain _ | ⟨inhabited, _, _, _⟩ := h.of_append
  exact inhabited

theorem linked (h : Peeled g found) {c : List Nat} (hc : c ∈ found) {v w : Nat} (hv : v ∈ c)
    (hw : w ∈ c) : g.Reaches v w := by
  obtain ⟨later, earlier, rfl⟩ := List.append_of_mem hc
  obtain _ | ⟨_, linked, _, _⟩ := h.of_append
  exact linked v hv w hw

/-- Edges do not lead out of what was peeled off. -/
theorem target_mem (h : Peeled g found) {v : Nat} (hv : v ∈ found.flatten) :
    ∀ w ∈ g.targets v, w ∈ found.flatten := by
  intro w hw
  obtain ⟨c, hc, hvc⟩ := List.mem_flatten.mp hv
  obtain ⟨later, earlier, rfl⟩ := List.append_of_mem hc
  obtain _ | ⟨_, _, leads, _⟩ := h.of_append
  simp only [List.flatten_append, List.flatten_cons, List.mem_append]
  exact Or.inr (leads v hvc w hw)

/-- Paths do not lead out of what was peeled off. -/
theorem reaches_mem (h : Peeled g found) {v w : Nat} (hr : g.Reaches v w)
    (hv : v ∈ found.flatten) : w ∈ found.flatten :=
  hr.carry (fun _ hu => h.target_mem hu) hv

/-- What a node of the latest component reaches is in that component or in an earlier one. -/
theorem reaches_cons {c : List Nat} (h : Peeled g (c :: found)) {v w : Nat} (hr : g.Reaches v w)
    (hv : v ∈ c) : w ∈ c ∨ w ∈ found.flatten := by
  have hmem : v ∈ (c :: found).flatten := List.mem_flatten.mpr ⟨c, List.mem_cons_self, hv⟩
  simpa using h.reaches_mem hr hmem

/-- **A component of a node** holds exactly the nodes that the node reaches and that reach it. -/
theorem mem_iff (h : Peeled g found) (hnd : found.flatten.Nodup) {c : List Nat} (hc : c ∈ found)
    {v : Nat} (hv : v ∈ c) (w : Nat) : w ∈ c ↔ g.Reaches v w ∧ g.Reaches w v := by
  refine ⟨fun hw => ⟨h.linked hc hv hw, h.linked hc hw hv⟩, fun ⟨hvw, hwv⟩ => ?_⟩
  obtain ⟨later, earlier, rfl⟩ := List.append_of_mem hc
  have hlast : Peeled g (c :: earlier) := h.of_append
  rcases hlast.reaches_cons hvw hv with hw | hw
  · exact hw
  -- The way back would end among the earlier components, where `v` is not.
  · have hve : v ∈ earlier.flatten := hlast.tail.reaches_mem hwv hw
    rw [List.flatten_append, List.flatten_cons] at hnd
    have hdisj := List.disjoint_of_nodup_append (List.Nodup.of_append_right hnd)
    exact absurd hve (hdisj hv)

/-- **No edge leads from an earlier component to a later one.** -/
theorem not_edge (h : Peeled g found) (hnd : found.flatten.Nodup) :
    found.Pairwise fun later earlier => ∀ v ∈ earlier, ∀ w ∈ later, ¬ g.Edge v w := by
  induction found with
  | nil => exact List.Pairwise.nil
  | cons c found ih =>
    rw [List.flatten_cons] at hnd
    have hfound : Peeled g found := h.tail
    refine List.pairwise_cons.mpr ⟨fun d hd v hv w hw hedge => ?_,
      ih hfound (List.Nodup.of_append_right hnd)⟩
    have hvf : v ∈ found.flatten := List.mem_flatten.mpr ⟨d, hd, hv⟩
    exact List.disjoint_of_nodup_append hnd hw (hfound.target_mem hvf w hedge)

end Peeled

end ScriptSuite.EmbedGraph
