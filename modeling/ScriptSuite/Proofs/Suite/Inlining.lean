import Mathlib.Data.Finset.Card
import Mathlib.Data.Finset.Range
import Mathlib.Logic.Hydra
import Mathlib.Tactic.Abel
import ScriptSuite.Proofs.EmbedGraph.Cycles
import ScriptSuite.Proofs.Suite.Linking

/-!
# Proofs/Suite/Inlining — a suite without faults can be inlined

To carry a script out, its embeds are replaced by the steps of the scripts they name, and so on with
the embeds among these.  This ends, in whatever order it is done, exactly when ids have ranks that
fall along embeds (`exists_rank_iff_wellFounded`).  The check finds no fault exactly when there are
such ranks, every embed is resolved, and no id is used twice (`valid_check_iff`).
-/

namespace ScriptSuite

/-! ## Ranks -/

/-- **A relation with finitely many successors and no circle has ranks**: the rank of an element is
how many others can be come by from it. -/
theorem exists_rank_of_acyclic {α : Type} {r : α → α → Prop} (nodes : Finset α)
    (hnodes : ∀ a b, r a b → b ∈ nodes) (hacyclic : ∀ a ∈ nodes, ¬ Relation.TransGen r a a) :
    ∃ rank : α → Nat, ∀ a b, r a b → rank b < rank a := by
  classical
  refine ⟨fun a => (nodes.filter (Relation.TransGen r a)).card, fun a b hab => ?_⟩
  have hb := hnodes a b hab
  have hsub : nodes.filter (Relation.TransGen r b) ⊆ nodes.filter (Relation.TransGen r a) := by
    intro c hc
    rw [Finset.mem_filter] at hc ⊢
    exact ⟨hc.1, .head hab hc.2⟩
  refine Finset.card_lt_card ((Finset.ssubset_iff_of_subset hsub).mpr ⟨b, ?_, ?_⟩)
  · exact Finset.mem_filter.mpr ⟨hb, .single hab⟩
  · exact fun h => hacyclic b hb (Finset.mem_filter.mp h).2

/-! ## Embeds among steps -/

/-- Whether a step embeds a script. -/
def Step.isEmbed : Step → Bool
  | .embed _ => true
  | .instruction _ => false

/-- **The embeds of a script are its steps that are one**, each with its place. -/
theorem Script.filterMap_embeds {α : Type} (s : Script) (f : Nat × Embed → Option α) :
    s.embeds.filterMap f = s.steps.zipIdx.filterMap fun
      | (.embed e, i) => f (i, e)
      | (.instruction _, _) => none := by
  rw [Script.embeds, List.filterMap_filterMap]
  refine List.filterMap_congr fun step _ => ?_
  obtain ⟨_ | _, i⟩ := step <;> rfl

/-- The embed with a place is the step at this place. -/
theorem Script.mem_embeds_iff {s : Script} {i : Nat} {e : Embed} :
    (i, e) ∈ s.embeds ↔ s.steps[i]? = some (.embed e) := by
  rw [Script.embeds, List.mem_filterMap]
  constructor
  · rintro ⟨⟨_ | e', j⟩, hstep, heq⟩
    · cases heq
    · obtain ⟨rfl, rfl⟩ := Prod.mk.inj (Option.some.inj heq)
      exact List.mem_zipIdx_iff_getElem?.mp hstep
  · exact fun h => ⟨(.embed e, i), List.mem_zipIdx_iff_getElem?.mpr h, rfl⟩

theorem Script.mem_targets_iff {s : Script} {t : String} :
    t ∈ s.targets ↔ ∃ e, Step.embed e ∈ s.steps ∧ e.target = t := by
  rw [Script.targets, List.mem_map]
  constructor
  · rintro ⟨⟨i, e⟩, he, rfl⟩
    exact ⟨e, List.mem_of_getElem? (Script.mem_embeds_iff.mp he), rfl⟩
  · rintro ⟨e, he, rfl⟩
    obtain ⟨i, hi⟩ := List.mem_iff_getElem?.mp he
    exact ⟨(i, e), Script.mem_embeds_iff.mpr hi, rfl⟩

theorem Script.length_embeds (s : Script) : s.embeds.length = s.steps.countP (·.isEmbed) := by
  conv_rhs => rw [← List.zipIdx_map_fst 0 s.steps, List.countP_map]
  rw [Script.embeds, List.length_filterMap_eq_countP]
  refine List.countP_congr fun step _ => ?_
  obtain ⟨_ | _, i⟩ := step <;> simp [Step.isEmbed]

/-- The ids that some steps embed. -/
def Step.targets (steps : List Step) : List String :=
  steps.filterMap fun
    | .embed e => some e.target
    | .instruction _ => none

theorem Step.targets_append (steps steps' : List Step) :
    Step.targets (steps ++ steps') = Step.targets steps ++ Step.targets steps' :=
  List.filterMap_append

/-- An id that steps embed stands in one of them. -/
theorem Step.exists_of_mem_targets {steps : List Step} {a : String} (h : a ∈ Step.targets steps) :
    ∃ before after e, steps = before ++ Step.embed e :: after ∧ e.target = a := by
  obtain ⟨step, hstep, ha⟩ := List.mem_filterMap.mp h
  obtain ⟨before, after, rfl⟩ := List.append_of_mem hstep
  cases step with
  | instruction i => simp at ha
  | embed e => exact ⟨before, after, e, rfl, by simpa using ha⟩

theorem Script.targets_eq (s : Script) : s.targets = Step.targets s.steps := by
  conv_rhs => rw [← List.zipIdx_map_fst 0 s.steps, Step.targets, List.filterMap_map]
  rw [Script.targets, ← List.filterMap_eq_map, Script.filterMap_embeds]
  refine List.filterMap_congr fun step _ => ?_
  obtain ⟨_ | _, i⟩ := step <;> rfl

/-! ## Replacing embeds -/

namespace Suite

variable {scripts : List Script}

/-- **One replacement**: an embed gives way to the steps of a script whose id it names. -/
inductive Replaces (scripts : List Script) : List Step → List Step → Prop
  | embed (before after : List Step) (e : Embed) (s : Script) (hs : s ∈ scripts)
      (hid : s.id = e.target) :
      Replaces scripts (before ++ .embed e :: after) (before ++ s.steps ++ after)

/-- **Ranks of ids** that fall from each script to the ids that it embeds. -/
def HasRank (scripts : List Script) (rank : String → Nat) : Prop :=
  ∀ s ∈ scripts, ∀ t ∈ s.targets, rank t < rank s.id

/-- With ranks, a replacement takes one embed away and puts embeds of smaller rank in its place. -/
theorem HasRank.cutExpand {rank : String → Nat} (h : HasRank scripts rank)
    {steps steps' : List Step} (hr : Replaces scripts steps steps') :
    Relation.CutExpand (InvImage (· < ·) rank) (Step.targets steps' : Multiset String)
      (Step.targets steps) := by
  obtain ⟨before, after, e, s, hs, hid⟩ := hr
  refine ⟨(Step.targets s.steps : Multiset String), e.target, fun t ht => ?_, ?_⟩
  · rw [InvImage, ← hid]
    exact h s hs t (s.targets_eq ▸ ht)
  · have hcons : Step.targets (.embed e :: after) = e.target :: Step.targets after := rfl
    simp only [Step.targets_append, hcons, ← Multiset.coe_add, ← Multiset.cons_coe,
      ← Multiset.singleton_add]
    abel

/-- An id that is embedded in steps from which every replacement ends starts no endless chain. -/
theorem acc_of_mem_targets {steps : List Step}
    (h : Acc (fun steps' steps => Replaces scripts steps steps') steps) :
    ∀ a ∈ Step.targets steps,
      Acc (fun b a => ∃ s ∈ scripts, s.id = a ∧ b ∈ s.targets) a := by
  induction h with
  | intro steps _ ih =>
    intro a ha
    obtain ⟨before, after, e, rfl, rfl⟩ := Step.exists_of_mem_targets ha
    refine Acc.intro _ fun b ⟨s, hs, hid, hb⟩ => ?_
    refine ih _ (.embed before after e s hs hid) b ?_
    rw [Step.targets_append, Step.targets_append, ← s.targets_eq]
    exact List.mem_append_left _ (List.mem_append_right _ hb)

/-- **Replacing embeds ends**, in whatever order, exactly when there are ranks. -/
theorem exists_rank_iff_wellFounded : (∃ rank, HasRank scripts rank) ↔
    WellFounded fun steps' steps => Replaces scripts steps steps' := by
  constructor
  · rintro ⟨rank, h⟩
    have hwf := (InvImage.wf rank Nat.lt_wfRel.wf).cutExpand
    exact Subrelation.wf (fun hr => h.cutExpand hr)
      (InvImage.wf (fun steps => (Step.targets steps : Multiset String)) hwf)
  · intro hwf
    have hids : WellFounded fun b a => ∃ s ∈ scripts, s.id = a ∧ b ∈ s.targets := by
      refine ⟨fun a => acc_of_mem_targets (hwf.apply [.embed ⟨a, true⟩]) a ?_⟩
      exact List.mem_singleton_self a
    have hfinite : ∀ a b, (∃ s ∈ scripts, s.id = a ∧ b ∈ s.targets) →
        b ∈ (scripts.flatMap (·.targets)).toFinset := by
      rintro a b ⟨s, hs, -, hb⟩
      rw [List.mem_toFinset, List.mem_flatMap]
      exact ⟨s, hs, hb⟩
    obtain ⟨rank, h⟩ := exists_rank_of_acyclic _ hfinite fun a _ ha =>
      hids.transGen.irrefl.irrefl a (Relation.transGen_swap.mpr ha)
    exact ⟨rank, fun s hs t ht => h s.id t ⟨s, hs, rfl, ht⟩⟩

/-! ## Ranks and cycles -/

section Cycles

variable {g : EmbedGraph} {consulted : Bool} {l : Linking}

/-- An edge is an embed of one known id by another. -/
theorem Linked.edge_iff (h : Linked g consulted scripts l) (i j : Nat) : l.graph.Edge i j ↔
    ∃ s ∈ scripts, ∃ t ∈ s.targets, l.graph.node? s.id = some i ∧ l.graph.node? t = some j := by
  rw [EmbedGraph.Edge, h.targets, List.mem_flatMap]
  refine exists_congr fun s => and_congr_right fun _ => ?_
  rw [funext h.node?_eq]
  by_cases hs : g.node? s.id = some i <;> simp [hs]

/-- With ranks no node lies on a cycle. -/
theorem Linked.not_onCycle (h : Linked g consulted scripts l) {rank : String → Nat}
    (hrank : HasRank scripts rank) (v : Nat) : ¬ l.graph.OnCycle v := by
  have hedge : ∀ i j, l.graph.Edge i j →
      ((l.graph.name? j).elim 0 rank) < (l.graph.name? i).elim 0 rank := by
    intro i j hij
    obtain ⟨s, hs, t, ht, hi, hj⟩ := (h.edge_iff i j).mp hij
    rw [(h.coherent.node?_eq_some _ _).mp hi, (h.coherent.node?_eq_some _ _).mp hj]
    exact hrank s hs t ht
  have hpath : ∀ j, Relation.TransGen l.graph.Edge v j →
      ((l.graph.name? j).elim 0 rank) < (l.graph.name? v).elim 0 rank := by
    intro j hj
    induction hj with
    | single hij => exact hedge _ _ hij
    | tail _ hij ih => exact Nat.lt_trans (hedge _ _ hij) ih
  exact fun hcycle => Nat.lt_irrefl _ (hpath v hcycle)

/-- **Without cycles there are ranks**, when all embeds are resolved. -/
theorem Linked.exists_rank (h : Linked g consulted scripts l)
    (hknown : ∀ s ∈ scripts, ∀ t ∈ s.targets, ∃ j, l.graph.node? t = some j)
    (hids : ∀ s ∈ scripts, ∃ i, l.graph.node? s.id = some i)
    (hacyclic : ∀ v < l.graph.size, ¬ l.graph.OnCycle v) : ∃ rank, HasRank scripts rank := by
  have hfinite : ∀ i j, l.graph.Edge i j → j ∈ Finset.range l.graph.size := by
    intro i j hij
    obtain ⟨s, hs, t, ht, -, hj⟩ := (h.edge_iff i j).mp hij
    exact Finset.mem_range.mpr (h.coherent.node?_lt hj)
  obtain ⟨rank, hrank⟩ := exists_rank_of_acyclic _ hfinite fun v hv =>
    hacyclic v (Finset.mem_range.mp hv)
  refine ⟨fun id => (l.graph.node? id).elim 0 rank, fun s hs t ht => ?_⟩
  obtain ⟨i, hi⟩ := hids s hs
  obtain ⟨j, hj⟩ := hknown s hs t ht
  simp only [hi, hj, Option.elim_some]
  exact hrank i j ((h.edge_iff i j).mpr ⟨s, hs, t, ht, hi, hj⟩)

end Cycles

/-! ## Validity -/

theorem perm_ordered (scripts : List Script) : (ordered scripts).Perm scripts :=
  List.mergeSort_perm scripts _

/-- Linking leaves no fault exactly when every embed is of a known id. -/
theorem faults_link_eq_nil (scripts : List Script) (external : Option (List ExternalScript))
    (unloaded : List String) : (link scripts external unloaded).faults = [] ↔
      ∀ s ∈ scripts, ∀ t ∈ s.targets, Known scripts external unloaded t := by
  have hknown := node?_knownIds scripts external unloaded
  rw [← List.reverse_eq_nil_iff, (linked_link scripts external unloaded).faults,
    List.flatMap_eq_nil_iff]
  refine forall₂_congr fun s _ => ?_
  simp only [List.filterMap_eq_nil_iff, Script.targets, List.mem_map, forall_exists_index, and_imp,
    forall_apply_eq_imp_iff₂, ← hknown, unresolved, ite_eq_left_iff, reduceCtorEq, imp_false,
    not_not, Option.isSome_iff_exists]

/-- The check finds no fault exactly when none of its three passes does. -/
theorem valid_check_eq_true (scripts : List Script) (external : Option (List ExternalScript))
    (unloaded : List String) : (check scripts external unloaded).valid = true ↔
      duplicates (ordered scripts) = [] ∧ (link (ordered scripts) external unloaded).faults = [] ∧
        ∀ v < (link (ordered scripts) external unloaded).graph.size,
          ¬ (link (ordered scripts) external unloaded).graph.OnCycle v := by
  obtain ⟨cs, hcs, hnil⟩ :=
    EmbedGraph.exists_cycles (linked_link (ordered scripts) external unloaded).closed
  rw [← hnil]
  simp [check, Findings.valid, hcs]

/-- **A suite has no faults** exactly when no two scripts have one id, every embed is of a known id,
and ids have ranks that fall along embeds; and such ranks are what makes inlining end. -/
theorem valid_check_iff (scripts : List Script) (external : Option (List ExternalScript))
    (unloaded : List String) :
    ((check scripts external unloaded).valid = true ↔
      (scripts.map (·.id)).Nodup ∧
      (∀ s ∈ scripts, ∀ t ∈ s.targets,
        t ∈ scripts.map (·.id) ∨ t ∈ (external.getD []).map (·.id) ∨ t ∈ unloaded) ∧
      ∃ rank : String → Nat, ∀ s ∈ scripts, ∀ t ∈ s.targets, rank t < rank s.id) ∧
    ((∃ rank : String → Nat, ∀ s ∈ scripts, ∀ t ∈ s.targets, rank t < rank s.id) ↔
      WellFounded fun steps' steps => Replaces scripts steps steps') := by
  refine ⟨?_, exists_rank_iff_wellFounded⟩
  have hperm := perm_ordered scripts
  have hmem : ∀ s, s ∈ ordered scripts ↔ s ∈ scripts := fun s => hperm.mem_iff
  have hlinked := linked_link (ordered scripts) external unloaded
  have hknown : ∀ id, Known (ordered scripts) external unloaded id ↔
      Known scripts external unloaded id := by
    intro id
    simp only [Known, (hperm.map _).mem_iff]
  have hnode : ∀ id, (∃ i, (link (ordered scripts) external unloaded).graph.node? id = some i) ↔
      Known scripts external unloaded id := by
    intro id
    rw [hlinked.node?_eq, node?_knownIds, hknown]
  rw [valid_check_eq_true, duplicates_eq, duplicatesAfter_eq_nil, faults_link_eq_nil]
  simp only [hknown, hmem, (hperm.map (·.id)).nodup_iff]
  refine and_congr (by simp) (and_congr_right fun hresolved => ⟨fun hacyclic => ?_, ?_⟩)
  · obtain ⟨rank, hrank⟩ := hlinked.exists_rank
      (fun s hs t ht => (hnode t).mpr (hresolved s ((hmem s).mp hs) t ht))
      (fun s hs => (hnode s.id).mpr (Or.inl (List.mem_map_of_mem ((hmem s).mp hs)))) hacyclic
    exact ⟨rank, fun s hs => hrank s ((hmem s).mpr hs)⟩
  · rintro ⟨rank, hrank⟩ v -
    have hranked : HasRank (ordered scripts) rank := fun s hs => hrank s ((hmem s).mp hs)
    exact hlinked.not_onCycle hranked v

end Suite

end ScriptSuite
