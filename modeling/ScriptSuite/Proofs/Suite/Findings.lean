import ScriptSuite.Proofs.EmbedGraph.Circles
import ScriptSuite.Proofs.EmbedGraph.Counting
import ScriptSuite.Proofs.Suite.Inlining
import ScriptSuite.Proofs.Suite.Ordering

/-!
# Proofs/Suite/Findings — what a check finds, and nothing else

The findings about a suite are said of the steps of its scripts, without the check's tables and
without its graph (`Finds`): which scripts have an id that an earlier one has, which steps embed an
id that nobody has, and which ids embed each other in a circle.  There are no other findings than
these (`check_eq_iff`), so they depend on the order of the scripts only where two of them are at one
location (`check_rearranged`).
-/

namespace ScriptSuite.Suite

variable {scripts scripts' : List Script} {external external' : Option (List ExternalScript)}
  {unloaded unloaded' : List String} {f f' : Findings}

/-! ## What there is to find -/

/-- An id embeds another when a step of a script that has it does; when several have it, of any of
them. -/
def Embeds (scripts : List Script) (a b : String) : Prop :=
  ∃ s ∈ scripts, s.id = a ∧ ∃ e, Step.embed e ∈ s.steps ∧ e.target = b

/-- The fault of the script at a place, when an earlier one has its id: it names the location of the
first that has it. -/
def repeatedId? (inOrder : List Script) (e : Script × Nat) : Option SuiteFault :=
  ((inOrder.take e.2).find? (·.id = e.1.id)).map fun first =>
    .duplicateId e.1.id e.1.location first.location

/-- **The repeated ids**: one fault for each script whose id an earlier one has. -/
def repeatedIds (inOrder : List Script) : List SuiteFault :=
  inOrder.zipIdx.filterMap (repeatedId? inOrder)

instance (scripts : List Script) (external : Option (List ExternalScript)) (unloaded : List String)
    (id : String) : Decidable (Known scripts external unloaded id) :=
  inferInstanceAs (Decidable (_ ∨ _ ∨ _))

/-- The fault of the step at a place in a script, when it embeds an id that nobody has. -/
def unresolvedEmbed? (inOrder : List Script) (external : Option (List ExternalScript))
    (unloaded : List String) (s : Script) : Step × Nat → Option SuiteFault
  | (.embed e, i) =>
    if Known inOrder external unloaded e.target then none
    else some (.unresolvedEmbed s.id s.location i e.target external.isSome)
  | (.instruction _, _) => none

/-- **The unresolved embeds**: one fault for each embed of an id that nobody has, step by step. -/
def unresolvedEmbeds (inOrder : List Script) (external : Option (List ExternalScript))
    (unloaded : List String) : List SuiteFault :=
  inOrder.flatMap fun s =>
    s.steps.zipIdx.filterMap (unresolvedEmbed? inOrder external unloaded s)

/-- The ids that somebody has, each as often as it is had. -/
def knownList (scripts : List Script) (external : Option (List ExternalScript))
    (unloaded : List String) : List String :=
  scripts.map (·.id) ++ (external.getD []).map (·.id) ++ unloaded

/-- **What is found about a suite**, as it may be said without searching for it. -/
structure Finds (scripts : List Script) (external : Option (List ExternalScript))
    (unloaded : List String) (f : Findings) : Prop where
  /-- Repeated ids and unresolved embeds in the order of the scripts' locations, then the circles
  in the order of their members. -/
  faults_eq : ∃ (inOrder : List Script) (circles : List (List String)),
    Rearranged scripts inOrder ∧ inOrder.Pairwise (·.location ≤ ·.location) ∧
    circles.SortedLT ∧ (∀ ids, ids ∈ circles ↔ EmbedGraph.IsCircle (Embeds scripts) ids) ∧
    f.faults = repeatedIds inOrder ++ unresolvedEmbeds inOrder external unloaded ++
      circles.map .circularEmbeds
  consulted_eq : f.consulted = external.isSome
  scripts_eq : f.scripts = scripts.length
  nodes_eq : f.nodes = (knownList scripts external unloaded).toFinset.card
  /-- Each step that embeds a script is an edge or a fault. -/
  edges_add : f.edges + f.faults.countP (·.code = .unresolvedEmbed) =
    (scripts.flatMap (·.steps)).countP (·.isEmbed)

attribute [ext] Findings

/-- **A suite has one list of findings.** -/
theorem Finds.unique (h : Finds scripts external unloaded f)
    (h' : Finds scripts external unloaded f') : f = f' := by
  obtain ⟨inOrder, circles, hre, hpair, hsorted, hmem, hfaults⟩ := h.faults_eq
  obtain ⟨inOrder', circles', hre', hpair', hsorted', hmem', hfaults'⟩ := h'.faults_eq
  have horder : inOrder = inOrder' := (hre.symm.trans hre').eq_of_pairwise hpair hpair'
  have hcircles : circles = circles' :=
    hsorted.eq_of_mem_iff hsorted' fun ids => (hmem ids).trans (hmem' ids).symm
  have hsame : f.faults = f'.faults := by rw [hfaults, hfaults', horder, hcircles]
  have hedges : f.edges = f'.edges := by
    have hsum := h.edges_add.trans h'.edges_add.symm
    rwa [hsame, Nat.add_right_cancel_iff] at hsum
  exact Findings.ext hsame (h.consulted_eq.trans h'.consulted_eq.symm)
    (h.scripts_eq.trans h'.scripts_eq.symm) (h.nodes_eq.trans h'.nodes_eq.symm) hedges

/-! ## Repeated ids -/

/-- The faults of the scripts behind `earlier` ones. -/
theorem duplicatesAfter_eq (earlier rest : List Script) : duplicatesAfter earlier rest =
    (rest.zipIdx earlier.length).filterMap (repeatedId? (earlier ++ rest)) := by
  induction rest generalizing earlier with
  | nil => rfl
  | cons s rest ih =>
    have hs : repeatedId? (earlier ++ s :: rest) (s, earlier.length) =
        (earlier.find? (·.id = s.id)).map fun first =>
          .duplicateId s.id s.location first.location := by
      rw [repeatedId?, List.take_left]
    rw [duplicatesAfter, ih, List.zipIdx_cons, List.filterMap_cons, hs, List.length_append,
      List.append_assoc]
    cases earlier.find? (·.id = s.id) <;> rfl

theorem duplicates_eq_repeatedIds (inOrder : List Script) :
    duplicates inOrder = repeatedIds inOrder :=
  (duplicates_eq inOrder).trans (duplicatesAfter_eq [] inOrder)

/-! ## Unresolved embeds -/

theorem mem_unresolvedEmbeds_iff {inOrder : List Script} {fault : SuiteFault} :
    fault ∈ unresolvedEmbeds inOrder external unloaded ↔ ∃ s ∈ inOrder, ∃ i e,
      s.steps[i]? = some (.embed e) ∧ ¬ Known inOrder external unloaded e.target ∧
        fault = .unresolvedEmbed s.id s.location i e.target external.isSome := by
  rw [unresolvedEmbeds, List.mem_flatMap]
  refine exists_congr fun s => and_congr_right fun _ => ?_
  rw [List.mem_filterMap]
  constructor
  · rintro ⟨⟨_ | e, i⟩, hstep, hfault⟩
    · cases hfault
    · obtain ⟨hknown, hfault⟩ := Option.ite_none_left_eq_some.mp hfault
      exact ⟨i, e, List.mem_zipIdx_iff_getElem?.mp hstep, hknown, (Option.some.inj hfault).symm⟩
  · rintro ⟨i, e, hstep, hknown, rfl⟩
    exact ⟨(.embed e, i), List.mem_zipIdx_iff_getElem?.mpr hstep, if_neg hknown⟩

/-- They are the faults of the embeds of each script. -/
theorem unresolvedEmbeds_eq (inOrder : List Script) (external : Option (List ExternalScript))
    (unloaded : List String) : unresolvedEmbeds inOrder external unloaded =
      inOrder.flatMap fun s =>
        (s.embeds.filter fun e => ¬ Known inOrder external unloaded e.2.target).map fun e =>
          .unresolvedEmbed s.id s.location e.1 e.2.target external.isSome := by
  rw [unresolvedEmbeds]
  refine List.flatMap_congr fun s _ => ?_
  rw [← List.filterMap_eq_map, List.filterMap_filter, Script.filterMap_embeds]
  refine List.filterMap_congr fun step _ => ?_
  obtain ⟨_ | e, i⟩ := step
  · rfl
  · simp [unresolvedEmbed?]

theorem node?_knownIds_isSome (scripts : List Script) (external : Option (List ExternalScript))
    (unloaded : List String) (id : String) :
    ((knownIds scripts external unloaded).node? id).isSome =
      decide (Known scripts external unloaded id) := by
  rw [Bool.eq_iff_iff, decide_eq_true_iff, ← node?_knownIds, Option.isSome_iff_exists]

theorem faults_link_eq (scripts : List Script) (external : Option (List ExternalScript))
    (unloaded : List String) :
    (link scripts external unloaded).faults.reverse =
      unresolvedEmbeds scripts external unloaded := by
  rw [(linked_link scripts external unloaded).faults, unresolvedEmbeds_eq]
  refine List.flatMap_congr fun s _ => ?_
  rw [← List.filterMap_eq_map, List.filterMap_filter]
  refine List.filterMap_congr fun e _ => ?_
  rw [unresolved, node?_knownIds_isSome]
  by_cases h : Known scripts external unloaded e.2.target <;> simp [h]

/-! ## Edges and circles -/

section Graph

variable {g : EmbedGraph} {consulted : Bool} {l : Linking}

/-- An edge between ids is an embed of a known id. -/
theorem Linked.namedEdge_iff (h : Linked g consulted scripts l)
    (hids : ∀ s ∈ scripts, ∃ i, g.node? s.id = some i) (a b : String) :
    l.graph.NamedEdge a b ↔ Embeds scripts a b ∧ ∃ j, g.node? b = some j := by
  have hname : ∀ id i, g.node? id = some i ↔ l.graph.name? i = some id := fun id i => by
    rw [← h.node?_eq, h.coherent.node?_eq_some]
  simp only [EmbedGraph.NamedEdge, h.edge_iff, h.node?_eq, ← hname]
  constructor
  · rintro ⟨i, j, ha, hb, s, hs, t, ht, hi, hj⟩
    obtain rfl : a = s.id :=
      Option.some.inj (((hname a i).mp ha).symm.trans ((hname s.id i).mp hi))
    obtain rfl : b = t := Option.some.inj (((hname b j).mp hb).symm.trans ((hname t j).mp hj))
    exact ⟨⟨s, hs, rfl, Script.mem_targets_iff.mp ht⟩, j, hb⟩
  · rintro ⟨⟨s, hs, rfl, hb⟩, j, hj⟩
    obtain ⟨i, hi⟩ := hids s hs
    exact ⟨i, j, hi, hj, s, hs, b, Script.mem_targets_iff.mpr hb, hi, hj⟩

/-- **The circles are those of the embeds**: an id in a circle embeds something, so a script has it
and it is known. -/
theorem Linked.isCircle_iff (h : Linked g consulted scripts l)
    (hids : ∀ s ∈ scripts, ∃ i, g.node? s.id = some i) (ids : List String) :
    EmbedGraph.IsCircle l.graph.NamedEdge ids ↔ EmbedGraph.IsCircle (Embeds scripts) ids := by
  have hknown : ∀ a b, Embeds scripts a b → ∃ i, g.node? a = some i := by
    rintro a b ⟨s, hs, rfl, -⟩
    exact hids s hs
  have hto : ∀ a b, Relation.TransGen l.graph.NamedEdge a b →
      Relation.TransGen (Embeds scripts) a b :=
    Relation.TransGen.mono fun a b hab => ((h.namedEdge_iff hids a b).mp hab).1
  have hfrom : ∀ a b, Relation.TransGen (Embeds scripts) a b → (∃ j, g.node? b = some j) →
      Relation.TransGen l.graph.NamedEdge a b := by
    intro a b hpath
    induction hpath with
    | single hab => exact fun hb => .single ((h.namedEdge_iff hids _ _).mpr ⟨hab, hb⟩)
    | tail _ hcd ih =>
      exact fun hd => .tail (ih (hknown _ _ hcd)) ((h.namedEdge_iff hids _ _).mpr ⟨hcd, hd⟩)
  have hsource : ∀ a b, Relation.TransGen (Embeds scripts) a b → ∃ i, g.node? a = some i := by
    intro a b hpath
    obtain ⟨c, hac, -⟩ := Relation.TransGen.head'_iff.mp hpath
    exact hknown a c hac
  exact EmbedGraph.isCircle_congr fun a b =>
    ⟨fun ⟨hab, hba⟩ => ⟨hto a b hab, hto b a hba⟩,
      fun ⟨hab, hba⟩ => ⟨hfrom a b hab (hsource b a hba), hfrom b a hba (hsource a b hab)⟩⟩

/-- Counting the edges node by node counts the embeds of known ids script by script: each script has
one node from which its edges leave. -/
theorem sum_length_targets {n : Nat} (scripts : List Script)
    (hids : ∀ s ∈ scripts, ∃ i < n, g.node? s.id = some i) :
    ∑ i ∈ Finset.range n, (scripts.flatMap fun s =>
      if g.node? s.id = some i then s.targets.filterMap g.node? else []).length =
        (scripts.flatMap (·.embeds)).countP fun e => (g.node? e.2.target).isSome := by
  induction scripts with
  | nil => simp
  | cons s rest ih =>
    obtain ⟨⟨i, hlt, hi⟩, hrest⟩ := List.forall_mem_cons.mp hids
    have hone : ∑ k ∈ Finset.range n,
        (if g.node? s.id = some k then s.targets.filterMap g.node? else []).length =
          (s.targets.filterMap g.node?).length := by
      rw [Finset.sum_eq_single_of_mem i (Finset.mem_range.mpr hlt), if_pos hi]
      intro k _ hk
      rw [if_neg (by simp [hi, hk.symm]), List.length_nil]
    simp only [List.flatMap_cons, List.length_append, Finset.sum_add_distrib, List.countP_append]
    rw [hone, ih hrest, List.length_filterMap_eq_countP, Script.targets, List.countP_map]
    rfl

/-- **Each embed of a known id is an edge.** -/
theorem Linked.edgeCount_eq (h : Linked g consulted scripts l)
    (hids : ∀ s ∈ scripts, ∃ i, g.node? s.id = some i) :
    l.graph.edgeCount =
      (scripts.flatMap (·.embeds)).countP fun e => (g.node? e.2.target).isSome := by
  have hlt : ∀ s ∈ scripts, ∃ i < l.graph.size, g.node? s.id = some i := by
    intro s hs
    obtain ⟨i, hi⟩ := hids s hs
    exact ⟨i, h.coherent.node?_lt ((h.node?_eq s.id).trans hi), hi⟩
  rw [h.coherent.edgeCount_eq_sum, ← sum_length_targets scripts hlt]
  exact Finset.sum_congr rfl fun i _ => congrArg List.length (h.targets i)

end Graph

/-! ## The findings -/

/-- Two ids that embed each other are the only circle of scripts that have no other ids. -/
theorem mem_singleton_pair_iff_isCircle {a b : String} (hlt : a < b) (hab : Embeds scripts a b)
    (hba : Embeds scripts b a) (hids : ∀ s ∈ scripts, s.id ∈ [a, b]) (ids : List String) :
    ids ∈ [[a, b]] ↔ EmbedGraph.IsCircle (Embeds scripts) ids := by
  have hsorted : [a, b].SortedLT := (List.pairwise_pair.mpr hlt).sortedLT
  have hsources : ∀ c d, Embeds scripts c d → c ∈ [a, b] := by
    rintro _ _ ⟨s, hs, rfl, -⟩
    exact hids s hs
  rw [List.mem_singleton,
    EmbedGraph.isCircle_iff_eq hsorted (EmbedGraph.leadToEachOther_pair hab hba) hsources]

theorem embeds_congr (h : scripts.Perm scripts') : Embeds scripts = Embeds scripts' := by
  funext a b
  simp only [Embeds, h.mem_iff]

theorem known_perm (h : scripts.Perm scripts') (id : String) :
    Known scripts external unloaded id ↔ Known scripts' external unloaded id := by
  simp only [Known, (h.map _).mem_iff]

theorem mem_knownList (id : String) :
    id ∈ knownList scripts external unloaded ↔ Known scripts external unloaded id := by
  simp only [knownList, Known, List.mem_append, or_assoc]

/-- Faults of one kind are all of the faults of that kind, and none of another. -/
theorem filter_code_eq {faults : List SuiteFault} {kind : Diagnostic.Code}
    (h : ∀ fault ∈ faults, fault.code = kind) (kind' : Diagnostic.Code) :
    faults.filter (·.code = kind') = if kind = kind' then faults else [] := by
  split
  · next hkind => exact List.filter_eq_self.mpr fun fault hf => by simp [h fault hf, hkind]
  · next hkind => exact List.filter_eq_nil_iff.mpr fun fault hf => by simp [h fault hf, hkind]

/-- **The faults of each kind** stand together. -/
theorem filter_code_faults (inOrder : List Script) (external : Option (List ExternalScript))
    (unloaded : List String) (circles : List (List String)) (kind : Diagnostic.Code) :
    (repeatedIds inOrder ++ unresolvedEmbeds inOrder external unloaded ++
      circles.map SuiteFault.circularEmbeds).filter (·.code = kind) =
        (if .duplicateId = kind then repeatedIds inOrder else []) ++
          (if .unresolvedEmbed = kind then unresolvedEmbeds inOrder external unloaded else []) ++
          if .circularEmbed = kind then circles.map .circularEmbeds else [] := by
  have hrepeated : ∀ fault ∈ repeatedIds inOrder, fault.code = .duplicateId := by
    intro fault hfault
    obtain ⟨e, -, he⟩ := List.mem_filterMap.mp hfault
    obtain ⟨first, -, rfl⟩ := Option.map_eq_some_iff.mp he
    rfl
  have hunresolved :
      ∀ fault ∈ unresolvedEmbeds inOrder external unloaded, fault.code = .unresolvedEmbed := by
    intro fault hfault
    obtain ⟨s, -, i, e, -, -, rfl⟩ := mem_unresolvedEmbeds_iff.mp hfault
    rfl
  have hcircles : ∀ fault ∈ circles.map SuiteFault.circularEmbeds, fault.code = .circularEmbed :=
    List.forall_mem_map.mpr fun _ _ => rfl
  rw [List.filter_append, List.filter_append, filter_code_eq hrepeated, filter_code_eq hunresolved,
    filter_code_eq hcircles]

/-- The embeds of some scripts are as many as their steps that are one. -/
theorem length_flatMap_embeds (scripts : List Script) :
    (scripts.flatMap (·.embeds)).length = (scripts.flatMap (·.steps)).countP (·.isEmbed) := by
  simp only [List.length_flatMap, List.countP_flatMap, Script.length_embeds, Function.comp_def]

/-- The embeds that are faults are those of unknown ids. -/
theorem countP_unresolvedEmbed (inOrder : List Script) (external : Option (List ExternalScript))
    (unloaded : List String) (circles : List (List String)) :
    (repeatedIds inOrder ++ unresolvedEmbeds inOrder external unloaded ++
      circles.map SuiteFault.circularEmbeds).countP (·.code = .unresolvedEmbed) =
        (inOrder.flatMap (·.embeds)).countP
          fun e => ¬ Known inOrder external unloaded e.2.target := by
  have hkind : (repeatedIds inOrder ++ unresolvedEmbeds inOrder external unloaded ++
      circles.map SuiteFault.circularEmbeds).filter (·.code = .unresolvedEmbed) =
        unresolvedEmbeds inOrder external unloaded := by
    rw [filter_code_faults]
    simp
  rw [List.countP_eq_length_filter, hkind, unresolvedEmbeds_eq, List.length_flatMap,
    List.countP_flatMap]
  simp only [List.length_map, List.countP_eq_length_filter, Function.comp_def]

/-- The check finds what there is to find. -/
theorem finds_check (scripts : List Script) (external : Option (List ExternalScript))
    (unloaded : List String) :
    Finds scripts external unloaded (check scripts external unloaded) := by
  have hperm := perm_ordered scripts
  have hlinked := linked_link (ordered scripts) external unloaded
  have hnode := node?_knownIds (ordered scripts) external unloaded
  have hids : ∀ s ∈ ordered scripts,
      ∃ i, (knownIds (ordered scripts) external unloaded).node? s.id = some i :=
    fun s hs => (hnode s.id).mpr (Or.inl (List.mem_map_of_mem hs))
  obtain ⟨circles, hcycles, hsorted, hmem⟩ :=
    EmbedGraph.exists_circles hlinked.closed hlinked.coherent
  have hfaults : (check scripts external unloaded).faults =
      repeatedIds (ordered scripts) ++ unresolvedEmbeds (ordered scripts) external unloaded ++
        circles.map .circularEmbeds := by
    simp [check, duplicates_eq_repeatedIds, faults_link_eq, hcycles]
  have hcircles : ∀ ids, ids ∈ circles ↔ EmbedGraph.IsCircle (Embeds scripts) ids := by
    intro ids
    rw [hmem, hlinked.isCircle_iff hids, embeds_congr hperm]
  have hnodes : (check scripts external unloaded).nodes =
      (knownList scripts external unloaded).toFinset.card := by
    refine hlinked.coherent.size_eq_card fun id => ?_
    rw [hlinked.node?_eq, hnode, mem_knownList, known_perm hperm]
  -- An embed is an edge when its target is known, and a fault when it is not.
  have hsplit := ((ordered scripts).flatMap (·.embeds)).length_eq_countP_add_countP fun e =>
    decide (Known (ordered scripts) external unloaded e.2.target)
  simp only [decide_eq_true_eq] at hsplit
  have hedges : (check scripts external unloaded).edges =
      ((ordered scripts).flatMap (·.embeds)).countP fun e =>
        Known (ordered scripts) external unloaded e.2.target := by
    rw [check, hlinked.edgeCount_eq hids]
    simp only [node?_knownIds_isSome]
  exact {
    faults_eq := ⟨ordered scripts, circles, rearranged_ordered scripts, pairwise_ordered scripts,
      hsorted, hcircles, hfaults⟩
    consulted_eq := rfl
    scripts_eq := rfl
    nodes_eq := hnodes
    edges_add := by
      rw [hedges, hfaults, countP_unresolvedEmbed, ← hsplit, length_flatMap_embeds,
        (hperm.flatMap_right _).countP_eq] }

/-- **A check finds what there is to find**, in its order, and counts what it has looked at. -/
theorem check_eq_iff (scripts : List Script) (external : Option (List ExternalScript))
    (unloaded : List String) (f : Findings) :
    check scripts external unloaded = f ↔ Finds scripts external unloaded f :=
  ⟨fun h => h ▸ finds_check scripts external unloaded,
    (finds_check scripts external unloaded).unique⟩

/-- Two scripts embed each other.  A third one has the id of the first of them, and a step that
embeds an id that nobody has. -/
theorem check_eq_iff_tangled :
    let embed : String → Step := fun id => .embed ⟨id, true⟩
    let ask : Step := .instruction ⟨"A", "B?", true⟩
    let a : Script := { id := "a", steps := [embed "b", embed "z"], location := "1" }
    let b : Script := { id := "b", steps := [ask, embed "a"], location := "2" }
    let a' : Script := { id := "a", steps := [ask, embed "u", embed "v"], location := "3" }
    check [a', b, a] (some [⟨7, "z"⟩]) ["u", "u"] =
      { faults := [.duplicateId "a" "3" "1", .unresolvedEmbed "a" "3" 2 "v" true,
          .circularEmbeds ["a", "b"]]
        consulted := true
        scripts := 3
        nodes := 4
        edges := 4 } := by
  intro embed ask a b a'
  have hab : Embeds [a', b, a] "a" "b" := ⟨a, by simp, rfl, ⟨"b", true⟩, by simp [a, embed], rfl⟩
  have hba : Embeds [a', b, a] "b" "a" := ⟨b, by simp, rfl, ⟨"a", true⟩, by simp [b, embed], rfl⟩
  have hinOrder : Rearranged [a', b, a] [a, b, a'] :=
    (Rearranged.swap (by decide)).trans (((Rearranged.swap (by decide)).cons b).trans
      (.swap (by decide)))
  exact (check_eq_iff _ _ _ _).mpr {
    faults_eq := ⟨[a, b, a'], [["a", "b"]], hinOrder, by decide,
      (List.pairwise_singleton _ _).sortedLT,
      mem_singleton_pair_iff_isCircle (by decide) hab hba (by decide), by decide⟩
    consulted_eq := rfl
    scripts_eq := rfl
    nodes_eq := by decide
    edges_add := by decide }

/-! ## Other orders -/

/-- The findings depend on who has an id only as far as somebody does. -/
theorem Finds.congr (h : Finds scripts external unloaded f) (hscripts : Rearranged scripts scripts')
    (hconsulted : external.isSome = external'.isSome)
    (hknown : ∀ id, Known scripts external unloaded id ↔ Known scripts' external' unloaded' id) :
    Finds scripts' external' unloaded' f := by
  obtain ⟨inOrder, circles, hre, hpair, hsorted, hmem, hfaults⟩ := h.faults_eq
  have hperm := hscripts.perm
  have hunresolved : unresolvedEmbeds inOrder external unloaded =
      unresolvedEmbeds inOrder external' unloaded' := by
    have hinOrder : ∀ id,
        Known inOrder external unloaded id ↔ Known inOrder external' unloaded' id := by
      intro id
      rw [known_perm hre.perm.symm, hknown, known_perm (hperm.symm.trans hre.perm)]
    simp only [unresolvedEmbeds_eq, hinOrder, hconsulted]
  have hlist : (knownList scripts external unloaded).toFinset =
      (knownList scripts' external' unloaded').toFinset :=
    List.toFinset.ext fun id => by rw [mem_knownList, mem_knownList, hknown]
  exact {
    faults_eq := ⟨inOrder, circles, hscripts.symm.trans hre, hpair, hsorted,
      embeds_congr hperm ▸ hmem, hunresolved ▸ hfaults⟩
    consulted_eq := h.consulted_eq.trans hconsulted
    scripts_eq := h.scripts_eq.trans hperm.length_eq
    nodes_eq := h.nodes_eq.trans (congrArg Finset.card hlist)
    edges_add := h.edges_add.trans ((hperm.flatMap_right _).countP_eq _) }

/-- **The findings do not depend on the order** in which scripts are given, those at one location
apart, nor on the order and the repetitions of other ids. -/
theorem check_rearranged (h : Rearranged scripts scripts')
    (hconsulted : external.isSome = external'.isSome)
    (hexternal : ∀ id, id ∈ (external.getD []).map (·.id) ↔ id ∈ (external'.getD []).map (·.id))
    (hunloaded : ∀ id, id ∈ unloaded ↔ id ∈ unloaded') :
    check scripts external unloaded = check scripts' external' unloaded' := by
  have hknown : ∀ id,
      Known scripts external unloaded id ↔ Known scripts' external' unloaded' id := by
    intro id
    rw [known_perm h.perm]
    simp only [Known, hexternal, hunloaded]
  have hfinds := (finds_check scripts external unloaded).congr h hconsulted hknown
  exact hfinds.unique (finds_check scripts' external' unloaded')

/-- Two scripts at one location have one id, and a third one comes before them or between them. -/
theorem check_rearranged_between :
    let embed : String → Step := fun id => .embed ⟨id, true⟩
    let a : Script := { id := "a", steps := [embed "b", embed "z"], location := "2" }
    let b : Script := { id := "b", steps := [embed "a"], location := "1" }
    let b' : Script := { id := "b", steps := [embed "u"], location := "1" }
    let external : Option (List ExternalScript) := some [⟨1, "u"⟩, ⟨2, "a"⟩]
    let external' : Option (List ExternalScript) := some [⟨2, "a"⟩, ⟨3, "u"⟩, ⟨1, "u"⟩]
    Rearranged [a, b, b'] [b, a, b'] ∧ external.isSome = external'.isSome ∧
      (∀ id, id ∈ (external.getD []).map (·.id) ↔ id ∈ (external'.getD []).map (·.id)) ∧
      (∀ id, id ∈ ["v", "w"] ↔ id ∈ ["w", "v", "w"]) ∧
      check [a, b, b'] external ["v", "w"] = check [b, a, b'] external' ["w", "v", "w"] := by
  intro embed a b b' external external'
  have hscripts : Rearranged [a, b, b'] [b, a, b'] := .swap (by decide)
  have hexternal : ∀ id,
      id ∈ (external.getD []).map (·.id) ↔ id ∈ (external'.getD []).map (·.id) := by
    intro id
    simp [external, external', or_comm]
  have hunloaded : ∀ id, id ∈ ["v", "w"] ↔ id ∈ ["w", "v", "w"] := by
    intro id
    simp only [List.mem_cons, List.not_mem_nil, or_false]
    tauto
  exact ⟨hscripts, rfl, hexternal, hunloaded, check_rearranged hscripts rfl hexternal hunloaded⟩

end ScriptSuite.Suite
