import ScriptSuite.Proofs.Suite.Findings

/-!
# Proofs/Suite/Knowledge — what a check finds when more ids are known

A check asks whether an id is had elsewhere (`Elsewhere`) for one thing only: an embed of an id that
no script has is a fault unless somebody else has it.  Repeated ids and circles are a suite's own
(`exists_faults_check_eq`).  So a check for which more is known finds the same ones of these, and of
the unresolved embeds those that are unresolved still (`check_knowing_more`).
-/

namespace ScriptSuite

/-! ## What an unresolved embed says -/

namespace SuiteFault

/-- The id that an unresolved embed names. -/
def target? : SuiteFault → Option String
  | unresolvedEmbed _ _ _ target _ => some target
  | _ => none

/-- The fault of a check that did or did not take scripts into account that are known elsewhere. -/
def withConsulted (consulted : Bool) : SuiteFault → SuiteFault
  | unresolvedEmbed source location step target _ =>
    unresolvedEmbed source location step target consulted
  | fault => fault

end SuiteFault

namespace Suite

variable {scripts : List Script} {external external' : Option (List ExternalScript)}
  {unloaded unloaded' : List String}

/-! ## What is known elsewhere -/

/-- **An id that is had elsewhere**: by a script that is known, or by a file that is no script. -/
def Elsewhere (external : Option (List ExternalScript)) (unloaded : List String) (id : String) :
    Prop :=
  id ∈ (external.getD []).map (·.id) ∨ id ∈ unloaded

instance (external : Option (List ExternalScript)) (unloaded : List String) (id : String) :
    Decidable (Elsewhere external unloaded id) :=
  inferInstanceAs (Decidable (_ ∨ _))

theorem known_iff_elsewhere {id : String} : Known scripts external unloaded id ↔
    id ∈ scripts.map (·.id) ∨ Elsewhere external unloaded id :=
  Iff.rfl

/-- **When more is known**, the embeds of the ids that are known now are resolved, and no others. -/
theorem unresolvedEmbeds_of_elsewhere (inOrder : List Script)
    (hmore : ∀ id, Elsewhere external unloaded id → Elsewhere external' unloaded' id) :
    unresolvedEmbeds inOrder external' unloaded' =
      ((unresolvedEmbeds inOrder external unloaded).filter fun fault =>
        ∀ id ∈ fault.target?, ¬ Elsewhere external' unloaded' id).map
          (.withConsulted external'.isSome) := by
  rw [unresolvedEmbeds_eq, unresolvedEmbeds_eq, List.filter_flatMap, List.map_flatMap]
  refine List.flatMap_congr fun s _ => ?_
  rw [List.filter_map, List.map_map, List.filter_filter]
  refine congrArg (List.map _) (List.filter_congr fun e _ => ?_)
  have hknown : ¬ Known inOrder external' unloaded' e.2.target ↔
      ¬ Elsewhere external' unloaded' e.2.target ∧
        ¬ Known inOrder external unloaded e.2.target := by
    rw [known_iff_elsewhere, known_iff_elsewhere]
    have := hmore e.2.target
    tauto
  simp [SuiteFault.target?, hknown]

/-! ## What a suite has of its own -/

/-- **The repeated ids and the circles are the suite's own**: they are the same whatever is known
elsewhere. -/
theorem exists_faults_check_eq (scripts : List Script) :
    ∃ (inOrder : List Script) (circles : List (List String)),
      ∀ (external : Option (List ExternalScript)) (unloaded : List String),
        (check scripts external unloaded).faults =
          repeatedIds inOrder ++ unresolvedEmbeds inOrder external unloaded ++
            circles.map .circularEmbeds := by
  obtain ⟨inOrder, circles, hre, hpair, hsorted, hmem, -⟩ := (finds_check scripts none []).faults_eq
  refine ⟨inOrder, circles, fun external unloaded => ?_⟩
  obtain ⟨inOrder', circles', hre', hpair', hsorted', hmem', hfaults⟩ :=
    (finds_check scripts external unloaded).faults_eq
  have horder : inOrder' = inOrder := (hre'.symm.trans hre).eq_of_pairwise hpair' hpair
  have hcircles : circles' = circles :=
    hsorted'.eq_of_mem_iff hsorted fun ids => (hmem' ids).trans (hmem ids).symm
  rw [hfaults, horder, hcircles]

/-! ## More is known -/

/-- The faults of a kind, in their order. -/
def Findings.ofKind (f : Findings) (kind : Diagnostic.Code) : List SuiteFault :=
  f.faults.filter (·.code = kind)

/-- **Knowing more ids only resolves embeds.**  The repeated ids and the circles are the same, and
of the unresolved embeds those are left that name an id which is still not known. -/
theorem check_knowing_more (scripts : List Script)
    (hmore : ∀ id, Elsewhere external unloaded id → Elsewhere external' unloaded' id) :
    let before := check scripts external unloaded
    let after := check scripts external' unloaded'
    after.ofKind .duplicateId = before.ofKind .duplicateId ∧
    after.ofKind .circularEmbed = before.ofKind .circularEmbed ∧
    after.ofKind .unresolvedEmbed =
      ((before.ofKind .unresolvedEmbed).filter fun fault =>
        ∀ id ∈ fault.target?, ¬ Elsewhere external' unloaded' id).map
          (.withConsulted external'.isSome) := by
  obtain ⟨inOrder, circles, hfaults⟩ := exists_faults_check_eq scripts
  intro before after
  refine ⟨?_, ?_, ?_⟩ <;>
    simp only [before, after, Findings.ofKind, hfaults, filter_code_faults]
  · rfl
  · rfl
  · simpa using unresolvedEmbeds_of_elsewhere inOrder hmore

/-- Two scripts embed each other.  Of the two ids that nobody had, a file that is no script has one,
and nobody has the other still. -/
theorem check_knowing_more_pair :
    let embed : String → Step := fun id => .embed ⟨id, true⟩
    let a : Script := { id := "a", steps := [embed "b", embed "u", embed "v"], location := "1" }
    let b : Script := { id := "b", steps := [embed "a", embed "w"], location := "2" }
    let external : Option (List ExternalScript) := some [⟨1, "u"⟩, ⟨2, "a"⟩]
    let before := check [a, b] none ["u"]
    let after := check [a, b] external ["v"]
    (∀ id, Elsewhere none ["u"] id → Elsewhere external ["v"] id) ∧
      after.ofKind .duplicateId = before.ofKind .duplicateId ∧
      after.ofKind .circularEmbed = before.ofKind .circularEmbed ∧
      after.ofKind .unresolvedEmbed =
        ((before.ofKind .unresolvedEmbed).filter fun fault =>
          ∀ id ∈ fault.target?, ¬ Elsewhere external ["v"] id).map (.withConsulted true) := by
  intro embed a b external before after
  have hmore : ∀ id, Elsewhere none ["u"] id → Elsewhere external ["v"] id := by
    intro id h
    obtain rfl : id = "u" := by simpa [Elsewhere] using h
    decide
  exact ⟨hmore, check_knowing_more [a, b] hmore⟩

end Suite

end ScriptSuite
