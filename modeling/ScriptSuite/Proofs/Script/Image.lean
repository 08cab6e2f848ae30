import ScriptSuite.Proofs.Script.Inverse

/-!
# Proofs/Script/Image — which scripts there are texts for

Being well-formed is all that a text asks of a script: the verbatim text of a well-formed script
reads as the script, so the scripts that can be read are the well-formed ones
(`exists_read_iff_wellFormed`).  The canonical text asks for a little more, since it has no carriage
returns in its steps (`read_canonical_iff_wellFormed`).
-/

namespace ScriptSuite

open Script

variable {o : Options} {s : Script}

/-- **The scripts that can be read** are the well-formed ones. -/
theorem exists_read_iff_wellFormed (o : Options) (s : Script) :
    (∃ text, Script.read o text = .ok s) ↔ s.WellFormed o := by
  constructor
  · rintro ⟨text, h⟩
    exact wellFormed_of_read h
  · exact fun h => ⟨s.verbatim o, read_verbatim h⟩

/-- Steps are on one line each exactly when no text in them has a carriage return. -/
theorem map_onOneLine_eq_self_iff {steps : List Step} (h : ∀ step ∈ steps, step.WellFormed) :
    steps.map Step.onOneLine = steps ↔ ∀ i, Step.instruction i ∈ steps →
      '\r' ∉ i.action.toList ∧ '\r' ∉ i.response.toList := by
  induction steps with
  | nil => simp
  | cons step steps ih =>
    rw [List.forall_mem_cons] at h
    rw [List.map_cons, List.cons.injEq, Step.onOneLine_eq_self_iff h.1, ih h.2, ← forall_and]
    refine forall_congr' fun i => ?_
    rw [List.mem_cons, or_imp, eq_comm (a := step)]

/-- **The scripts that come back from their canonical text** are the well-formed ones with no
carriage return in an action or a response: what is ill-formed in any other script cannot be read,
so it cannot come back. -/
theorem read_canonical_iff_wellFormed (o : Options) (s : Script) :
    Script.read o (s.canonical o) = .ok s ↔ s.WellFormed o ∧ ∀ i, Step.instruction i ∈ s.steps →
      '\r' ∉ i.action.toList ∧ '\r' ∉ i.response.toList := by
  have hsame : ({ s with steps := s.steps.map Step.onOneLine } : Script) = s ↔
      s.steps.map Step.onOneLine = s.steps :=
    ⟨congrArg Script.steps, fun h => by rw [h]⟩
  constructor
  · intro h
    have hwell := wellFormed_of_read h
    rw [read_canonical hwell, Except.ok.injEq, hsame] at h
    exact ⟨hwell, (map_onOneLine_eq_self_iff hwell.steps).mp h⟩
  · rintro ⟨hwell, hclean⟩
    rw [read_canonical hwell, Except.ok.injEq, hsame]
    exact (map_onOneLine_eq_self_iff hwell.steps).mpr hclean

end ScriptSuite
