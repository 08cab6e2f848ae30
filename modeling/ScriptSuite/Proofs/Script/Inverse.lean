import ScriptSuite.Proofs.Script.RoundTrip

/-!
# Proofs/Script/Inverse — when the canonical text reads as the script it was written for

A script that was read comes back from its canonical text, except that the texts of its steps are
put on one line.  They are on one line as far as line feeds go, but may hold carriage returns; these
alone are lost (`read_canonical_of_read`).
-/

namespace ScriptSuite

open Script

theorem Step.onOneLine_eq_self_iff {step : Step} (h : step.WellFormed) : step.onOneLine = step ↔
    ∀ i, step = .instruction i → '\r' ∉ i.action.toList ∧ '\r' ∉ i.response.toList := by
  cases step with
  | embed e => simp [Step.onOneLine]
  | instruction i =>
    obtain ⟨action, response, redirect⟩ := i
    have haction := h.1.oneLine.noFeed
    have hresponse := h.2.oneLine.noFeed
    dsimp only at haction hresponse
    simp [Step.onOneLine, ScriptSuite.onOneLine_eq_self_iff, haction, hresponse]

/-- **A script that was read** comes back from its canonical text with each carriage return in the
texts of its steps turned into a space: it is the same script exactly when there are none. -/
theorem read_canonical_of_read {o : Options} {text : String} {s : Script}
    (h : Script.read o text = .ok s) :
    Script.read o (s.canonical o) = .ok { s with steps := s.steps.map Step.onOneLine } ∧
      (Script.read o (s.canonical o) = .ok s ↔ ∀ i, Step.instruction i ∈ s.steps →
        '\r' ∉ i.action.toList ∧ '\r' ∉ i.response.toList) := by
  have hwell := wellFormed_of_read h
  have hread := read_canonical hwell
  refine ⟨hread, ?_⟩
  have hsame : ({ s with steps := s.steps.map Step.onOneLine } : Script) = s ↔
      ∀ step ∈ s.steps, step.onOneLine = step := by
    rw [← List.map_inj_left (g := fun step => step), List.map_id']
    exact ⟨fun h => congrArg Script.steps h, fun h => by rw [h]⟩
  rw [hread, Except.ok.injEq, hsame]
  constructor
  · intro hkeep i hi
    exact (Step.onOneLine_eq_self_iff (hwell.steps _ hi)).mp (hkeep _ hi) i rfl
  · intro hclean step hstep
    refine (Step.onOneLine_eq_self_iff (hwell.steps step hstep)).mpr ?_
    rintro i rfl
    exact hclean i hstep

/-- A carriage return in an action is lost, and one in the target of an embed is not. -/
theorem read_canonical_carriage_return :
    let text := "#! x\n- a\rb\n# redirect: 0\nA\rB\nC?"
    let steps := fun action : String =>
      [Step.embed ⟨"a\rb", true⟩, Step.instruction ⟨action, "C?", false⟩]
    let s : Script := { id := "x", steps := steps "A\rB" }
    Script.read {} text = .ok s ∧
      Script.read {} (s.canonical {}) = .ok { s with steps := steps "A B" } ∧
      Script.read {} (s.canonical {}) ≠ .ok s := by
  intro text steps s
  have hread : Script.read {} text = .ok s := by decide
  refine ⟨hread, (read_canonical_of_read hread).1, fun hsame => ?_⟩
  have hclean := (read_canonical_of_read hread).2.mp hsame ⟨"A\rB", "C?", false⟩ (by decide)
  exact absurd hclean.1 (by decide)

end ScriptSuite
