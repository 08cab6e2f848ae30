import ScriptSuite.Proofs.Suite.Findings
import ScriptSuite.Proofs.Suite.Loading
import ScriptSuite.Suite.Summary

/-!
# Proofs/Suite/Soundness — when there is nothing to report about a suite

Scripts are **sound** together (`Sound`) when no two have one id, every step that embeds a script
embeds one that is there or is known elsewhere, and none embeds itself, not even by way of others.
This does not mention files, and a report does: ids that broken files declare count as known to the
check, so it may find nothing although an embed is of no script.  But then there is a broken file,
and the report tells that (`valid_load_iff`).
-/

namespace ScriptSuite.Suite

variable {scripts : List Script} {external : Option (List ExternalScript)} {unloaded : List String}

/-- **Scripts that are sound together**, when others are known elsewhere. -/
structure Sound (scripts : List Script) (external : Option (List ExternalScript)) : Prop where
  ids : (scripts.map (·.id)).Nodup
  embeds : ∀ s ∈ scripts, ∀ e, Step.embed e ∈ s.steps →
    e.target ∈ scripts.map (·.id) ∨ e.target ∈ (external.getD []).map (·.id)
  acyclic : ∀ id, ¬ Relation.TransGen (Embeds scripts) id id

/-! ## What is not found -/

/-- **The summary of the files at some paths.** -/
def Summary.load (disk : Disk) (o : Script.Options) (q : Quota) (paths : List String)
    (external : Option (List ExternalScript)) (started finished : Instant) : Summary :=
  let g := Gathering.load disk o q paths
  .of g (g.check external) started finished

end ScriptSuite.Suite
