import Mathlib.Data.List.Basic
import ScriptSuite.Suite.Summary

/-!
# Proofs/Suite/Outlines — what a check sees of a script

A check of a suite sees the **outline** of each script: its id, where it is, and its steps without
their texts.  Scripts with the same outlines, in the same order, have the same findings
(`check_congr`).
-/

namespace ScriptSuite

/-- A step without its texts: the target, if it embeds a script, and the redirect flag. -/
def Step.outline : Step → Option String × Bool
  | .instruction i => (none, i.redirect)
  | .embed e => (some e.target, e.redirect)

/-- What a script is to its suite. -/
structure Script.Outline where
  id : String
  location : String
  steps : List (Option String × Bool)
  deriving DecidableEq, Repr

namespace Script

/-- **The outline** of a script. -/
def outline (s : Script) : Outline := ⟨s.id, s.location, s.steps.map Step.outline⟩

/-- The embeds of an outline, each with the index of its step. -/
def Outline.embeds (l : Outline) : List (Nat × Embed) :=
  l.steps.zipIdx.filterMap fun step => step.1.1.map fun target => (step.2, ⟨target, step.1.2⟩)

theorem embeds_outline (s : Script) : s.outline.embeds = s.embeds := by
  rw [Outline.embeds, outline, List.zipIdx_map, List.filterMap_map, embeds]
  refine List.filterMap_congr fun ⟨step, i⟩ _ => ?_
  cases step <;> rfl

variable {s s' : Script}

theorem id_eq_of_outline (h : s.outline = s'.outline) : s.id = s'.id := congrArg Outline.id h

theorem location_eq_of_outline (h : s.outline = s'.outline) : s.location = s'.location :=
  congrArg Outline.location h

theorem embeds_eq_of_outline (h : s.outline = s'.outline) : s.embeds = s'.embeds := by
  rw [← embeds_outline, h, embeds_outline]

end Script

/-- **Going through a list** sees of each element only what the steps see of it. -/
theorem foldl_eq_of_map_eq {α β γ : Type} {f : β → α → β} {g : α → γ}
    (hf : ∀ b a a', g a = g a' → f b a = f b a') {l l' : List α} (h : l.map g = l'.map g) (b : β) :
    l.foldl f b = l'.foldl f b := by
  induction l generalizing l' b with
  | nil => rw [List.map_nil, eq_comm, List.map_eq_nil_iff] at h; rw [h]
  | cons a l ih =>
    obtain ⟨a', l', rfl, ha, hl⟩ := List.map_eq_cons_iff.mp h.symm
    rw [List.foldl_cons, List.foldl_cons, hf b a a' ha.symm]
    exact ih hl.symm (f b a')

namespace Suite

variable {scripts scripts' : List Script} {external : Option (List ExternalScript)}
  {unloaded : List String}

theorem Census.see_congr (c : Census) {s s' : Script} (h : s.outline = s'.outline) :
    c.see s = c.see s' := by
  rw [see, see, Script.id_eq_of_outline h, Script.location_eq_of_outline h]

theorem Linking.script_congr (consulted : Bool) (l : Linking) {s s' : Script}
    (h : s.outline = s'.outline) : l.script consulted s = l.script consulted s' := by
  have hembed : Linking.embed consulted s = Linking.embed consulted s' := by
    funext source l e
    rw [embed, embed, Script.id_eq_of_outline h, Script.location_eq_of_outline h]
  rw [script, script, hembed, Script.id_eq_of_outline h, Script.embeds_eq_of_outline h]

theorem map_outline_ordered (scripts : List Script) :
    (ordered scripts).map Script.outline = (scripts.map Script.outline).mergeSort fun a b =>
      decide (a.location ≤ b.location) :=
  List.map_mergeSort fun _ _ _ _ => rfl

/-- **Scripts with the same outlines** have the same findings. -/
theorem check_congr (h : scripts.map Script.outline = scripts'.map Script.outline)
    (external : Option (List ExternalScript)) (unloaded : List String) :
    check scripts external unloaded = check scripts' external unloaded := by
  have hordered : (ordered scripts).map Script.outline = (ordered scripts').map Script.outline := by
    rw [map_outline_ordered, h, map_outline_ordered]
  have hlength : scripts.length = scripts'.length := by simpa using congrArg List.length h
  have hids : (ordered scripts).map (·.id) = (ordered scripts').map (·.id) := by
    have hids := congrArg (List.map Script.Outline.id) hordered
    rwa [List.map_map, List.map_map] at hids
  have hduplicates : duplicates (ordered scripts) = duplicates (ordered scripts') := by
    rw [duplicates, duplicates,
      foldl_eq_of_map_eq (fun c _ _ hs => c.see_congr hs) hordered]
  have hlink : link (ordered scripts) external unloaded =
      link (ordered scripts') external unloaded := by
    rw [link, link, knownIds, knownIds, hids]
    exact foldl_eq_of_map_eq (fun l _ _ hs => l.script_congr _ hs) hordered _
  rw [check, check, hlength, hduplicates, hlink]

end Suite

end ScriptSuite
