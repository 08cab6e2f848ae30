import Mathlib.Data.String.Basic
import ScriptSuite.Proofs.Sorting
import ScriptSuite.Suite.Check

/-!
# Proofs/Suite/Ordering — the order in which scripts are taken

Scripts are taken in the order of their locations, and scripts at one location in the order in which
they are given (`rearranged_ordered`).  There is one such order (`Rearranged.eq_of_pairwise`), so it
does not change when scripts are given in another order and those at one location keep theirs.
-/

namespace ScriptSuite.Suite

/-- **The same scripts, rearranged**: those at one location stay in the order that they have. -/
def Rearranged (scripts scripts' : List Script) : Prop :=
  ∀ location, scripts.filter (·.location = location) = scripts'.filter (·.location = location)

variable {scripts scripts' : List Script}

namespace Rearranged

theorem refl (scripts : List Script) : Rearranged scripts scripts := fun _ => rfl

theorem symm (h : Rearranged scripts scripts') : Rearranged scripts' scripts :=
  fun location => (h location).symm

theorem trans {scripts'' : List Script} (h : Rearranged scripts scripts')
    (h' : Rearranged scripts' scripts'') : Rearranged scripts scripts'' :=
  fun location => (h location).trans (h' location)

/-- No script comes or goes when scripts are rearranged. -/
theorem perm (h : Rearranged scripts scripts') : scripts.Perm scripts' := by
  refine List.perm_iff_count.mpr fun s => ?_
  have hcount : ∀ l : List Script, l.count s = (l.filter (·.location = s.location)).count s :=
    fun l => (List.count_filter (by simp)).symm
  rw [hcount scripts, hcount scripts', h s.location]

theorem nil_iff : Rearranged [] scripts ↔ scripts = [] :=
  ⟨fun h => List.nil_perm.mp h.perm, fun h => h ▸ refl []⟩

/-- Two scripts at different locations can change places. -/
theorem swap {s t : Script} (h : s.location ≠ t.location) :
    Rearranged (s :: t :: scripts) (t :: s :: scripts) := by
  intro location
  by_cases hs : s.location = location
  · simp [hs, show t.location ≠ location from hs ▸ h.symm]
  · simp [hs, List.filter_cons]

/-- A script can be put in front of both. -/
theorem cons (h : Rearranged scripts scripts') (s : Script) :
    Rearranged (s :: scripts) (s :: scripts') := by
  intro location
  rw [List.filter_cons, List.filter_cons, h location]

/-- A script in front of both can be left out. -/
theorem of_cons {s : Script} (h : Rearranged (s :: scripts) (s :: scripts')) :
    Rearranged scripts scripts' := by
  intro location
  have hlocation := h location
  simp only [List.filter_cons] at hlocation
  split at hlocation
  · exact (List.cons.inj hlocation).2
  · exact hlocation

/-- **Scripts in the order of their locations** can be rearranged in one way only. -/
theorem eq_of_pairwise (h : Rearranged scripts scripts')
    (hscripts : scripts.Pairwise (·.location ≤ ·.location))
    (hscripts' : scripts'.Pairwise (·.location ≤ ·.location)) : scripts = scripts' := by
  induction scripts generalizing scripts' with
  | nil => exact (nil_iff.mp h).symm
  | cons s rest ih =>
    cases scripts' with
    | nil => exact absurd (nil_iff.mp h.symm) (List.cons_ne_nil s rest)
    | cons s' rest' =>
      rw [List.pairwise_cons] at hscripts hscripts'
      -- Each of the first scripts is among the other scripts, so neither comes after the other.
      have hle : s.location ≤ s'.location := by
        rcases List.mem_cons.mp (h.perm.mem_iff.mpr List.mem_cons_self) with rfl | hs'
        · exact le_rfl
        · exact hscripts.1 s' hs'
      have hge : s'.location ≤ s.location := by
        rcases List.mem_cons.mp (h.perm.mem_iff.mp List.mem_cons_self) with rfl | hs
        · exact le_rfl
        · exact hscripts'.1 s hs
      have hfirst := h s.location
      rw [List.filter_cons_of_pos (by simp),
        List.filter_cons_of_pos (by simp [le_antisymm hge hle])] at hfirst
      obtain rfl : s = s' := (List.cons.inj hfirst).1
      rw [ih h.of_cons hscripts.2 hscripts'.2]

end Rearranged

/-! ## The order -/

theorem comparesBy_location :
    ComparesBy Script.location fun a b => decide (a.location ≤ b.location) :=
  fun _ _ => decide_eq_true_iff

theorem pairwise_ordered (scripts : List Script) :
    (ordered scripts).Pairwise (·.location ≤ ·.location) :=
  comparesBy_location.pairwise_mergeSort scripts

theorem rearranged_ordered (scripts : List Script) : Rearranged scripts (ordered scripts) := by
  refine fun location => (comparesBy_location.filter_mergeSort (fun a b ha hb => ?_) scripts).symm
  exact (of_decide_eq_true ha).trans (of_decide_eq_true hb).symm

end ScriptSuite.Suite
