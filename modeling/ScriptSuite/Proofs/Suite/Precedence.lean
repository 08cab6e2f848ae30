import Mathlib.Order.Bounds.Basic
import ScriptSuite.Proofs.Disk.Spelling
import ScriptSuite.Proofs.Suite.Findings
import ScriptSuite.Proofs.Suite.Loading

/-!
# Proofs/Suite/Precedence — which of the scripts with one id comes first

Of the scripts with one id a check names the one at the least location
(`isLeast_of_duplicateId`).  The scripts of a gathering stand in the order of their paths, which is
another order, so the script that is named need not be the first of the gathering that has the id.
It is not that one exactly when a location of the others is less than the first's, which means for
plain paths that it overtakes the first's (`canonical_of_load`).
-/

namespace ScriptSuite.Suite

variable {scripts : List Script} {external : Option (List ExternalScript)} {unloaded : List String}
  {id location canonical : String}

/-- The first element with a property stands before the others that have it. -/
theorem eq_or_rel_of_find?_eq_some {α : Type} {r : α → α → Prop} {p : α → Bool} {l : List α}
    {a b : α} (hl : l.Pairwise r) (ha : l.find? p = some a) (hb : b ∈ l) (hpb : p b = true) :
    a = b ∨ r a b := by
  obtain ⟨-, before, after, rfl, hbefore⟩ := List.find?_eq_some_iff_append.mp ha
  have hnot : b ∉ before := fun h => by simpa [hpb] using hbefore b h
  rcases List.mem_cons.mp ((List.mem_append.mp hb).resolve_left hnot) with rfl | hb
  · exact .inl rfl
  · exact .inr (List.rel_of_pairwise_cons (List.pairwise_append.mp hl).2.1 hb)

/-! ## What a check names -/

/-- A repeated id was seen before, and the first that has it is named. -/
theorem exists_first_of_mem_repeatedIds
    (h : SuiteFault.duplicateId id location canonical ∈ repeatedIds scripts) :
    ∃ first, scripts.find? (·.id = id) = some first ∧ first.location = canonical := by
  obtain ⟨e, -, he⟩ := List.mem_filterMap.mp h
  obtain ⟨first, hfind, hfault⟩ := Option.map_eq_some_iff.mp he
  obtain ⟨rfl, -, rfl⟩ := SuiteFault.duplicateId.inj hfault
  refine ⟨first, ?_, rfl⟩
  rw [← List.take_append_drop e.2 scripts, List.find?_append, hfind, Option.some_or]

/-- **A check names the least location** of the scripts with an id. -/
theorem isLeast_of_duplicateId
    (h : SuiteFault.duplicateId id location canonical ∈ (check scripts external unloaded).faults) :
    IsLeast {l | ∃ s ∈ scripts, s.id = id ∧ s.location = l} canonical := by
  obtain ⟨inOrder, circles, hre, hpair, -, -, hfaults⟩ :=
    (finds_check scripts external unloaded).faults_eq
  have hmem : SuiteFault.duplicateId id location canonical ∈ repeatedIds inOrder := by
    simpa [hfaults, mem_unresolvedEmbeds_iff] using h
  obtain ⟨first, hfirst, rfl⟩ := exists_first_of_mem_repeatedIds hmem
  have hid : first.id = id := by simpa using List.find?_some hfirst
  refine ⟨⟨first, hre.perm.mem_iff.mpr (List.mem_of_find?_eq_some hfirst), hid, rfl⟩, ?_⟩
  rintro _ ⟨s, hs, hid, rfl⟩
  rcases eq_or_rel_of_find?_eq_some hpair hfirst (hre.perm.mem_iff.mp hs) (decide_eq_true hid)
    with rfl | hle
  · exact le_rfl
  · exact hle

/-! ## The scripts of a gathering -/

namespace Gathering

variable {disk : Disk} {o : Script.Options} {q : Quota} {paths : List String}

theorem location_of_arrival {path : String} {s : Script}
    (h : (arrival disk o q path).script? = some s) : s.location = path := by
  cases hload : Script.load disk o q path with
  | error fault => simp [arrival, hload, Arrival.script?] at h
  | ok s' =>
    obtain rfl : s' = s := by simpa [arrival, hload, Arrival.script?] using h
    obtain ⟨octets, -, hfile, -⟩ := Script.load_eq_ok_iff.mp hload
    obtain ⟨text, s', -, -, rfl⟩ := Script.ofFile_eq_ok_iff.mp hfile
    rfl

/-- The scripts of a gathering are at paths that were given. -/
theorem location_mem_of_mem_load {s : Script} (hs : s ∈ (load disk o q paths).scripts) :
    s.location ∈ paths := by
  rw [load_eq] at hs
  obtain ⟨path, hpath, hs⟩ := List.mem_filterMap.mp hs
  rw [location_of_arrival hs]
  exact List.mem_of_find?_eq_some (Path.mem_distinct_iff.mp hpath)

/-- **The scripts of a gathering** stand in the order of their paths. -/
theorem pairwise_before_load (disk : Disk) (o : Script.Options) (q : Quota) (paths : List String) :
    (load disk o q paths).scripts.Pairwise fun s t => Path.Before s.location t.location := by
  rw [load_eq]
  refine (Path.pairwise_distinct paths).filterMap _ fun p p' hbefore s hs t ht => ?_
  rwa [location_of_arrival hs, location_of_arrival ht]

end Gathering

/-- **The script that a check of a gathering names** for an id is at the least location.  The first
of the gathering that has the id is at another one exactly when the location of a script with the
id is less than the first's; for plain paths, when it overtakes the first's. -/
theorem canonical_of_load (disk : Disk) (o : Script.Options) (q : Quota) (paths : List String)
    (h : SuiteFault.duplicateId id location canonical ∈
      (check (Gathering.load disk o q paths).scripts external unloaded).faults) :
    let scripts := (Gathering.load disk o q paths).scripts
    IsLeast {l | ∃ s ∈ scripts, s.id = id ∧ s.location = l} canonical ∧
    ∃ first, scripts.find? (·.id = id) = some first ∧
      (canonical ≠ first.location ↔ ∃ s ∈ scripts, s.id = id ∧ s.location < first.location) ∧
      ((∀ path ∈ paths, Path.Plain path) →
        (canonical ≠ first.location ↔
          ∃ s ∈ scripts, s.id = id ∧ Path.Overtakes s.location first.location)) := by
  intro scripts
  have hleast := isLeast_of_duplicateId h
  obtain ⟨named, hnamed, hid, hcanonical⟩ := hleast.1
  have hsome : (scripts.find? (·.id = id)).isSome :=
    List.find?_isSome.mpr ⟨named, hnamed, by simpa using hid⟩
  obtain ⟨first, hfirst⟩ := Option.isSome_iff_exists.mp hsome
  have hmem : first ∈ scripts := List.mem_of_find?_eq_some hfirst
  have hfid : first.id = id := by simpa using List.find?_some hfirst
  have hiff : canonical ≠ first.location ↔
      ∃ s ∈ scripts, s.id = id ∧ s.location < first.location := by
    constructor
    · intro hne
      have hle := hleast.2 ⟨first, hmem, hfid, rfl⟩
      exact ⟨named, hnamed, hid, hcanonical ▸ lt_of_le_of_ne hle hne⟩
    · rintro ⟨s, hs, hsid, hlt⟩
      exact ((hleast.2 ⟨s, hs, hsid, rfl⟩).trans_lt hlt).ne
  refine ⟨hleast, first, hfirst, hiff, fun hplain => hiff.trans (exists_congr fun s => ?_)⟩
  refine and_congr_right fun hs => and_congr_right fun hsid => ?_
  have horders := (hplain _ (Gathering.location_mem_of_mem_load hs)).before_and_lt_iff
    (hplain _ (Gathering.location_mem_of_mem_load hmem))
  rw [← horders, iff_and_self]
  intro hlt
  rcases eq_or_rel_of_find?_eq_some (Gathering.pairwise_before_load disk o q paths) hfirst hs
    (decide_eq_true hsid) with rfl | hbefore
  · exact absurd hlt (lt_irrefl _)
  · exact hbefore

/-- A script next to a directory of the same name: the one in the directory is the first of the
gathering, and the other one is named. -/
theorem canonical_of_load_login :
    let disk : Disk := fun path =>
      if path = "login.rfml" ∨ path = "login/form.rfml" then .file (Utf8.encode "#! login")
      else .unreachable .missing
    let paths := ["login.rfml", "login/form.rfml"]
    let scripts := (Gathering.load disk {} {} paths).scripts
    SuiteFault.duplicateId "login" "login/form.rfml" "login.rfml" ∈
        (check scripts none []).faults ∧
      (∀ path ∈ paths, Path.Plain path) ∧
      IsLeast {l | ∃ s ∈ scripts, s.id = "login" ∧ s.location = l} "login.rfml" ∧
      ∃ first, scripts.find? (·.id = "login") = some first ∧ first.location = "login/form.rfml" ∧
        ∃ s ∈ scripts, s.id = "login" ∧ Path.Overtakes s.location first.location := by
  intro disk paths scripts
  have hkey : Path.key "login/form.rfml" < Path.key "login.rfml" := by decide
  have hdistinct : Path.distinct paths = ["login/form.rfml", "login.rfml"] := by
    have hsorted : Path.sorted paths = ["login/form.rfml", "login.rfml"] := by
      simp [paths, Path.sorted, List.mergeSort, not_le.mpr hkey]
    rw [Path.distinct, hsorted]
    decide
  let form : Script := { id := "login", location := "login/form.rfml" }
  let login : Script := { id := "login", location := "login.rfml" }
  have hscripts : scripts = [form, login] := by
    have hform :
        Gathering.arrival disk {} {} "login/form.rfml" = ("login/form.rfml", .ok form) := by decide
    have hlogin : Gathering.arrival disk {} {} "login.rfml" = ("login.rfml", .ok login) := by decide
    simp [scripts, Gathering.load_eq, hdistinct, hform, hlogin, Gathering.Arrival.script?]
  have hordered : ordered [form, login] = [login, form] := by
    have hlt : login.location < form.location := by decide
    simp [ordered, List.mergeSort, not_le.mpr hlt]
  have hfault : SuiteFault.duplicateId "login" "login/form.rfml" "login.rfml" ∈
      (check scripts none []).faults := by
    rw [hscripts, check, hordered, duplicates_eq_repeatedIds]
    exact List.mem_append_left _ (List.mem_append_left _ (by decide))
  have hplain : ∀ path ∈ paths, Path.Plain path := by
    unfold Path.Plain Path.IsName
    intro path hpath
    left
    revert path
    decide
  obtain ⟨hleast, first, hfirst, -, hovertakes⟩ := canonical_of_load disk {} {} paths hfault
  have hlocation : first.location = "login/form.rfml" := by
    have hform : scripts.find? (·.id = "login") = some form := by rw [hscripts]; decide
    rw [← Option.some.inj (hform.symm.trans hfirst)]
  have hne : "login.rfml" ≠ first.location := by rw [hlocation]; decide
  exact ⟨hfault, hplain, hleast, first, hfirst, hlocation, (hovertakes hplain).mp hne⟩

end ScriptSuite.Suite
