import ScriptSuite.Disk.Directory
import ScriptSuite.Proofs.Command.Formatting
import ScriptSuite.Proofs.Suite.Outlines

/-!
# Proofs/Suite/Reformatting — formatting a suite keeps its findings

Formatting a file in place gives a script with the same outline, and a file that gives no script is
left as it is (`Script.load_formatted`).  So a suite with its files formatted has the same faults,
the same outlines in the same order, and the same findings (`Gathering.load_formatted`).  What is
formatted is the octets of files, whatever path leads to them (`Directory.disk_formatted`).
-/

namespace ScriptSuite

variable {o : Script.Options} {q : Quota} {disk disk' : Disk} {path : String} {s : Script}

/-! ## Files rewritten in place -/

section Rewriting

variable (f : List UInt8 → List UInt8)

/-- What stands at a path, rewritten if it is a file. -/
def Disk.Entry.mapFile : Disk.Entry → Disk.Entry
  | .file octets => .file (f octets)
  | entry => entry

/-- A disk on which every file is rewritten. -/
def Disk.mapFiles (disk : Disk) : Disk := fun path => (disk path).mapFile f

namespace Directory

/-- A directory in which every file is rewritten. -/
def mapFiles (d : Directory) : Directory := ⟨d.files.map fun file => (file.1, f file.2)⟩

/-- A place in a directory in which every file is rewritten. -/
def Place.mapFile : Place → Place
  | .file octets => .file (f octets)
  | place => place

variable (d : Directory)

theorem file?_mapFiles (names : List String) :
    (d.mapFiles f).file? names = (d.file? names).map f := by
  rw [file?, mapFiles, List.find?_map, Option.map_map, file?, Option.map_map]
  rfl

theorem hasDirectory_mapFiles (names : List String) :
    (d.mapFiles f).hasDirectory names = d.hasDirectory names := by
  rw [hasDirectory, mapFiles, List.any_map]
  rfl

theorem follow_mapFiles (place : Place) (piece : List Char) :
    (d.mapFiles f).follow (place.mapFile f) piece =
      (d.follow place piece).map (Place.mapFile f) := by
  cases place with
  | file octets => rfl
  | outside =>
    change (d.mapFiles f).follow .outside piece = _
    rw [follow, follow]
    split_ifs <;> rfl
  | inside names =>
    change (d.mapFiles f).follow (.inside names) piece = _
    rw [follow, follow]
    dsimp only
    rw [file?_mapFiles, hasDirectory_mapFiles]
    cases d.file? (names ++ [String.ofList piece]) <;> split_ifs <;> rfl

theorem followAll_mapFiles (place : Place) (ps : List (List Char)) :
    (d.mapFiles f).followAll (place.mapFile f) ps =
      (d.followAll place ps).map (Place.mapFile f) := by
  induction ps generalizing place with
  | nil => rfl
  | cons piece ps ih =>
    rw [followAll, followAll, follow_mapFiles]
    cases d.follow place piece with
    | error fault => rfl
    | ok place' => exact ih place'

theorem resolve_mapFiles (path : String) :
    (d.mapFiles f).resolve path = (d.resolve path).map (Place.mapFile f) := by
  have hstart : (startOf path).mapFile f = startOf path := by
    rw [startOf]
    split <;> rfl
  have hfollow := d.followAll_mapFiles f (startOf path) (pieces '/' path.toList)
  rw [hstart] at hfollow
  rw [resolve, resolve, hfollow]
  split <;> rfl

/-- **A file is rewritten in place**: every path that leads to it finds it rewritten. -/
theorem disk_mapFiles : (d.mapFiles f).disk = d.disk.mapFiles f := by
  funext path
  rw [Disk.mapFiles, disk, disk, resolve_mapFiles]
  cases d.resolve path with
  | error fault => rfl
  | ok place => cases place <;> rfl

end Directory

end Rewriting

/-! ## Files formatted in place -/

/-- **A disk on which scripts are formatted**: every file that gives a script holds its canonical
text. -/
def Disk.formatted (o : Script.Options) (q : Quota) (disk : Disk) : Disk := fun path =>
  match Script.load disk o q path with
  | .ok s => .file (Utf8.encode (s.canonical o))
  | .error _ => disk path

/-- The octets of a file, formatted if they give a script. -/
def Script.formattedOctets (o : Script.Options) (q : Quota) (octets : List UInt8) : List UInt8 :=
  match Script.ofOctetsWithin o q "" octets with
  | .ok s => Utf8.encode (s.canonical o)
  | .error _ => octets

/-- Whether the octets of a file give a script does not depend on the path to them. -/
theorem Script.load_file_eq_ok_iff {octets : List UInt8} (hfile : disk path = .file octets) :
    Script.load disk o q path = .ok s ↔
      ∃ s', Script.ofOctetsWithin o q "" octets = .ok s' ∧ s = { s' with location := path } := by
  rw [load_eq_ok_iff, IsAt, hfile]
  simp only [Disk.Entry.file.injEq, exists_eq_left', ofOctetsWithin_eq_ok_iff, ofFile_eq_ok_iff]
  constructor
  · rintro ⟨⟨text, s', hdecode, hread, rfl⟩, hbytes, hsteps⟩
    exact ⟨_, ⟨⟨text, s', hdecode, hread, rfl⟩, hbytes, hsteps⟩, rfl⟩
  · rintro ⟨_, ⟨⟨text, s', hdecode, hread, rfl⟩, hbytes, hsteps⟩, rfl⟩
    exact ⟨⟨text, s', hdecode, hread, rfl⟩, hbytes, hsteps⟩

/-- **Formatting is about octets**: where a file stands is no part of its canonical text. -/
theorem Disk.formatted_eq (o : Script.Options) (q : Quota) (disk : Disk) :
    disk.formatted o q = disk.mapFiles (Script.formattedOctets o q) := by
  funext path
  rw [formatted, mapFiles]
  cases hfile : disk path with
  | file octets =>
    rw [Entry.mapFile, Script.formattedOctets]
    cases hoctets : Script.ofOctetsWithin o q "" octets with
    | ok s =>
      rw [(Script.load_file_eq_ok_iff hfile).mpr ⟨s, hoctets, rfl⟩]
      rfl
    | error fault =>
      cases hload : Script.load disk o q path with
      | ok s =>
        obtain ⟨s', hs', -⟩ := (Script.load_file_eq_ok_iff hfile).mp hload
        rw [hoctets] at hs'
        cases hs'
      | error fault => rfl
  | _ =>
    cases hload : Script.load disk o q path with
    | ok s =>
      obtain ⟨octets, hoctets, -⟩ := Script.load_eq_ok_iff.mp hload
      rw [hfile] at hoctets
      cases hoctets
    | error fault => rfl

/-- A directory in which scripts are formatted. -/
def Directory.formatted (o : Script.Options) (q : Quota) (d : Directory) : Directory :=
  d.mapFiles (Script.formattedOctets o q)

theorem Directory.disk_formatted (o : Script.Options) (q : Quota) (d : Directory) :
    (d.formatted o q).disk = d.disk.formatted o q :=
  (d.disk_mapFiles _).trans (d.disk.formatted_eq o q).symm

/-! ## Loading -/

/-- A script with a space for each carriage return in the texts of its steps. -/
def Script.spaced (s : Script) : Script := { s with steps := s.steps.map Step.spaced }

theorem Script.outline_spaced (s : Script) : s.spaced.outline = s.outline := by
  have hstep : Step.outline ∘ Step.spaced = Step.outline := by
    funext step
    cases step <;> rfl
  rw [outline, spaced, List.map_map, hstep, outline]

theorem Script.load_congr (h : disk' path = disk path) :
    Script.load disk' o q path = Script.load disk o q path := by
  rw [load, load, Disk.size, Disk.size, Disk.read, Disk.read, h]

/-- **A file that was formatted in place** gives its script with other spaces, and one that gives no
script has the same fault as before. -/
theorem Script.load_formatted (hpath : disk' path = disk.formatted o q path)
    (hsize : ∀ s, Script.load disk o q path = .ok s →
      (Utf8.encode (s.canonical o)).length ≤ q.maxBytes) :
    Script.load disk' o q path = (Script.load disk o q path).map Script.spaced := by
  rw [Disk.formatted] at hpath
  cases hload : Script.load disk o q path with
  | error fault =>
    rw [hload] at hpath
    rw [load_congr hpath, hload]
    rfl
  | ok s =>
    rw [hload] at hpath
    rw [load_canonical hload hpath (hsize s hload)]
    obtain ⟨octets, -, hread, -, -⟩ := load_eq_ok_iff.mp hload
    obtain ⟨text, s', -, hs', rfl⟩ := ofFile_eq_ok_iff.mp hread
    have hwell := wellFormed_of_read hs'
    have hsteps : s'.steps.map Step.onOneLine = s'.steps.map Step.spaced :=
      List.map_congr_left fun step hstep => Step.onOneLine_eq_spaced (hwell.steps step hstep)
    rw [hsteps]
    rfl

namespace Suite.Gathering

/-- **A suite that is formatted** has the same faults, and its scripts are the same but for spaces
in the texts of their steps. -/
theorem load_formatted_eq {paths : List String}
    (hformatted : ∀ path ∈ paths, disk' path = disk.formatted o q path)
    (hsize : ∀ path ∈ paths, ∀ s, Script.load disk o q path = .ok s →
      (Utf8.encode (s.canonical o)).length ≤ q.maxBytes) :
    load disk' o q paths =
      { scripts := (load disk o q paths).scripts.map Script.spaced
        faults := (load disk o q paths).faults } := by
  have harrival : ∀ path ∈ Path.distinct paths, arrival disk' o q path =
      (path, (Script.load disk o q path).map Script.spaced) := by
    intro path hpath
    have hmem : path ∈ paths := List.mem_of_find?_eq_some (Path.mem_distinct_iff.mp hpath)
    rw [arrival, Script.load_formatted (hformatted path hmem) (hsize path hmem)]
  rw [load_eq, load_eq, List.map_filterMap, Gathering.mk.injEq]
  refine ⟨List.filterMap_congr fun path hpath => ?_, List.filterMap_congr fun path hpath => ?_⟩
  · rw [harrival path hpath, arrival]
    cases Script.load disk o q path <;> rfl
  · rw [harrival path hpath, arrival]
    cases Script.load disk o q path <;> rfl

/-- **Formatting a suite keeps its findings.**  When each file that gives a script is rewritten in
place as its canonical text, and no canonical text is too long, then the same files have the same
faults, the others give the same scripts in the same order but for carriage returns in the texts of
steps, and the check finds the same, whatever scripts are known elsewhere. -/
theorem check_load_formatted {paths : List String}
    (hformatted : ∀ path ∈ paths, disk' path = disk.formatted o q path)
    (hsize : ∀ path ∈ paths, ∀ s, Script.load disk o q path = .ok s →
      (Utf8.encode (s.canonical o)).length ≤ q.maxBytes) :
    (load disk' o q paths).faults = (load disk o q paths).faults ∧
    (load disk' o q paths).scripts = (load disk o q paths).scripts.map Script.spaced ∧
    (load disk' o q paths).scripts.map Script.outline =
      (load disk o q paths).scripts.map Script.outline ∧
    ∀ external, (load disk' o q paths).check external = (load disk o q paths).check external := by
  rw [load_formatted_eq hformatted hsize]
  generalize load disk o q paths = g
  have houtline : (g.scripts.map Script.spaced).map Script.outline =
      g.scripts.map Script.outline := by
    rw [List.map_map]
    exact List.map_congr_left fun s _ => s.outline_spaced
  exact ⟨rfl, rfl, houtline, fun external => check_congr houtline external g.unloadedIds⟩

/-- An action loses a carriage return and an embed its blanks; the file that is unfinished, and
still declares what is embedded, stays unfinished. -/
theorem check_load_formatted_unfinished :
    let d : Directory :=
      ⟨[(["a"], Utf8.encode "#!  x\nA\rB\nC?\n\n-  y"), (["b"], Utf8.encode "#! y\nA")]⟩
    let d' := d.formatted {} {}
    let paths := ["./a", "b", "none"]
    d'.disk "./a" = .file (Utf8.encode "#! x\n# start_uri: /\n\nA B\nC?\n\n- y\n") ∧
      d'.disk "b" = d.disk "b" ∧
      (load d'.disk {} {} paths).faults = (load d.disk {} {} paths).faults ∧
      (load d'.disk {} {} paths).scripts =
        (load d.disk {} {} paths).scripts.map Script.spaced ∧
      (load d'.disk {} {} paths).check none = (load d.disk {} {} paths).check none := by
  intro d d' paths
  have ha : Script.load d.disk {} {} "./a" =
      .ok { id := "x", steps := [.instruction ⟨"A\rB", "C?", true⟩, .embed ⟨"y", true⟩],
            location := "./a" } := by
    decide
  have hb : Script.load d.disk {} {} "b" =
      .error (.malformed "b" ⟨2, .stepUnfinished⟩ (some "y")) := by
    decide
  have hnone : Script.load d.disk {} {} "none" = .error (.missing "none") := by decide
  have hsize : ∀ path ∈ paths, ∀ s, Script.load d.disk {} {} path = .ok s →
      (Utf8.encode (s.canonical {})).length ≤ ({} : Quota).maxBytes := by
    intro path hpath s hs
    simp only [paths, List.mem_cons, List.not_mem_nil, or_false] at hpath
    rcases hpath with rfl | rfl | rfl
    · obtain rfl := Except.ok.inj (ha.symm.trans hs)
      decide
    · cases hb.symm.trans hs
    · cases hnone.symm.trans hs
  obtain ⟨hfaults, hscripts, -, hcheck⟩ := check_load_formatted
    (fun path _ => congrFun (d.disk_formatted {} {}) path) hsize
  exact ⟨by decide, by decide, hfaults, hscripts, hcheck none⟩

end Suite.Gathering

end ScriptSuite
