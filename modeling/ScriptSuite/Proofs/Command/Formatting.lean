import ScriptSuite.Command.Run
import ScriptSuite.Proofs.Script.Inverse
import ScriptSuite.Proofs.Suite.Loading
import ScriptSuite.Proofs.Text.Octets

/-!
# Proofs/Command/Formatting — what is formatted stays as it is

The canonical text of a script that was read is a canonical text: it is read as a script with this
canonical text (`canonical_onOneLine`).  So a file that holds what formatting another file has shown
passes the check for it, and whether a file passes is only a matter of its text
(`run_format_canonical`).
-/

namespace ScriptSuite

open Script

variable {o : Options}

/-! ## Canonical texts -/

/-- A text with a space for each carriage return. -/
def spaced (s : String) : String :=
  String.ofList (s.toList.map fun c => if c = '\r' then ' ' else c)

/-- A step with a space for each carriage return in its texts. -/
def Step.spaced : Step → Step
  | .instruction i =>
    .instruction ⟨ScriptSuite.spaced i.action, ScriptSuite.spaced i.response, i.redirect⟩
  | .embed e => .embed e

/-- Texts of lines have no line feeds to be put on one line. -/
theorem onOneLine_eq_spaced {s : String} (h : '\n' ∉ s.toList) :
    Script.onOneLine s = spaced s := by
  rw [Script.onOneLine, spaced]
  refine congrArg String.ofList (List.map_congr_left fun c hc => ?_)
  have hne : c ≠ '\n' := fun hfeed => h (hfeed ▸ hc)
  simp [hne]

theorem Step.onOneLine_eq_spaced {step : Step} (h : step.WellFormed) :
    step.onOneLine = step.spaced := by
  cases step with
  | embed e => rfl
  | instruction i =>
    rw [Step.onOneLine, Step.spaced, ScriptSuite.onOneLine_eq_spaced h.1.oneLine.noFeed,
      ScriptSuite.onOneLine_eq_spaced h.2.oneLine.noFeed]

theorem onOneLine_onOneLine (s : String) :
    Script.onOneLine (Script.onOneLine s) = Script.onOneLine s := by
  have hkept : ∀ c : Char, (if c = '\n' ∨ c = '\r' then ' ' else c) ≠ '\n' ∧
      (if c = '\n' ∨ c = '\r' then ' ' else c) ≠ '\r' := by
    intro c
    split
    · decide
    · rename_i h
      exact not_or.mp h
  refine onOneLine_eq_self_iff.mpr ?_
  rw [Script.onOneLine, String.toList_ofList, List.mem_map, List.mem_map]
  constructor
  · rintro ⟨c, -, hc⟩
    exact (hkept c).1 hc
  · rintro ⟨c, -, hc⟩
    exact (hkept c).2 hc

theorem Step.onOneLine_onOneLine (step : Step) : step.onOneLine.onOneLine = step.onOneLine := by
  cases step with
  | embed e => rfl
  | instruction i => simp only [Step.onOneLine, ScriptSuite.onOneLine_onOneLine]

/-- **A script whose texts are put on one line** has the same canonical text. -/
theorem canonical_onOneLine (s : Script) :
    ({ s with steps := s.steps.map Step.onOneLine } : Script).canonical o = s.canonical o := by
  have htwice : Step.onOneLine ∘ Step.onOneLine = Step.onOneLine :=
    funext Step.onOneLine_onOneLine
  rw [canonical_eq, canonical_eq, List.map_map, htwice]

/-- **A canonical text is read from its octets**: it begins with no byte order mark. -/
theorem decode_canonical (s : Script) :
    Utf8.decode (Utf8.encode (s.canonical o)) = .ok (s.canonical o) := by
  have hhead : (s.canonical o).toList.head? = some '#' := by simp [canonical, canonicalLines]
  obtain ⟨rest, hrest⟩ := List.head?_eq_some_iff.mp hhead
  refine Utf8.decode_eq_ok_iff.mpr ⟨_, rfl, ?_⟩
  rw [hrest, Utf8.withoutMark, if_neg (by decide), ← hrest, String.ofList_toList]

/-! ## Loading -/

/-- **A file that holds a canonical text** is loaded, if the text is not too long: putting texts on
one line takes no step away. -/
theorem Script.load_canonical {disk disk' : Disk} {q : Quota} {file file' : String} {s : Script}
    (h : Script.load disk o q file = .ok s)
    (hfile : disk' file' = .file (Utf8.encode (s.canonical o)))
    (hsize : (Utf8.encode (s.canonical o)).length ≤ q.maxBytes) :
    Script.load disk' o q file' =
      .ok { s with steps := s.steps.map Step.onOneLine, location := file' } := by
  obtain ⟨octets, -, hread, -, hsteps⟩ := load_eq_ok_iff.mp h
  obtain ⟨text, s', -, hs', rfl⟩ := ofFile_eq_ok_iff.mp hread
  have hcanonical := read_canonical (wellFormed_of_read hs')
  refine load_eq_ok_iff.mpr ⟨_, hfile, ?_, hsize, by simpa using hsteps⟩
  exact ofFile_eq_ok_iff.mpr ⟨_, _, decode_canonical _, hcanonical, rfl⟩

/-- A file from which a script is loaded holds a text. -/
theorem Script.exists_text_of_load {disk : Disk} {q : Quota} {file : String} {s : Script}
    (h : Script.load disk o q file = .ok s) : ∃ text, disk file = .file (Utf8.encode text) := by
  obtain ⟨octets, hfile, hread, -, -⟩ := load_eq_ok_iff.mp h
  obtain ⟨text, s', hdecode, -, -⟩ := ofFile_eq_ok_iff.mp hread
  obtain ⟨whole, rfl, -⟩ := Utf8.decode_eq_ok_iff.mp hdecode
  exact ⟨whole, hfile⟩

/-! ## Formatting -/

namespace Command

variable {env : Settings.Environment} {disk : Disk} {file : String} {s : Script}

/-- **Formatting succeeds** when a script is loaded, and shows its canonical text. -/
theorem exists_load_of_format (h : (format env disk file o false).exit = exitSound) :
    ∃ s, Script.load disk o (Settings.quota env) file = .ok s ∧
      format env disk file o false = { exit := exitSound, stdout := s.canonical o } := by
  rw [format] at h ⊢
  cases hload : Script.load disk o (Settings.quota env) file with
  | error fault =>
    rw [hload] at h
    exact absurd h (by simp [Outcome.ofFault, exitUnsound, exitSound])
  | ok s => exact ⟨s, rfl, by simp⟩

/-- **The check** of a file from which a script is loaded compares its text with the canonical
one. -/
theorem format_check (h : Script.load disk o (Settings.quota env) file = .ok s) {text : String}
    (hfile : disk file = .file (Utf8.encode text)) : format env disk file o true =
      if text = s.canonical o then { exit := exitSound }
      else { exit := exitUnsound, stderr := file ++ " is not canonically formatted\n" } := by
  have htext : readText disk file = .ok text := by
    simp [readText, Disk.read, hfile, Utf8.text?_eq_some_iff.mpr rfl]
  simp [format, h, htext]

theorem run_format (env : Settings.Environment) (disk : Disk) (started finished : Instant)
    (file : String) (redirect : Option Bool) (check : Bool) :
    run env disk started finished (.format file redirect check) =
      .finish (format env disk file (scriptOptions env redirect false) check) := rfl

/-- **What is formatted stays as it is.**  The canonical text of a script that was read is read as
the script with a space for each carriage return in its steps, which has the same canonical text.
So where formatting a file succeeds, the check tells whether the file holds what was shown, and any
file that holds it passes. -/
theorem run_format_canonical :
    (∀ (o : Options) (text : String) (s : Script), Script.read o text = .ok s →
      Script.read o (s.canonical o) = .ok { s with steps := s.steps.map Step.spaced } ∧
      ({ s with steps := s.steps.map Step.spaced } : Script).canonical o = s.canonical o) ∧
    ∀ (env : Settings.Environment) (disk : Disk) (started finished : Instant) (file : String)
      (redirect : Option Bool) (shown : Outcome),
      run env disk started finished (.format file redirect false) = .finish shown →
      shown.exit = exitSound →
      (∃ text, disk file = .file (Utf8.encode text) ∧
        run env disk started finished (.format file redirect true) = .finish
          (if text = shown.stdout then { exit := exitSound }
          else { exit := exitUnsound, stderr := file ++ " is not canonically formatted\n" })) ∧
      ((Utf8.encode shown.stdout).length ≤ (Settings.quota env).maxBytes →
        ∀ (disk' : Disk) (started' finished' : Instant) (file' : String),
          disk' file' = .file (Utf8.encode shown.stdout) →
          run env disk' started' finished' (.format file' redirect true) =
            .finish { exit := exitSound }) := by
  constructor
  · intro o text s h
    have hwell := wellFormed_of_read h
    have hsteps : s.steps.map Step.onOneLine = s.steps.map Step.spaced :=
      List.map_congr_left fun step hstep => Step.onOneLine_eq_spaced (hwell.steps step hstep)
    rw [← hsteps]
    exact ⟨read_canonical hwell, canonical_onOneLine s⟩
  · intro env disk started finished file redirect shown
    simp only [run_format, Plan.finish.injEq]
    generalize scriptOptions env redirect false = o
    rintro rfl hexit
    obtain ⟨s, hload, hshown⟩ := exists_load_of_format hexit
    obtain ⟨text, hfile⟩ := Script.exists_text_of_load hload
    simp only [hshown]
    refine ⟨⟨text, hfile, format_check hload hfile⟩, fun hsize disk' _ _ file' hfile' => ?_⟩
    have hload' := Script.load_canonical hload hfile' hsize
    rw [format_check hload' hfile', if_pos]
    exact (canonical_onOneLine s).symm

/-- A carriage return in an action is shown as a space, so the file does not pass the check, and a
file with what was shown does. -/
theorem run_format_canonical_carriage_return :
    let s : Script := { id := "x", steps := [.instruction ⟨"A\rB", "C?", true⟩] }
    let env : Settings.Environment := fun _ => none
    let disk : Disk := fun _ => .file (Utf8.encode "#! x\nA\rB\nC?")
    let shown := "#! x\n# start_uri: /\n\nA B\nC?\n"
    let formatted : Disk := fun _ => .file (Utf8.encode shown)
    (Script.read {} "#! x\nA\rB\nC?" = .ok s ∧
      Script.read {} (s.canonical {}) =
        .ok { s with steps := [.instruction ⟨"A B", "C?", true⟩] }) ∧
      run env disk ⟨0, 0⟩ ⟨0, 0⟩ (.format "a" none false) = .finish { exit := 0, stdout := shown } ∧
      run env disk ⟨0, 0⟩ ⟨0, 0⟩ (.format "a" none true) =
        .finish { exit := 1, stderr := "a is not canonically formatted\n" } ∧
      run env formatted ⟨0, 0⟩ ⟨0, 0⟩ (.format "b" none true) = .finish { exit := 0 } := by
  intro s env disk shown formatted
  have hread : Script.read {} "#! x\nA\rB\nC?" = .ok s := by decide
  have hshown : run env disk ⟨0, 0⟩ ⟨0, 0⟩ (.format "a" none false) =
      .finish { exit := 0, stdout := shown } := by decide
  obtain ⟨⟨text, htext, hcheck⟩, hpasses⟩ :=
    run_format_canonical.2 env disk ⟨0, 0⟩ ⟨0, 0⟩ "a" none _ hshown rfl
  obtain rfl : "#! x\nA\rB\nC?" = text := Utf8.encode_inj (Disk.Entry.file.inj htext)
  exact ⟨⟨hread, (run_format_canonical.1 {} _ s hread).1⟩, hshown, hcheck,
    hpasses (by decide) formatted ⟨0, 0⟩ ⟨0, 0⟩ "b" rfl⟩

end Command

end ScriptSuite
