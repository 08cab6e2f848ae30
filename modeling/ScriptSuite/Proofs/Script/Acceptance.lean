import ScriptSuite.Proofs.Script.BodyLines
import ScriptSuite.Proofs.Script.Marking
import ScriptSuite.Proofs.Script.Uniqueness

/-!
# Proofs/Script/Acceptance — reading accepts the grammar, and gives what it says

A text is read as a script exactly when its lines are as the grammar has them, and the script is the
one that they describe (`read_iff_grammatical`); they describe no other (`Describes.unique`).
-/

namespace ScriptSuite

open Header Grammar

/-! ## Steps and blocks -/

section Blocks

variable {o : Script.Options} {ls rest : List Line}

theorem filter_isHash_eq_nil (h : ∀ l ∈ ls, l.isHash = true) : ls.filter (!·.isHash) = [] := by
  rw [List.filter_eq_nil_iff]
  intro l hl
  simp [h l hl]

theorem blocks_idle_append (hidle : Idle ls) (hrest : Blocks rest) :
    Blocks (ls.filter (!·.isHash) ++ rest) := by
  induction ls with
  | nil => exact hrest
  | cons l ls ih =>
    have hls := ih fun l' hl' => hidle l' (List.mem_cons_of_mem l hl')
    cases hl : l.isHash with
    | true => rwa [List.filter_cons_of_neg (by simp [hl])]
    | false =>
      rw [List.filter_cons_of_pos (by simp [hl])]
      have hblank := (hidle l (List.mem_cons_self ..)).resolve_left (by simp [hl])
      exact .blank hblank hls

/-- An instruction is two lines that are no header lines, behind blank ones. -/
theorem filter_says {i : Instruction} (h : Says o ls i) :
    ∃ (idle : List Line) (action response : Line),
    Idle idle ∧ action.kind = .content ∧ response.IsResponse ∧
      ls.filter (!·.isHash) = idle.filter (!·.isHash) ++ [action, response] := by
  cases h with
  | @intro idle inner after action response flag hidle haction hinner hresponse hafter hflag =>
    refine ⟨idle, action, response, hidle, haction, hresponse, ?_⟩
    have haction' : action.isHash = false := by simp [Line.isHash, haction]
    simp [filter_isHash_eq_nil hinner, filter_isHash_eq_nil hafter, haction',
      hresponse.isHash_eq_false]

/-- **Lines that say steps** are blocks. -/
theorem blocks_of_steps {steps : List Step} (h : Steps o ls steps) :
    Blocks (ls.filter (!·.isHash)) := by
  induction h with
  | nil hidle => simpa using blocks_idle_append hidle .nil
  | last hsaid =>
    obtain ⟨idle, action, response, hidle, haction, hresponse, hfilter⟩ := filter_says hsaid
    rw [hfilter]
    exact blocks_idle_append hidle (.last haction hresponse)
  | cons hemits _ ih =>
    cases hemits with
    | embed hidle hl hflag =>
      rw [List.filter_append, List.filter_cons_of_pos (by simp [Line.isHash, hl])]
      exact blocks_idle_append hidle (.dash hl ih)
    | instruction hsaid hl =>
      obtain ⟨idle, action, response, hidle, haction, hresponse, hfilter⟩ := filter_says hsaid
      rw [List.filter_append, List.filter_cons_of_pos (by simp [Line.isHash, hl]), hfilter,
        List.append_assoc]
      exact blocks_idle_append hidle (.instruction haction hresponse hl ih)

end Blocks

/-! ## Scripts -/

section Scripts

variable {o : Script.Options} {text : String} {s : Script}

theorem kind_ne_endOfText_of_mem_written {l : Line} (h : l ∈ Line.written text) :
    l.kind ≠ .endOfText := by
  obtain ⟨i, hi, rfl⟩ := List.mem_mapIdx.mp h
  exact Line.Kind.ofChars_ne_endOfText _

/-- What a script holds as its title is the value of the last title line. -/
theorem Draft.Tells.lastValue_title {ls : List Line} {d : Draft} (h : d.Tells ls) :
    (Line.lastValue .title ls).getD "" = d.script.title := by
  have htitle := h.entries .title (by simp)
  rw [Holds] at htitle
  split at htitle <;> rename_i hvalue <;> rw [hvalue]
  · obtain ⟨entry, hmeans, hentry⟩ := htitle
    cases hmeans
    exact (Entry.title.inj (Option.some.inj hentry)).symm
  · exact (Entry.title.inj (Option.some.inj htitle)).symm

theorem title_iff {ls : List Line} : (∃ value, Line.lastValue .title ls = some value ∧ value ≠ "") ↔
    (Line.lastValue .title ls).getD "" ≠ "" := by
  cases Line.lastValue .title ls <;> simp

/-- A script that was read is described by lines as the grammar has them. -/
theorem grammatical_and_describes_of_read (h : Script.read o text = .ok s) :
    Grammatical o (Line.written text) ∧ Describes o (Line.written text) s := by
  obtain ⟨d, hread, hnamed, htitle, rfl⟩ := Script.read_eq_ok_iff.mp h
  rw [Line.ofText_eq] at hread
  have htells : d.Tells (Line.written text) :=
    (Draft.Tells.empty.readLines hread).of_snoc_endOfText rfl
  have hpending : Draft.Pending [] .empty := .empty (by simp [Idle])
  have hslot : Draft.Slot [] none := rfl
  obtain ⟨steps, hsteps, hd⟩ := Draft.steps_of_readLines
    (fun l hl => kind_ne_endOfText_of_mem_written hl) rfl hpending hslot hread
  rw [List.nil_append] at hsteps
  have hid := htells.id
  rw [hnamed, if_pos rfl] at hid
  refine ⟨⟨⟨_, hid, htells.id_ne_empty hnamed⟩, htells.values, blocks_of_steps hsteps,
    fun hrequire => ?_⟩,
    ⟨hid, ?_, htells.description, ?_, htells.location⟩⟩
  · rw [title_iff, htells.lastValue_title]
    exact htitle hrequire
  · intro key hkey
    have hentry := htells.entries key hkey
    cases key <;> exact hentry
  · have hreverse : d.steps.reverse = steps := by simp [hd]
    rwa [hreverse]

theorem exists_read_of_grammatical (h : Grammatical o (Line.written text)) :
    ∃ s, Script.read o text = .ok s := by
  obtain ⟨id, hid, hne⟩ := h.identity
  have hend : (Line.final (lines text.toList).length).kind = .endOfText := rfl
  obtain ⟨d, hread⟩ := Draft.exists_readLines (o := o) (d := {}) hend h.values
    (.inr ⟨rfl, id, hid, hne⟩) h.blocks
  have htells : d.Tells (Line.written text) :=
    (Draft.Tells.empty.readLines hread).of_snoc_endOfText rfl
  have hnamed : d.named = true := by
    have hids := htells.id
    rw [hid] at hids
    by_contra hnot
    rw [if_neg hnot] at hids
    exact absurd hids (by simp)
  refine ⟨_, Script.read_eq_ok_iff.mpr ⟨d, hread, hnamed, fun hrequire => ?_, rfl⟩⟩
  rw [← htells.lastValue_title, ← title_iff]
  exact h.title hrequire

end Scripts

/-- **A text is read as a script** exactly when its lines are as the grammar has them; and the
script is the one that they describe. -/
theorem Script.read_iff_grammatical (o : Script.Options) (text : String) :
    ((∃ s, Script.read o text = .ok s) ↔ Grammatical o (Line.written text)) ∧
      ∀ s, Script.read o text = .ok s ↔
        Grammatical o (Line.written text) ∧ Describes o (Line.written text) s := by
  refine ⟨⟨fun ⟨_, h⟩ => (grammatical_and_describes_of_read h).1, exists_read_of_grammatical⟩,
    fun s => ⟨grammatical_and_describes_of_read, fun ⟨hgrammar, hdescribes⟩ => ?_⟩⟩
  obtain ⟨s', hread⟩ := exists_read_of_grammatical hgrammar
  have hdescribes' := (grammatical_and_describes_of_read hread).2
  rw [hread, hdescribes'.unique hdescribes]

end ScriptSuite
