import ScriptSuite.Proofs.Script.Acceptance
import ScriptSuite.Proofs.Script.Labels

/-!
# Proofs/Script/Interleaving — a script is read in two halves

A line is about the script as a whole (a *heading*) or about its steps, and a draft has a half for
each of these: a heading leaves the instruction under way, the redirect flag and the steps alone,
and any other line leaves the rest alone.  So reading some lines is reading the headings among them,
and reading the others, each as if the other kind were not there (`Draft.readLines_join`).

Where a line stands says nothing but the line of a defect (`Draft.readLines_renumber`).  Together:
which script a text defines, if any, hangs on the sequence of its headings and on that of its other
lines, and not on how the two are interleaved (`Script.read_eq_ok_iff_halves`).
-/

namespace ScriptSuite

open Header

namespace Line

/-- **A heading**: a line about the script as a whole, that is any header line but a redirect
line. -/
def isHeading (l : Line) : Bool := l.isHash && (l.value? .redirect).isNone

/-- The headings of a text, in order. -/
def headings (text : String) : List String := ((written text).filter isHeading).map (·.text)

/-- The lines of a text about its steps, in order: content, dash lines, blank lines and redirect
lines. -/
def bodyLines (text : String) : List String := ((written text).filter (!·.isHeading)).map (·.text)

/-- A line, wherever it stands. -/
def unnumbered (l : Line) : Line := { l with number := 0 }

variable {l : Line}

/-- **A line of a text is known by what is written on it**, but for where it stands. -/
theorem map_unnumbered_eq {p : Line → Bool} {text text' : String}
    (h : ((written text').filter p).map (·.text) = ((written text).filter p).map (·.text)) :
    ((written text').filter p).map unnumbered = ((written text).filter p).map unnumbered := by
  have hline : ∀ text, ∀ l ∈ (written text).filter p, l.unnumbered = lineOf 0 l.text := by
    intro text l hl
    obtain ⟨i, hi, rfl⟩ := List.mem_mapIdx.mp (List.mem_of_mem_filter hl)
    rw [lineOf, unnumbered, ofChars, String.toList_ofList]
  rw [List.map_congr_left (hline text'), List.map_congr_left (hline text)]
  simpa [Function.comp_def] using congrArg (List.map (lineOf 0)) h

theorem isHeading_of_key {key : Key} {value : String} (hl : l.kind = .header key.name value) :
    l.isHeading = true ↔ key ≠ .redirect := by
  by_cases hkey : key = .redirect <;> simp [isHeading, isHash, hl, value?_of_header hl, hkey]

end Line

namespace Draft

variable {o : Script.Options} {a b d e : Draft} {l : Line} {ls : List Line}

/-! ## The two halves of a draft -/

/-- **What one draft says of the script as a whole**, with the steps of another. -/
def join (a b : Draft) : Draft :=
  { a with block := b.block, redirect := b.redirect, steps := b.steps }

/-- **A heading** does the same whatever the steps are, and leaves them alone. -/
theorem Reads.heading (h : Reads o d l e) (hl : l.isHeading = true) (b : Draft) :
    Reads o (join d b) l (join e b) ∧ join e d = e := by
  cases h with
  | identity hkind hnew hid => exact ⟨.identity (d := join d b) hkind hnew hid, rfl⟩
  | value hkind hmeans =>
    have hread : Reads o (join d b) l _ := .value hkind hmeans
    cases hmeans with
    | redirect => exact absurd rfl ((Line.isHeading_of_key hkind).mp hl)
    | _ => exact ⟨hread, rfl⟩
  | unknown hkind hkey => exact ⟨.unknown (d := join d b) hkind hkey, rfl⟩
  | remark hkind => exact ⟨.remark (d := join d b) hkind, rfl⟩
  | close hkind | skip hkind =>
    rcases hkind with hkind | hkind <;> simp [Line.isHeading, Line.isHash, hkind] at hl
  | response hkind =>
    rcases hkind with hkind | ⟨_, hkind⟩ <;> simp [Line.isHeading, Line.isHash, hkind] at hl
  | embed hkind | action hkind => simp [Line.isHeading, Line.isHash, hkind] at hl

/-- **Any other line** does the same whatever the script is as a whole, and leaves that alone. -/
theorem Reads.notHeading (h : Reads o d l e) (hl : l.isHeading = false) (a : Draft) :
    Reads o (join a d) l (join a e) ∧ join d e = e := by
  cases h with
  | identity hkind | remark hkind => simp [Line.isHeading, Line.isHash, Line.value?, hkind] at hl
  | unknown hkind hkey =>
    simp [Line.isHeading, Line.isHash, Line.value?_of_unknown hkind hkey, hkind] at hl
  | @value key value entry hkind hmeans =>
    have hkey : key = .redirect := by
      by_contra hne
      rw [(Line.isHeading_of_key hkind).mpr hne] at hl
      exact absurd hl.symm Bool.false_ne_true
    subst hkey
    cases hmeans with
    | redirect hflag => exact ⟨.value (d := join a d) hkind (.redirect hflag), rfl⟩
  | embed hkind hblock => exact ⟨.embed (d := join a d) hkind hblock, rfl⟩
  | action hkind hblock => exact ⟨.action (d := join a d) hkind hblock, rfl⟩
  | response hkind hblock hquestion =>
    exact ⟨.response (d := join a d) hkind hblock hquestion, rfl⟩
  | close hkind hblock => exact ⟨.close (d := join a d) hkind hblock, rfl⟩
  | skip hkind hblock => exact ⟨.skip (d := join a d) hkind hblock, rfl⟩

theorem reads_join_of_isHeading (hl : l.isHeading = true) :
    Reads o (join a b) l e ↔ ∃ a', Reads o a l a' ∧ join a' b = e := by
  constructor
  · intro h
    obtain ⟨hread, hsame⟩ := h.heading hl a
    exact ⟨join e a, hread, hsame⟩
  · rintro ⟨a', h, rfl⟩
    exact (h.heading hl b).1

theorem reads_join_of_notHeading (hl : l.isHeading = false) :
    Reads o (join a b) l e ↔ ∃ b', Reads o b l b' ∧ join a b' = e := by
  constructor
  · intro h
    obtain ⟨hread, hsame⟩ := h.notHeading hl b
    exact ⟨join b e, hread, hsame⟩
  · rintro ⟨b', h, rfl⟩
    exact (h.notHeading hl a).1

/-- **Lines are read in two halves**: the headings by the one, the others by the other. -/
theorem readLines_join : (join a b).readLines o ls = .ok e ↔
    ∃ a' b', a.readLines o (ls.filter Line.isHeading) = .ok a' ∧
      b.readLines o (ls.filter (!·.isHeading)) = .ok b' ∧ join a' b' = e := by
  induction ls generalizing a b with
  | nil => simp
  | cons l ls ih =>
    rw [readLines_cons_eq_ok_iff]
    cases hl : l.isHeading with
    | true =>
      rw [List.filter_cons_of_pos hl, List.filter_cons_of_neg (by simp [hl])]
      simp only [reads_join_of_isHeading hl, readLines_cons_eq_ok_iff]
      constructor
      · rintro ⟨_, ⟨a', hread, rfl⟩, hrest⟩
        obtain ⟨a'', b', ha, hb, he⟩ := ih.mp hrest
        exact ⟨a'', b', ⟨a', hread, ha⟩, hb, he⟩
      · rintro ⟨a'', b', ⟨a', hread, ha⟩, hb, he⟩
        exact ⟨_, ⟨a', hread, rfl⟩, ih.mpr ⟨a'', b', ha, hb, he⟩⟩
    | false =>
      rw [List.filter_cons_of_neg (by simp [hl]), List.filter_cons_of_pos (by simp [hl])]
      simp only [reads_join_of_notHeading hl, readLines_cons_eq_ok_iff]
      constructor
      · rintro ⟨_, ⟨b', hread, rfl⟩, hrest⟩
        obtain ⟨a', b'', ha, hb, he⟩ := ih.mp hrest
        exact ⟨a', b'', ha, ⟨b', hread, hb⟩, he⟩
      · rintro ⟨a', b'', ha, ⟨b', hread, hb⟩, he⟩
        exact ⟨_, ⟨b', hread, rfl⟩, ih.mpr ⟨a', b'', ha, hb, he⟩⟩

/-! ## Where lines stand -/

/-- An instruction under way, wherever its action stands. -/
def Block.unnumbered : Block → Block
  | .action _ text => .action 0 text
  | block => block

theorem Block.unnumbered_eq_iff {block block' : Block} :
    block'.unnumbered = block.unnumbered ↔
      block' = block ∨ ∃ m n text, block' = .action m text ∧ block = .action n text := by
  cases block <;> cases block' <;> simp [Block.unnumbered]

/-- **Where a line stands** is nothing to the reading of it, nor where the action does. -/
theorem Reads.renumber (h : Reads o d l e) {block : Block}
    (hd : block.unnumbered = d.block.unnumbered) (n : Nat) :
    ∃ block', Reads o { d with block := block } { l with number := n } { e with block := block' } ∧
      block'.unnumbered = e.block.unnumbered := by
  have hsame : ∀ {block₀ : Block}, d.block = block₀ → (∀ m text, block₀ ≠ .action m text) →
      block = block₀ := by
    rintro _ rfl hne
    rcases Block.unnumbered_eq_iff.mp hd with h | ⟨_, n, text, -, h⟩
    · exact h
    · exact absurd h (hne n text)
  cases h with
  | identity hkind hnew hid => exact ⟨block, .identity hkind hnew hid, hd⟩
  | value hkind hmeans =>
    have hread : Reads o { d with block := block } { l with number := n } _ := .value hkind hmeans
    cases hmeans <;> exact ⟨block, hread, hd⟩
  | unknown hkind hkey => exact ⟨block, .unknown hkind hkey, hd⟩
  | remark hkind => exact ⟨block, .remark hkind, hd⟩
  | embed hkind hblock => exact ⟨block, .embed hkind (hsame hblock (by simp)), hd⟩
  | action hkind hblock => exact ⟨_, .action hkind (hsame hblock (by simp)), rfl⟩
  | response hkind hblock hquestion =>
    rcases Block.unnumbered_eq_iff.mp hd with rfl | ⟨_, _, text, rfl, haction⟩
    · exact ⟨_, .response hkind hblock hquestion, rfl⟩
    · obtain ⟨-, rfl⟩ := Block.action.inj (haction.symm.trans hblock)
      exact ⟨_, .response hkind rfl hquestion, rfl⟩
  | close hkind hblock => exact ⟨_, .close hkind (hsame hblock (by simp)), rfl⟩
  | skip hkind hblock => exact ⟨block, .skip hkind (hsame hblock (by simp)), hd⟩

/-- **Lines do the same wherever they stand.** -/
theorem readLines_renumber {ms : List Line} (hls : ms.map Line.unnumbered = ls.map Line.unnumbered)
    {block : Block} (hd : block.unnumbered = d.block.unnumbered) (h : d.readLines o ls = .ok e) :
    ∃ block', ({ d with block := block } : Draft).readLines o ms = .ok { e with block := block' } ∧
      block'.unnumbered = e.block.unnumbered := by
  induction ls generalizing d ms block with
  | nil =>
    obtain rfl := Except.ok.inj h
    rw [List.map_nil, List.map_eq_nil_iff] at hls
    exact ⟨block, hls ▸ rfl, hd⟩
  | cons l ls ih =>
    obtain ⟨m, ms, rfl, hm, hms⟩ := List.map_eq_cons_iff.mp hls
    obtain ⟨d', hread, hrest⟩ := readLines_cons_eq_ok_iff.mp h
    obtain ⟨block₁, hread₁, hblock₁⟩ := hread.renumber hd m.number
    obtain ⟨block', hrest', hblock'⟩ := ih hms hblock₁ hrest
    have hline : { l with number := m.number } = m := by
      cases l
      cases m
      simpa [Line.unnumbered, eq_comm] using hm
    exact ⟨block', readLines_cons_eq_ok_iff.mpr ⟨_, hline ▸ hread₁, hrest'⟩, hblock'⟩

end Draft

/-! ## Scripts -/

section Scripts

variable {o : Script.Options} {text text' : String} {s : Script}

/-- **A script is read in two halves**: its headings say what it is as a whole, and its other lines
say its steps. -/
theorem Script.read_eq_ok_iff_halves : Script.read o text = .ok s ↔ ∃ a b,
    Draft.readLines o {} ((Line.written text).filter Line.isHeading) = .ok a ∧
    Draft.readLines o {} ((Line.written text).filter (!·.isHeading) ++
      [Line.final (lines text.toList).length]) = .ok b ∧
    a.named = true ∧ (o.requireTitle = true → a.script.title ≠ "") ∧
      s = { a.script with steps := b.steps.reverse } := by
  have hjoin : ({} : Draft) = Draft.join {} {} := rfl
  have hend : (Line.final (lines text.toList).length).isHeading = false := rfl
  rw [Script.read_eq_ok_iff, Line.ofText_eq]
  conv_lhs => rw [hjoin]
  simp only [Draft.readLines_join, List.filter_append, List.filter_cons, hend, Bool.not_false,
    List.filter_nil, List.append_nil, if_true, Bool.false_eq_true, if_false]
  constructor
  · rintro ⟨_, ⟨a, b, ha, hb, rfl⟩, hnamed, htitle, hs⟩
    exact ⟨a, b, ha, hb, hnamed, htitle, hs⟩
  · rintro ⟨a, b, ha, hb, hnamed, htitle, hs⟩
    exact ⟨_, ⟨a, b, ha, hb, rfl⟩, hnamed, htitle, hs⟩

theorem Script.read_of_interleaved (hheadings : Line.headings text' = Line.headings text)
    (hsteps : Line.bodyLines text' = Line.bodyLines text) (h : Script.read o text = .ok s) :
    Script.read o text' = .ok s := by
  obtain ⟨a, b, ha, hb, hnamed, htitle, rfl⟩ := Script.read_eq_ok_iff_halves.mp h
  have hstart : Draft.Block.empty.unnumbered = ({} : Draft).block.unnumbered := rfl
  obtain ⟨_, ha', -⟩ := Draft.readLines_renumber (Line.map_unnumbered_eq hheadings) hstart ha
  have hend : ((Line.written text').filter (!·.isHeading) ++
      [Line.final (lines text'.toList).length]).map Line.unnumbered =
        ((Line.written text).filter (!·.isHeading) ++
          [Line.final (lines text.toList).length]).map Line.unnumbered := by
    rw [List.map_append, List.map_append, Line.map_unnumbered_eq hsteps]
    rfl
  obtain ⟨_, hb', -⟩ := Draft.readLines_renumber hend hstart hb
  exact Script.read_eq_ok_iff_halves.mpr ⟨_, _, ha', hb', hnamed, htitle, rfl⟩

end Scripts

/-- **Headings and the lines about the steps are independent.**  Two texts with the same headings,
in the same order, and the same other lines, in the same order, define the same script or both
define none, however the two kinds are interleaved. -/
theorem Script.read_interleaved (o : Script.Options) {text text' : String}
    (hheadings : Line.headings text' = Line.headings text)
    (hsteps : Line.bodyLines text' = Line.bodyLines text) :
    ((∃ s, Script.read o text = .ok s) ↔ ∃ s, Script.read o text' = .ok s) ∧
      ∀ s, Script.read o text = .ok s ↔ Script.read o text' = .ok s := by
  have hread : ∀ s, Script.read o text = .ok s ↔ Script.read o text' = .ok s := fun s =>
    ⟨Script.read_of_interleaved hheadings hsteps,
      Script.read_of_interleaved hheadings.symm hsteps.symm⟩
  exact ⟨exists_congr hread, hread⟩

/-- Headings in the middle of an instruction and behind the last step, or all of them first: what
stays apart are a response that begins like an embed, and the flag that is set behind it. -/
theorem Script.read_interleaved_within_instruction :
    let text := "A\n  # state: draft\n- b?\n# redirect: f\n#! x\n\n- y\n# note"
    let sorted := "# state: draft\n#! x\n# note\n A\n- b?\n# redirect: f\n\n- y\n"
    let s : Script :=
      { id := "x", state := .draft, description := "note\n",
        steps := [.instruction ⟨"A", "- b?", false⟩, .embed ⟨"y", true⟩] }
    Line.headings sorted = Line.headings text ∧ Line.bodyLines sorted = Line.bodyLines text ∧
      Script.read {} text = .ok s ∧ Script.read {} sorted = .ok s := by
  intro text sorted s
  have hheadings : Line.headings sorted = Line.headings text := by decide +kernel
  have hsteps : Line.bodyLines sorted = Line.bodyLines text := by decide +kernel
  have hread : Script.read {} text = .ok s := by decide
  exact ⟨hheadings, hsteps, hread, ((Script.read_interleaved {} hheadings hsteps).2 s).mp hread⟩

end ScriptSuite
