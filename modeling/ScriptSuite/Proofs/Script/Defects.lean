import ScriptSuite.Proofs.Script.Emission
import ScriptSuite.Proofs.Script.RoundTrip

/-!
# Proofs/Script/Defects — a defect is reported as soon as nothing can mend it

Lines that were read can always go on to a script: an instruction under way gets a response, and
the identity and the title that are missing can still be given (`Draft.exists_completion`).  So the
first line that is refused is the first one that no further lines can mend, and the three defects
that only the end of a text shows can all be mended by lines behind it (`Script.earliest_defect`).
-/

namespace ScriptSuite

open Header Grammar Script

/-! ## Going on to a script -/

/-- **Lines that begin a script**: some more lines make them one. -/
def Script.Begins (o : Script.Options) (ls : List (List Char)) : Prop :=
  ∃ (more : List (List Char)) (text : String) (s : Script),
    lines text.toList = ls ++ more ∧ Script.read o text = .ok s

section Completion

variable {o : Script.Options} {d e : Draft} {l : Line} {ls : List (List Char)} {s : Script}

/-- A response to the action under way, if there is one. -/
theorem Draft.exists_answer (o : Script.Options) (d : Draft) : ∃ ls d', Draft.Takes o ls d d' ∧
    ∀ n action, d'.block ≠ .action n action := by
  cases hblock : d.block with
  | action n action =>
    have hresponse : IsResponse "?" := ⟨by decide, by decide, by decide⟩
    exact ⟨_, _, .single hresponse.oneLine fun _ => reads_response hresponse hblock, by simp⟩
  | _ => exact ⟨[], d, .nil, by simp [hblock]⟩

/-- An identity line, if there is none yet. -/
theorem Draft.exists_naming (o : Script.Options) (d : Draft) : ∃ ls d', Draft.Takes o ls d d' ∧
    d'.named = true ∧ d'.block = d.block := by
  cases hnamed : d.named with
  | true => exact ⟨[], d, .nil, hnamed, rfl⟩
  | false =>
    exact ⟨[labelled "#!" "x"], _,
      .single (by decide) fun _ => reads_identity (by decide) (by decide) hnamed, rfl, rfl⟩

/-- **Every draft can go on to a script.** -/
theorem Draft.exists_completion (o : Script.Options) (d : Draft) :
    ∃ (ls : List String) (s : Script), (∀ l ∈ ls, '\n' ∉ l.toList) ∧
      ∀ n, (d.readFrom o n (ls.map String.toList)).bind (fun e => e.finish o) = .ok s := by
  obtain ⟨answer, d₁, hanswer, hblock₁⟩ := d.exists_answer o
  obtain ⟨naming, d₂, hnaming, hnamed₂, hblock₂⟩ := d₁.exists_naming o
  have htitle : Draft.Takes o [labelled "# title:" "x"] d₂ (d₂.put (.title "x")) :=
    takes_value (by decide) (by decide) (.title "x")
  have htakes := (hanswer.append hnaming).append htitle
  obtain ⟨e, hend, hnamed, hscript⟩ : ∃ e : Draft,
      (∀ n, (d₂.put (.title "x")).step o (Line.final n) = .ok e) ∧ e.named = true ∧
        e.script.title = "x" := by
    cases hblock : (d₂.put (.title "x")).block with
    | empty => exact ⟨_, fun _ => Draft.step_of_reads (.skip (.inr rfl) hblock), hnamed₂, rfl⟩
    | action n action => exact absurd (hblock₂ ▸ hblock) (hblock₁ n action)
    | complete action response =>
      exact ⟨_, fun _ => Draft.step_of_reads (.close (.inr rfl) hblock), hnamed₂, rfl⟩
  refine ⟨_, { e.script with steps := e.steps.reverse },
    fun l hl => (htakes.oneLine l hl).noFeed, fun n => ?_⟩
  have hread := htakes.readFrom_eq n []
  rw [List.append_nil] at hread
  rw [hread, Draft.readFrom, hend]
  exact Draft.finish_eq_ok_iff.mpr ⟨hnamed, fun _ => by rw [hscript]; decide, rfl⟩

/-- **Lines that were read** begin a script. -/
theorem Script.begins_of_readLines (hls : ∀ cs ∈ ls, '\n' ∉ cs)
    (h : Draft.readLines o {} (Line.ofLines ls) = .ok d) : Script.Begins o ls := by
  obtain ⟨more, s, hmore, hread⟩ := d.exists_completion o
  have hfeed : ∀ l ∈ ls.map String.ofList ++ more, '\n' ∉ l.toList := by
    refine List.forall_mem_append.mpr ⟨List.forall_mem_map.mpr fun cs hcs => ?_, hmore⟩
    rw [String.toList_ofList]
    exact hls cs hcs
  have hchars : (ls.map String.ofList ++ more).map String.toList =
      ls ++ more.map String.toList := by simp [Function.comp_def]
  have hlines := lines_join hfeed
  rw [hchars] at hlines
  exact ⟨_, _, s, hlines, (Script.read_eq_of_append hlines h).trans (hread ls.length)⟩

end Completion

/-! ## The line of a defect -/

/-- A defect that only the end of a text shows. -/
def Defect.Reason.isOfEnd : Defect.Reason → Bool
  | .identityMissing | .titleMissing | .stepUnfinished => true
  | _ => false

section Lines

variable {o : Script.Options} {d e : Draft} {defect : Defect} {l : Line} {ls : List Line}

theorem map_eq_error_iff {α β : Type} {x : Except Defect.Reason α} {f : α → β}
    {reason : Defect.Reason} : x.map f = .error reason ↔ x = .error reason := by
  cases x <;> simp [Except.map]

namespace Header

variable {key : Key} {value : String} {reason : Defect.Reason}

theorem isOfEnd_of_wholeNumber (h : wholeNumber key value = .error reason) :
    reason.isOfEnd = false := by
  rw [wholeNumber] at h
  split at h
  · exact absurd h (by simp)
  · exact Except.error.inj h ▸ rfl

theorem isOfEnd_of_boolean (h : boolean key value = .error reason) : reason.isOfEnd = false := by
  rw [boolean] at h
  split at h
  · exact absurd h (by simp)
  · exact Except.error.inj h ▸ rfl

/-- No value is refused for what the end asks. -/
theorem isOfEnd_of_read (h : Entry.read key value = .error reason) : reason.isOfEnd = false := by
  cases key with
  | title | startUri | tags | browsers => exact absurd h (by simp [Entry.read])
  | siteId => exact isOfEnd_of_wholeNumber (map_eq_error_iff.mp h)
  | featureId =>
    rw [Entry.read] at h
    split at h
    · exact absurd h (by simp)
    · exact isOfEnd_of_wholeNumber (map_eq_error_iff.mp h)
  | redirect | execute => exact isOfEnd_of_boolean (map_eq_error_iff.mp h)
  | state =>
    rw [Entry.read] at h
    split at h
    · exact absurd h (by simp)
    · exact Except.error.inj h ▸ rfl
  | priority =>
    rw [Entry.read] at h
    split at h
    · exact absurd h (by simp)
    · split at h
      · exact absurd h (by simp)
      · exact Except.error.inj h ▸ rfl

end Header

/-- A defect that the line with this number shows, whatever comes behind it. -/
def Defect.IsAt (defect : Defect) (n : Nat) : Prop :=
  defect.line = n ∧ defect.reason.isOfEnd = false

theorem Draft.isAt_of_identity {n : Nat} {id : String} (h : d.identity n id = .error defect) :
    defect.IsAt n := by
  rw [identity] at h
  split at h
  · exact Except.error.inj h ▸ ⟨rfl, rfl⟩
  split at h
  · exact Except.error.inj h ▸ ⟨rfl, rfl⟩
  · exact absurd h (by simp)

theorem Draft.isAt_of_header {key value : String} (h : d.header l key value = .error defect) :
    defect.IsAt l.number := by
  rw [header] at h
  split at h
  · exact absurd h (by simp)
  · split at h
    · rename_i hread
      exact Except.error.inj h ▸ ⟨rfl, Header.isOfEnd_of_read hread⟩
    · exact absurd h (by simp)
    · exact absurd h (by simp)

theorem Draft.isAt_of_blockLine (h : d.blockLine l = .error defect) : defect.IsAt l.number := by
  rw [blockLine] at h
  split at h
  · exact absurd h (by simp)
  · split at h
    · exact absurd h (by simp)
    · exact Except.error.inj h ▸ ⟨rfl, rfl⟩
  · exact Except.error.inj h ▸ ⟨rfl, rfl⟩

theorem Draft.isAt_of_blank {n : Nat} (h : d.blank o n = .error defect) : defect.IsAt n := by
  rw [blank] at h
  split at h
  · exact absurd h (by simp)
  · exact Except.error.inj h ▸ ⟨rfl, rfl⟩
  · exact absurd h (by simp)

/-- **A line that is refused** is the line of the defect. -/
theorem Draft.isAt_of_step (h : d.step o l = .error defect) (hl : l.kind ≠ .endOfText) :
    defect.IsAt l.number := by
  rw [step] at h
  split at h
  · exact isAt_of_identity h
  · exact isAt_of_header h
  · exact absurd h (by simp)
  · split at h
    · exact absurd h (by simp)
    · exact isAt_of_blockLine h
  · exact isAt_of_blockLine h
  · exact isAt_of_blank h
  · exact absurd ‹_› hl

/-- Lines that are refused are so at the first line that is. -/
theorem Draft.exists_of_readLines_eq_error (h : d.readLines o ls = .error defect) :
    ∃ (before : List Line) (l : Line) (after : List Line) (d' : Draft), ls = before ++ l :: after ∧
      d.readLines o before = .ok d' ∧ d'.step o l = .error defect := by
  induction ls generalizing d with
  | nil => simp at h
  | cons l ls ih =>
    rw [readLines] at h
    split at h
    · rename_i hstep
      exact ⟨[], l, ls, d, rfl, rfl, hstep.trans (congrArg _ (Except.error.inj h))⟩
    · rename_i d₁ hstep
      obtain ⟨before, l', after, d', rfl, hbefore, hl'⟩ := ih h
      exact ⟨l :: before, l', after, d', rfl, by rw [readLines, hstep]; exact hbefore, hl'⟩

/-- The end of a text is refused when an action waits for its response. -/
theorem Draft.exists_action_of_step_final {n : Nat} (h : d.step o (Line.final n) = .error defect) :
    ∃ action, d.block = .action defect.line action ∧ defect.reason = .stepUnfinished := by
  change d.endOfText o = .error defect at h
  rw [endOfText] at h
  split at h
  · exact absurd h (by simp)
  · rename_i m action hblock
    obtain rfl := Except.error.inj h
    exact ⟨action, hblock, rfl⟩
  · exact absurd h (by simp)

/-- What the end asks of a script as a whole. -/
theorem Draft.reason_of_finish (h : d.finish o = .error defect) : defect.line = 0 ∧
    (defect.reason = .identityMissing ∨ defect.reason = .titleMissing) := by
  rw [finish] at h
  split at h
  · exact Except.error.inj h ▸ ⟨rfl, .inl rfl⟩
  split at h
  · exact Except.error.inj h ▸ ⟨rfl, .inr rfl⟩
  · exact absurd h (by simp)

/-- A defect in the first lines of a text is the defect of the text. -/
theorem Script.read_eq_error_of_append {text : String} {front back : List (List Char)}
    (hlines : lines text.toList = front ++ back)
    (hfront : Draft.readLines o {} (Line.ofLines front) = .error defect) :
    Script.read o text = .error defect := by
  rw [Script.read_eq, Line.ofText, hlines, Line.numbered_append, Draft.readLines_append, hfront]
  rfl

end Lines

/-! ## The first defect -/

/-- **An action without a response**: the line with this number comes where a step can begin, and
only header lines follow it. -/
def Grammar.Unanswered (o : Script.Options) (ls : List Line) (n : Nat) : Prop :=
  ∃ (done idle : List Line) (action : Line) (inner : List Line) (steps : List Step),
    ls = done ++ (idle ++ action :: inner) ∧ Emitted o done steps ∧ Idle idle ∧
      action.kind = .content ∧ action.number = n ∧ ∀ l ∈ inner, l.isHash = true

/-- A line of a text, and the lines before it, by their characters. -/
theorem Line.exists_of_written_eq {text : String} {before after : List Line} {l : Line}
    (h : written text = before ++ l :: after) : ∃ front cs back,
      lines text.toList = front ++ cs :: back ∧ before = ofLines front ∧
        l = ofChars (front.length + 1) cs := by
  obtain ⟨front, rest, hlines, hbefore, hrest⟩ := List.mapIdx_eq_append_iff.mp h
  obtain ⟨cs, back, rfl, hl, -⟩ := List.mapIdx_eq_cons_iff.mp hrest
  exact ⟨front, cs, back, hlines, hbefore.symm, by rw [← hl, Nat.zero_add]⟩

theorem Draft.unanswered_of_block {o : Script.Options} {d : Draft} {ls : List Line} {n : Nat}
    {action : String} (hls : ∀ l ∈ ls, l.kind ≠ .endOfText) (h : readLines o {} ls = .ok d)
    (hblock : d.block = .action n action) : Unanswered o ls n := by
  obtain ⟨done, seg, -, rfl, hemitted, -, -, hpending, -⟩ := Draft.exists_emitted hls h
  rw [hblock] at hpending
  cases hpending with
  | @action idle inner l hidle haction hinner =>
    exact ⟨done, idle, l, inner, _, rfl, hemitted, hidle, haction, rfl, hinner⟩

section First

variable {o : Script.Options} {text : String} {defect : Defect}

/-- **A line that is refused** cannot be mended by lines behind it, but was still a choice: the
lines before it begin a script. -/
theorem Script.isAt_of_readLines
    (h : Draft.readLines o {} (Line.written text) = .error defect) :
    defect.reason.isOfEnd = false ∧ 1 ≤ defect.line ∧
      defect.line ≤ (lines text.toList).length ∧
      Script.Begins o ((lines text.toList).take (defect.line - 1)) ∧
      ∀ text' : String, (lines text.toList).take defect.line <+: lines text'.toList →
        Script.read o text' = .error defect := by
  obtain ⟨before, l, after, d, hsplit, hbefore, hl⟩ := Draft.exists_of_readLines_eq_error h
  have hmem : l ∈ Line.written text := by simp [hsplit]
  obtain ⟨hline, hreason⟩ := Draft.isAt_of_step hl (kind_ne_endOfText_of_mem_written hmem)
  obtain ⟨front, cs, back, hlines, rfl, rfl⟩ := Line.exists_of_written_eq hsplit
  replace hline : defect.line = front.length + 1 := hline
  have hfeed : ∀ cs' ∈ front, '\n' ∉ cs' := fun cs' hcs' =>
    notMem_of_mem_lines (hlines ▸ List.mem_append_left _ hcs')
  have htake : (front ++ cs :: back).take (front.length + 1) = front ++ [cs] := by
    rw [List.append_cons]
    exact List.take_left' (by simp)
  have hrefused : Draft.readLines o {} (Line.ofLines (front ++ [cs])) = .error defect := by
    have happend : Line.ofLines (front ++ [cs]) =
        Line.ofLines front ++ [Line.ofChars (front.length + 1) cs] := by
      simp [Line.ofLines]
    rw [happend, Draft.readLines_append, hbefore]
    change d.readLines o [_] = _
    rw [Draft.readLines, hl]
  rw [hlines, hline, htake, Nat.add_sub_cancel, List.take_left]
  refine ⟨hreason, by omega, by simp, Script.begins_of_readLines hfeed hbefore, ?_⟩
  rintro text' ⟨rest, hrest⟩
  exact Script.read_eq_error_of_append hrest.symm hrefused

/-- **A defect that only the end shows**, when every line was read. -/
theorem Script.isOfEnd_of_readLines {d : Draft}
    (hread : Draft.readLines o {} (Line.written text) = .ok d)
    (h : Script.read o text = .error defect) :
    defect.reason.isOfEnd = true ∧ Script.Begins o (lines text.toList) ∧
      (defect.reason = .stepUnfinished → Unanswered o (Line.written text) defect.line) ∧
      (defect.reason ≠ .stepUnfinished → defect.line = 0) := by
  have hbegins : Script.Begins o (lines text.toList) :=
    Script.begins_of_readLines (fun _ hcs => notMem_of_mem_lines hcs) hread
  rw [Script.read_eq, Line.ofText_eq, Draft.readLines_append, hread] at h
  change (d.readLines o [_]).bind _ = _ at h
  rw [Draft.readLines] at h
  cases hend : d.step o (Line.final (lines text.toList).length) with
  | error defect' =>
    rw [hend] at h
    obtain rfl : defect' = defect := Except.error.inj h
    obtain ⟨action, hblock, hreason⟩ := Draft.exists_action_of_step_final hend
    have hunanswered : Unanswered o (Line.written text) defect'.line :=
      Draft.unanswered_of_block (fun _ hl => kind_ne_endOfText_of_mem_written hl) hread hblock
    rw [hreason]
    exact ⟨rfl, hbegins, fun _ => hunanswered, fun hne => absurd rfl hne⟩
  | ok e =>
    rw [hend] at h
    obtain ⟨hline, hreason⟩ := Draft.reason_of_finish h
    refine ⟨?_, hbegins, fun heq => ?_, fun _ => hline⟩
    · rcases hreason with hreason | hreason <;> rw [hreason] <;> rfl
    · rcases hreason with hreason | hreason <;> exact absurd (hreason.symm.trans heq) (by decide)

/-- **A defect is reported at the first line that cannot be mended.**  The lines before it begin a
script, and every text that begins with the lines up to it has the same defect.  A defect that only
the end shows can be mended by more lines: it is an action that waits for its response, or something
that is missing in the whole. -/
theorem Script.earliest_defect (h : Script.read o text = .error defect) :
    (defect.reason.isOfEnd = true → Script.Begins o (lines text.toList) ∧
      (defect.reason = .stepUnfinished → Unanswered o (Line.written text) defect.line) ∧
      (defect.reason ≠ .stepUnfinished → defect.line = 0)) ∧
    (defect.reason.isOfEnd = false →
      1 ≤ defect.line ∧ defect.line ≤ (lines text.toList).length ∧
      Script.Begins o ((lines text.toList).take (defect.line - 1)) ∧
      ∀ text' : String, (lines text.toList).take defect.line <+: lines text'.toList →
        Script.read o text' = .error defect) := by
  cases hread : Draft.readLines o {} (Line.written text) with
  | error defect' =>
    have hsame : Script.read o text = .error defect' := by
      rw [Script.read_eq, Line.ofText_eq, Draft.readLines_append, hread]
      rfl
    obtain rfl := Except.error.inj (hsame.symm.trans h)
    obtain ⟨hreason, hat⟩ := Script.isAt_of_readLines hread
    exact ⟨fun hend => absurd (hreason.symm.trans hend) Bool.false_ne_true, fun _ => hat⟩
  | ok d =>
    obtain ⟨hreason, hend⟩ := Script.isOfEnd_of_readLines hread h
    exact ⟨fun _ => hend, fun hat => absurd (hat.symm.trans hreason) Bool.false_ne_true⟩

end First

/-- At the blank line the question is missing for good, though there is one below; an action that
waits at the end can still get one. -/
theorem Script.earliest_defect_missing_question :
    let text := "# state: draft\nA\n# note\n\n?\n#! x"
    let waiting := "#! x\nA\n# note"
    (Script.read {} text = .error ⟨4, .questionMissing⟩ ∧
      Script.Begins {} ((lines text.toList).take 3) ∧
      Script.read {} (text ++ "\nB?") = .error ⟨4, .questionMissing⟩) ∧
    Script.read {} waiting = .error ⟨2, .stepUnfinished⟩ ∧
      Script.Begins {} (lines waiting.toList) ∧ Unanswered {} (Line.written waiting) 2 := by
  intro text waiting
  have htext : Script.read {} text = .error ⟨4, .questionMissing⟩ := by decide
  have hopen : Script.read {} waiting = .error ⟨2, .stepUnfinished⟩ := by decide
  obtain ⟨-, -, hbegins, hfatal⟩ := (Script.earliest_defect htext).2 rfl
  obtain ⟨hbegins', hunanswered, -⟩ := (Script.earliest_defect hopen).1 rfl
  exact ⟨⟨htext, hbegins, hfatal (text ++ "\nB?") (by decide)⟩, hopen, hbegins',
    hunanswered rfl⟩

end ScriptSuite
