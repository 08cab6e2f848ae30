import ScriptSuite.Proofs.Script.Values
import ScriptSuite.Script.Draft

/-!
# Proofs/Script/Reading — what reading a line can do

`Draft.Reads` lists, once, everything that a line can do to a draft; a line is read exactly when one
of these applies (`step_eq_ok_iff`).  What holds of every draft is shown constructor by constructor,
and then along the lines (`readLines_cons_eq_ok_iff`).
-/

namespace ScriptSuite

namespace Draft

open Header

variable {o : Script.Options} {d d' e : Draft} {l : Line}

/-- Puts what a header line sets into a draft. -/
def put (d : Draft) : Entry → Draft
  | .redirect flag => { d with redirect := some flag }
  | entry => { d with script := d.script.set entry }

/-- **What a line does to a draft.** -/
inductive Reads (o : Script.Options) : Draft → Line → Draft → Prop
  | identity {d : Draft} {l : Line} {id : String} (hl : l.kind = .identity id)
      (hnew : d.named = false) (hid : id ≠ "") :
      Reads o d l { d with named := true, script := { d.script with id := id } }
  | value {d : Draft} {l : Line} {key : Key} {value : String} {entry : Entry}
      (hl : l.kind = .header key.name value) (hvalue : Means key value entry) :
      Reads o d l (d.put entry)
  | unknown {d : Draft} {l : Line} {key value : String} (hl : l.kind = .header key value)
      (hkey : Key.ofName? key = none) : Reads o d l (d.describe l.body)
  | remark {d : Draft} {l : Line} (hl : l.kind = .remark) : Reads o d l (d.describe l.body)
  | embed {d : Draft} {l : Line} {target : String} (hl : l.kind = .dash target)
      (hblock : d.block = .empty) : Reads o d l (d.emit o fun flag => .embed ⟨target, flag⟩)
  | action {d : Draft} {l : Line} (hl : l.kind = .content) (hblock : d.block = .empty) :
      Reads o d l { d with block := .action l.number l.text }
  | response {d : Draft} {l : Line} {n : Nat} {action : String}
      (hl : l.kind = .content ∨ ∃ target, l.kind = .dash target)
      (hblock : d.block = .action n action) (hquestion : '?' ∈ l.text.toList) :
      Reads o d l { d with block := .complete action l.text }
  | close {d : Draft} {l : Line} {action response : String}
      (hl : l.kind = .blank ∨ l.kind = .endOfText) (hblock : d.block = .complete action response) :
      Reads o d l (d.close o action response)
  | skip {d : Draft} {l : Line} (hl : l.kind = .blank ∨ l.kind = .endOfText)
      (hblock : d.block = .empty) : Reads o d l d

/-! ## Lines that are read -/

theorem reads_of_header {key value : String} (hl : l.kind = .header key value)
    (h : d.header l key value = .ok d') : Reads o d l d' := by
  rw [header] at h
  split at h
  · rename_i hkey
    exact Except.ok.inj h ▸ .unknown hl hkey
  · rename_i k hkey
    rw [Key.ofName?_eq_some_iff.mp hkey] at hl
    split at h
    · exact absurd h (by simp)
    · rename_i flag hread
      exact Except.ok.inj h ▸ .value hl (read_eq_ok_iff.mp hread)
    · rename_i entry hne hread
      have hput : d.put entry = { d with script := d.script.set entry } := by
        cases entry with
        | redirect flag => exact absurd rfl (hne flag)
        | _ => rfl
      exact Except.ok.inj h ▸ hput ▸ .value hl (read_eq_ok_iff.mp hread)

theorem reads_of_identity {id : String} (hl : l.kind = .identity id)
    (h : d.identity l.number id = .ok d') : Reads o d l d' := by
  rw [identity] at h
  split at h
  · exact absurd h (by simp)
  split at h
  · exact absurd h (by simp)
  · rename_i hnamed hempty
    exact Except.ok.inj h ▸ .identity hl (by simpa using hnamed) (by simpa using hempty)

theorem reads_of_blockLine (hl : l.kind = .content ∨ d.block ≠ .empty ∧ ∃ t, l.kind = .dash t)
    (h : d.blockLine l = .ok d') : Reads o d l d' := by
  rw [blockLine] at h
  split at h
  · rename_i hblock
    rcases hl with hl | hl
    · exact Except.ok.inj h ▸ .action hl hblock
    · exact absurd hblock hl.1
  · rename_i hblock
    split at h
    · rename_i hquestion
      exact Except.ok.inj h ▸ .response (hl.imp_right And.right) hblock hquestion
    · exact absurd h (by simp)
  · exact absurd h (by simp)

theorem reads_of_blank {n : Nat} (hl : l.kind = .blank) (h : d.blank o n = .ok d') :
    Reads o d l d' := by
  rw [blank] at h
  split at h
  · rename_i hblock
    exact Except.ok.inj h ▸ .skip (.inl hl) hblock
  · exact absurd h (by simp)
  · rename_i hblock
    exact Except.ok.inj h ▸ .close (.inl hl) hblock

theorem reads_of_endOfText (hl : l.kind = .endOfText) (h : d.endOfText o = .ok d') :
    Reads o d l d' := by
  rw [endOfText] at h
  split at h
  · rename_i hblock
    exact Except.ok.inj h ▸ .skip (.inr hl) hblock
  · exact absurd h (by simp)
  · rename_i hblock
    exact Except.ok.inj h ▸ .close (.inr hl) hblock

theorem reads_of_step (h : d.step o l = .ok d') : Reads o d l d' := by
  rw [step] at h
  split at h
  · exact reads_of_identity ‹_› h
  · exact reads_of_header ‹_› h
  · exact Except.ok.inj h ▸ .remark ‹_›
  · split at h
    · exact Except.ok.inj h ▸ .embed ‹_› ‹_›
    · exact reads_of_blockLine (.inr ⟨‹_›, _, ‹_›⟩) h
  · exact reads_of_blockLine (.inl ‹_›) h
  · exact reads_of_blank ‹_› h
  · exact reads_of_endOfText ‹_› h

theorem step_of_reads (h : Reads o d l d') : d.step o l = .ok d' := by
  cases h with
  | identity hl hnew hid => simp [step, hl, identity, hnew, hid]
  | value hl hvalue =>
    rw [step, hl]
    simp only [header, Key.ofName?_name, read_eq_ok_iff.mpr hvalue]
    split <;> simp_all [put]
  | unknown hl hkey => simp only [step, hl, header, hkey]
  | remark hl => simp only [step, hl]
  | embed hl hblock => simp only [step, hl, hblock]
  | action hl hblock => simp only [step, hl, blockLine, hblock]
  | response hl hblock hquestion =>
    rcases hl with hl | ⟨target, hl⟩ <;> simp only [step, hl, blockLine, hblock, if_pos hquestion]
  | close hl hblock =>
    rcases hl with hl | hl <;> simp only [step, hl, blank, endOfText, hblock]
  | skip hl hblock =>
    rcases hl with hl | hl <;> simp only [step, hl, blank, endOfText, hblock]

/-- **A line is read** exactly when there is something that it does. -/
theorem step_eq_ok_iff : d.step o l = .ok d' ↔ Reads o d l d' :=
  ⟨reads_of_step, step_of_reads⟩

/-! ## Lines one after another -/

theorem readLines_cons_eq_ok_iff {ls : List Line} : d.readLines o (l :: ls) = .ok e ↔
    ∃ d', Reads o d l d' ∧ d'.readLines o ls = .ok e := by
  simp only [readLines, ← step_eq_ok_iff]
  cases d.step o l <;> simp

/-- **What every line keeps** holds when all lines are read. -/
theorem readLines_induction {P : Draft → Prop} {ls : List Line}
    (hstep : ∀ l ∈ ls, ∀ d d', Reads o d l d' → P d → P d')
    (h : d.readLines o ls = .ok e) (hd : P d) : P e := by
  induction ls generalizing d with
  | nil => exact Except.ok.inj h ▸ hd
  | cons l ls ih =>
    obtain ⟨d', hread, hrest⟩ := readLines_cons_eq_ok_iff.mp h
    refine ih (fun l' hl' => hstep l' (List.mem_cons_of_mem l hl')) hrest ?_
    exact hstep l (List.mem_cons_self ..) d d' hread hd

/-! ## The end -/

theorem finish_eq_ok_iff {s : Script} : d.finish o = .ok s ↔
    d.named = true ∧ (o.requireTitle = true → d.script.title ≠ "") ∧
      s = { d.script with steps := d.steps.reverse } := by
  have htitle : (o.requireTitle && d.script.title.isEmpty) = false ↔
      (o.requireTitle = true → d.script.title ≠ "") := by
    cases o.requireTitle <;> simp
  rw [finish, ← htitle]
  cases d.named <;> cases (o.requireTitle && d.script.title.isEmpty) <;> simp [eq_comm]

end Draft

/-- **A script is read** when all lines are, one of them an identity, and a title if one is asked
for. -/
theorem Script.read_eq_ok_iff {o : Script.Options} {text : String} {s : Script} :
    Script.read o text = .ok s ↔ ∃ d, Draft.readLines o {} (Line.ofText text) = .ok d ∧
      d.named = true ∧ (o.requireTitle = true → d.script.title ≠ "") ∧
        s = { d.script with steps := d.steps.reverse } := by
  rw [Script.read_eq]
  cases Draft.readLines o {} (Line.ofText text) with
  | error e => simp [Except.bind]
  | ok d => simp [Except.bind, Draft.finish_eq_ok_iff]

end ScriptSuite
