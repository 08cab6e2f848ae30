import ScriptSuite.Proofs.Script.Marking
import ScriptSuite.Proofs.Script.Reading

/-!
# Proofs/Script/WellFormed — what every script that was read is like

A text can only say so much: a field is on one line, an item of a list has no comma, a line of the
description is no header that means something, and an action does not look like another kind of
line (`Script.WellFormed`).  Every script that was read is well-formed (`wellFormed_of_read`).
-/

namespace ScriptSuite

open Header

/-! ## Steps -/

/-- An action: a text that is no line of another kind. -/
structure IsAction (s : String) : Prop where
  oneLine : OneLine s
  ne_empty : s ≠ ""
  noHash : s.toList.head? ≠ some '#'
  noDash : s.toList.head? ≠ some '-'

/-- A response: a text that asks something, and is no header line. -/
structure IsResponse (s : String) : Prop where
  oneLine : OneLine s
  noHash : s.toList.head? ≠ some '#'
  question : '?' ∈ s.toList

/-- A step that a text can say. -/
def Step.WellFormed : Step → Prop
  | .instruction i => IsAction i.action ∧ IsResponse i.response
  | .embed e => OneLine e.target

/-! ## Scripts -/

/-- What a text can say of everything but the steps. -/
structure Script.Sayable (s : Script) : Prop where
  id : OneLine s.id
  title : OneLine s.title
  startUri : OneLine s.startUri
  tags : ∀ item ∈ s.tags, ListItem item
  browsers : ∀ item ∈ s.browsers, ListItem item
  description : ∃ ls : List String,
    s.description = String.join (ls.map (· ++ "\n")) ∧ ∀ l ∈ ls, DescriptionLine l
  location : s.location = ""

/-- **A script that a text can say.** -/
structure Script.WellFormed (o : Script.Options) (s : Script) : Prop extends s.Sayable where
  id_ne_empty : s.id ≠ ""
  title_ne_empty : o.requireTitle = true → s.title ≠ ""
  steps : ∀ step ∈ s.steps, step.WellFormed

namespace Script.Sayable

variable {s : Script}

theorem empty : Sayable { id := "" } where
  id := oneLine_empty
  title := oneLine_empty
  startUri := by decide
  tags := by simp
  browsers := by simp
  description := ⟨[], rfl, by simp⟩
  location := rfl

/-- What a header line sets can be said, as the line has said it. -/
theorem set (h : s.Sayable) {key : Key} {value : String} {entry : Entry} (hvalue : OneLine value)
    (hmeans : Means key value entry) : (s.set entry).Sayable := by
  cases hmeans with
  | title => exact { h with title := hvalue }
  | startUri => exact { h with startUri := hvalue }
  | tags => exact { h with tags := fun item hitem => listItem_of_mem hvalue.noFeed hitem }
  | browsers => exact { h with browsers := fun item hitem => listItem_of_mem hvalue.noFeed hitem }
  | _ => exact { h with }

end Script.Sayable

/-! ## Drafts -/

/-- The instruction under way, as far as it goes. -/
def Draft.Block.WellFormed : Draft.Block → Prop
  | .empty => True
  | .action _ text => IsAction text
  | .complete text reply => IsAction text ∧ IsResponse reply

/-- **What holds of every draft.** -/
structure Draft.WellFormed (d : Draft) : Prop where
  script : d.script.Sayable
  id_ne_empty : d.named = true → d.script.id ≠ ""
  block : d.block.WellFormed
  steps : ∀ step ∈ d.steps, step.WellFormed

namespace Draft.WellFormed

variable {o : Script.Options} {d d' : Draft}

theorem empty : WellFormed {} where
  script := .empty
  id_ne_empty := by simp
  block := trivial
  steps := by simp

theorem put (h : d.WellFormed) {key : Key} {value : String} {entry : Entry} (hvalue : OneLine value)
    (hmeans : Means key value entry) : (d.put entry).WellFormed := by
  have hset := h.script.set hvalue hmeans
  cases entry with
  | redirect flag => exact { h with }
  | _ => exact { h with script := hset }

theorem describe (h : d.WellFormed) {l : String} (hl : DescriptionLine l) :
    (d.describe l).WellFormed := by
  obtain ⟨ls, hls, hlines⟩ := h.script.description
  have hdescription : ∃ ls' : List String, d.script.description ++ l ++ "\n" =
      String.join (ls'.map (· ++ "\n")) ∧ ∀ l' ∈ ls', DescriptionLine l' := by
    refine ⟨ls ++ [l], by simp [hls, String.append_assoc], ?_⟩
    exact List.forall_mem_append.mpr ⟨hlines, List.forall_mem_singleton.mpr hl⟩
  exact { h with script := { h.script with description := hdescription } }

theorem emit (h : d.WellFormed) {step : Bool → Step} (hstep : ∀ flag, (step flag).WellFormed) :
    (d.emit o step).WellFormed := by
  refine { h with steps := fun step' hstep' => ?_ }
  rcases List.mem_cons.mp hstep' with rfl | hstep'
  · exact hstep _
  · exact h.steps step' hstep'

/-- **Reading a line** keeps a draft well-formed. -/
theorem reads (h : d.WellFormed) {l : Line} (hregular : l.Regular) (hread : Reads o d l d') :
    d'.WellFormed := by
  obtain ⟨n, text, kind⟩ := l
  cases hread with
  | identity hl hnew hid =>
    cases hregular <;> cases hl
    rename_i hvalue
    exact { h with script := { h.script with id := hvalue }, id_ne_empty := fun _ => hid }
  | value hl hmeans =>
    cases hregular <;> cases hl
    rename_i hvalue _
    exact h.put hvalue hmeans
  | unknown hl hkey =>
    cases hregular <;> cases hl
    rename_i hbody
    exact h.describe (hbody hkey)
  | remark hl =>
    cases hregular <;> cases hl
    rename_i hbody
    exact h.describe hbody
  | embed hl hblock =>
    cases hregular <;> cases hl
    rename_i htarget
    exact h.emit fun _ => htarget
  | action hl hblock =>
    cases hregular <;> cases hl
    rename_i htext hne hhash hdash
    exact { h with block := ⟨htext, hne, hhash, hdash⟩ }
  | response hl hblock hquestion =>
    have haction : Block.WellFormed _ := hblock ▸ h.block
    refine { h with block := ⟨haction, ?_⟩ }
    cases hregular with
    | content htext hne hhash hdash => exact ⟨htext, hhash, hquestion⟩
    | dash htext hmark htarget => exact ⟨htext, by simp [hmark], hquestion⟩
    | _ => simp at hl
  | @close action response hl hblock =>
    have hboth : Block.WellFormed _ := hblock ▸ h.block
    have hemit : (d.emit o fun flag => .instruction ⟨action, response, flag⟩).WellFormed :=
      h.emit fun _ => hboth
    exact { hemit with block := trivial }
  | skip hl hblock => exact h

end Draft.WellFormed

/-- **Every script that was read is well-formed.** -/
theorem Script.wellFormed_of_read {o : Script.Options} {text : String} {s : Script}
    (h : Script.read o text = .ok s) : s.WellFormed o := by
  obtain ⟨d, hread, hnamed, htitle, rfl⟩ := Script.read_eq_ok_iff.mp h
  have hd : d.WellFormed := Draft.readLines_induction
    (fun l hl d d' hread hd => hd.reads (Line.regular_of_mem_ofText hl) hread) hread .empty
  exact { hd.script with
    id_ne_empty := hd.id_ne_empty hnamed
    title_ne_empty := htitle
    steps := fun step hstep => hd.steps step (List.mem_reverse.mp hstep) }

end ScriptSuite
