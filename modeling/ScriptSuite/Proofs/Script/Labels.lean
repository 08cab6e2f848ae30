import ScriptSuite.Proofs.Script.WellFormed
import ScriptSuite.Script.Canonical

/-!
# Proofs/Script/Labels — the lines of the canonical text, read on their own

A line of the canonical text is a label and, one space behind it, a value; an empty value leaves the
bare label (`labelled`).  Such a line is on one line, and its label is a marker that tells what it
is (`kind_header` and its like), so each of the lines does one thing to a draft.
-/

namespace ScriptSuite

open Header Script

variable {o : Options} {d : Draft} {n : Nat} {label value : String}

/-! ## Labels -/

/-- A line with a value that is there. -/
theorem labelled_of_ne_empty (label : String) (h : value ≠ "") :
    labelled label value = label ++ " " ++ value := by
  rw [labelled, if_neg (by simpa using h)]

/-- What stands behind the label. -/
theorem toList_labelled (label value : String) : ∃ rest,
    (labelled label value).toList = label.toList ++ rest ∧
      (rest = [] ∧ value = "" ∨ rest = ' ' :: value.toList) := by
  by_cases h : value = ""
  · exact ⟨[], by simp [labelled, h], .inl ⟨rfl, h⟩⟩
  · exact ⟨' ' :: value.toList, by simp [labelled_of_ne_empty label h], .inr rfl⟩

/-- A text on one line, when neither its beginning begins nor its end ends with a blank. -/
theorem oneLine_append {front middle back : String} (hfront : OneLine front) (hne : front ≠ "")
    (hmiddle : '\n' ∉ middle.toList) (hback : back ≠ "") (hfeed : '\n' ∉ back.toList)
    (hblank : ∀ c ∈ back.toList.getLast?, isBlank c = false) :
    OneLine (front ++ middle ++ back) := by
  have hne' : front.toList ≠ [] := by simpa using hne
  have hback' : back.toList ≠ [] := by simpa using hback
  refine ⟨⟨?_, ?_⟩, ?_⟩
  · simp only [String.toList_append, List.append_assoc, List.head?_append_of_ne_nil _ hne']
    exact hfront.trimmed.1
  · rw [String.toList_append, List.getLast?_append_of_ne_nil _ hback']
    exact hblank
  · simpa [String.toList_append, not_or] using ⟨hfront.noFeed, hmiddle, hfeed⟩

/-- A labelled value is on one line. -/
theorem oneLine_labelled (hlabel : OneLine label) (hne : label ≠ "") (hfeed : '\n' ∉ value.toList)
    (hblank : ∀ c ∈ value.toList.getLast?, isBlank c = false) : OneLine (labelled label value) := by
  by_cases h : value = ""
  · simpa [labelled, h] using hlabel
  · rw [labelled_of_ne_empty label h]
    exact oneLine_append hlabel hne (by decide) h hfeed hblank

/-- **The value is read back** from behind the label. -/
theorem field_behind_label {rest : List Char} (hvalue : Trimmed value)
    (hrest : rest = [] ∧ value = "" ∨ rest = ' ' :: value.toList) : Line.field rest = value := by
  rcases hrest with ⟨rfl, rfl⟩ | rfl
  · rfl
  · rw [Line.field_cons_space, Line.field_toList hvalue]

/-! ## What one line is -/

/-- A text as a line of a script. -/
def lineOf (n : Nat) (text : String) : Line := ⟨n, text, Line.Kind.ofChars text.toList⟩

theorem ofChars_toList {text : String} (h : OneLine text) :
    Line.ofChars n text.toList = lineOf n text := by
  rw [Line.ofChars, trimChars_toList h.trimmed, String.ofList_toList, lineOf]

theorem kind_identity (n : Nat) (hid : Trimmed value) :
    (lineOf n (labelled "#!" value)).kind = .identity value := by
  obtain ⟨rest, htext, hrest⟩ := toList_labelled "#!" value
  rw [lineOf, htext]
  exact congrArg Line.Kind.identity (field_behind_label hid hrest)

/-- **A header line** has the key of its label, whatever stands behind that. -/
theorem kind_header_append (n : Nat) (key : Key) (rest : String) :
    (lineOf n ("# " ++ key.name ++ ":" ++ rest)).kind =
      .header key.name (Line.field rest.toList) := by
  have hname : Trimmed key.name ∧ ':' ∉ key.name.toList := by cases key <;> decide
  have hchars : ("# " ++ key.name ++ ":" ++ rest).toList =
      '#' :: ((' ' :: key.name.toList) ++ ':' :: rest.toList) := by simp
  rw [lineOf, hchars, Line.Kind.ofChars_header (by simp) rfl (by simpa using hname.2),
    Line.field_cons_space, Line.field_toList hname.1]

theorem kind_header (n : Nat) (key : Key) (hvalue : Trimmed value) :
    (lineOf n (labelled ("# " ++ key.name ++ ":") value)).kind = .header key.name value := by
  obtain ⟨rest, htext, hrest⟩ := toList_labelled ("# " ++ key.name ++ ":") value
  have hlabel : labelled ("# " ++ key.name ++ ":") value =
      "# " ++ key.name ++ ":" ++ String.ofList rest := String.toList_inj.mp (by simp [htext])
  rw [hlabel, kind_header_append, String.toList_ofList, field_behind_label hvalue hrest]

/-- **A line of the description** is a header line whose key means nothing, or a remark. -/
theorem kind_description (n : Nat) {l : String} (hl : DescriptionLine l) :
    (∃ name value, (lineOf n (labelled "#" l)).kind = .header name value ∧
      Key.ofName? name = none) ∨ (lineOf n (labelled "#" l)).kind = .remark := by
  obtain ⟨rest, htext, hrest⟩ := toList_labelled "#" l
  have hmark : rest.head? ≠ some '!' := by rcases hrest with ⟨rfl, -⟩ | rfl <;> simp
  rw [lineOf, htext]
  by_cases hcolon : ':' ∈ rest
  · obtain ⟨before, behind, hcut, hnot⟩ := List.eq_append_cons_of_mem hcolon
    have hkey : Key.ofName? (Line.field before) = none := by
      rcases hrest with ⟨rfl, -⟩ | rfl
      · exact absurd hcolon List.not_mem_nil
      -- the space of the label comes before the colon
      · rcases List.cons_eq_append_iff.mp hcut with ⟨rfl, h⟩ | ⟨inner, rfl, h⟩
        · exact absurd (List.cons.inj h).1 (by decide)
        · rw [Line.field_cons_space]
          exact hl.noKey inner behind h fun h => hnot (List.mem_cons_of_mem _ h)
    exact .inl ⟨_, _, Line.Kind.ofChars_header hmark hcut hnot, hkey⟩
  · exact .inr (Line.Kind.ofChars_remark hmark hcolon)

theorem body_description (n : Nat) (l : String) : (lineOf n (labelled "#" l)).body = l := by
  obtain ⟨rest, htext, hrest⟩ := toList_labelled "#" l
  rw [Line.body, lineOf, htext]
  rcases hrest with ⟨rfl, rfl⟩ | rfl
  · rfl
  · exact String.ofList_toList

theorem kind_embed (n : Nat) (htarget : Trimmed value) :
    (lineOf n (labelled "-" value)).kind = .dash value := by
  obtain ⟨rest, htext, hrest⟩ := toList_labelled "-" value
  rw [lineOf, htext]
  exact congrArg Line.Kind.dash (field_behind_label htarget hrest)

theorem kind_action (n : Nat) (haction : IsAction value) : (lineOf n value).kind = .content :=
  Line.Kind.ofChars_content (by simpa using haction.ne_empty) haction.noHash haction.noDash

theorem kind_response (n : Nat) (hresponse : IsResponse value) :
    (lineOf n value).kind = .content ∨ ∃ target, (lineOf n value).kind = .dash target := by
  by_cases hdash : value.toList.head? = some '-'
  · obtain ⟨rest, hrest⟩ := List.head?_eq_some_iff.mp hdash
    exact .inr ⟨Line.field rest, by rw [lineOf, hrest]; rfl⟩
  · have hne : value.toList ≠ [] := List.ne_nil_of_mem hresponse.question
    exact .inl (Line.Kind.ofChars_content hne hresponse.noHash hdash)

/-! ## Reading one line -/

theorem reads_identity (hid : OneLine value) (hne : value ≠ "") (hnew : d.named = false) :
    Draft.Reads o d (lineOf n (labelled "#!" value))
      { d with named := true, script := { d.script with id := value } } :=
  .identity (kind_identity n hid.trimmed) hnew hne

/-- A header line sets what its value means. -/
theorem reads_value {key : Key} {entry : Entry} (hvalue : OneLine value)
    (hmeans : Means key value entry) :
    Draft.Reads o d (lineOf n (labelled ("# " ++ key.name ++ ":") value)) (d.put entry) :=
  .value (kind_header n key hvalue.trimmed) hmeans

/-- A line of the description is read as one. -/
theorem reads_description {l : String} (hl : DescriptionLine l) :
    Draft.Reads o d (lineOf n (labelled "#" l)) (d.describe l) := by
  conv => rhs; rw [← body_description n l]
  rcases kind_description n hl with ⟨name, value, hkind, hkey⟩ | hkind
  · exact .unknown hkind hkey
  · exact .remark hkind

theorem reads_embed (htarget : OneLine value) (hblock : d.block = .empty) :
    Draft.Reads o d (lineOf n (labelled "-" value)) (d.emit o fun flag => .embed ⟨value, flag⟩) :=
  .embed (kind_embed n htarget.trimmed) hblock

theorem reads_action (haction : IsAction value) (hblock : d.block = .empty) :
    Draft.Reads o d (lineOf n value) { d with block := .action n value } :=
  .action (kind_action n haction) hblock

theorem reads_response {m : Nat} {action : String} (hresponse : IsResponse value)
    (hblock : d.block = .action m action) :
    Draft.Reads o d (lineOf n value) { d with block := .complete action value } :=
  .response (kind_response n hresponse) hblock hresponse.question

end ScriptSuite
