import ScriptSuite.Proofs.Text.Cutting
import ScriptSuite.Proofs.Text.Trimming
import ScriptSuite.Script.Defect
import ScriptSuite.Script.Line

/-!
# Proofs/Script/Marking — what the marker of a line tells

The kind of a line is read off its first characters.  `Line.Regular` says what a line of each kind
holds, and every line of a text is regular (`regular_of_mem_ofText`).
-/

namespace ScriptSuite

namespace Line

/-! ## Fields -/

theorem field_toList {s : String} (h : Trimmed s) : field s.toList = s := by
  rw [field, trimChars_toList h, String.ofList_toList]

theorem field_cons_space (cs : List Char) : field (' ' :: cs) = field cs := by
  rw [field, trimChars_cons_of_blank (by decide), field]

/-! ## The colon of a header -/

/-- **The cut** is at the first colon. -/
theorem cutColon?_eq_some_iff {cs before behind : List Char} :
    cutColon? cs = some (before, behind) ↔ cs = before ++ ':' :: behind ∧ ':' ∉ before := by
  rw [cutColon?]
  have hsplit := List.takeWhile_append_dropWhile (p := fun c => decide (c ≠ ':')) (l := cs)
  constructor
  · intro h
    split at h
    · exact absurd h (by simp)
    · rename_i c rest hdrop
      have hc : c = ':' := by
        have hhead := List.head?_dropWhile_not (fun c => decide (c ≠ ':')) cs
        rw [hdrop] at hhead
        simpa using hhead
      obtain ⟨rfl, rfl⟩ := Prod.mk.inj (Option.some.inj h)
      refine ⟨?_, fun hmem => by simpa using List.mem_takeWhile_imp hmem⟩
      conv_lhs => rw [← hsplit, hdrop, hc]
  · rintro ⟨rfl, hnot⟩
    have hall : ∀ c ∈ before, decide (c ≠ ':') = true := by
      intro c hc
      rw [decide_eq_true_eq]
      rintro rfl
      exact hnot hc
    rw [List.dropWhile_append_of_pos hall, List.takeWhile_append_of_pos hall]
    simp

theorem cutColon?_eq_none_iff {cs : List Char} : cutColon? cs = none ↔ ':' ∉ cs := by
  rw [Option.eq_none_iff_forall_ne_some]
  constructor
  · intro h hmem
    obtain ⟨before, behind, hcs, hnot⟩ := List.eq_append_cons_of_mem hmem
    exact h _ (cutColon?_eq_some_iff.mpr ⟨hcs, hnot⟩)
  · rintro hnot ⟨before, behind⟩ hcut
    rw [(cutColon?_eq_some_iff.mp hcut).1] at hnot
    simp at hnot

/-! ## Kinds -/

/-- A header or a remark, when no exclamation mark follows the number sign. -/
theorem Kind.ofChars_header {rest before behind : List Char} (hmark : rest.head? ≠ some '!')
    (hrest : rest = before ++ ':' :: behind) (hnot : ':' ∉ before) :
    Kind.ofChars ('#' :: rest) = .header (field before) (field behind) := by
  have hcut := cutColon?_eq_some_iff.mpr ⟨hrest, hnot⟩
  rw [Kind.ofChars.eq_3, hcut]
  rintro r rfl
  exact hmark rfl

theorem Kind.ofChars_remark {rest : List Char} (hmark : rest.head? ≠ some '!') (hnot : ':' ∉ rest) :
    Kind.ofChars ('#' :: rest) = .remark := by
  rw [Kind.ofChars.eq_3, cutColon?_eq_none_iff.mpr hnot]
  rintro r rfl
  exact hmark rfl

theorem Kind.ofChars_content {cs : List Char} (hne : cs ≠ []) (hhash : cs.head? ≠ some '#')
    (hdash : cs.head? ≠ some '-') : Kind.ofChars cs = .content := by
  rw [Kind.ofChars]
  · exact hne
  · rintro r rfl
    exact hhash rfl
  · rintro r rfl
    exact hhash rfl
  · rintro r rfl
    exact hdash rfl

/-- No characters are the end of a text. -/
theorem Kind.ofChars_ne_endOfText (cs : List Char) : Kind.ofChars cs ≠ .endOfText := by
  fun_cases Kind.ofChars cs <;> simp

end Line

/-! ## Lines of a description -/

/-- **A line that can stand in a description**: it does not end in a blank, and what stands before
its first colon is no key that means something. -/
structure DescriptionLine (l : String) : Prop where
  noFeed : '\n' ∉ l.toList
  noBlank : ∀ c ∈ l.toList.getLast?, isBlank c = false
  noKey : ∀ before behind, l.toList = before ++ ':' :: behind → ':' ∉ before →
    Header.Key.ofName? (Line.field before) = none

namespace Line

/-- The body is what follows the number sign, or that without its first space. -/
theorem body_cases {l : Line} {rest : List Char} (htext : l.text.toList = '#' :: rest) :
    ∃ cs, l.body = String.ofList cs ∧ (rest = ' ' :: cs ∨ rest = cs) := by
  rw [body, htext]
  split
  next cs hcs => exact ⟨cs, rfl, .inl hcs⟩
  next => exact ⟨rest, rfl, .inr rfl⟩

/-- The body of a line is a line of a description, when it has no key that means something. -/
theorem descriptionLine_body {l : Line} {rest : List Char} (htext : l.text.toList = '#' :: rest)
    (honeLine : OneLine l.text)
    (hkey : ∀ before behind, rest = before ++ ':' :: behind → ':' ∉ before →
      Header.Key.ofName? (field before) = none) : DescriptionLine l.body := by
  obtain ⟨cs, hbody, hrest⟩ := body_cases htext
  have hsuffix : cs <:+ l.text.toList := by
    rw [htext]
    rcases hrest with rfl | rfl
    · exact ⟨['#', ' '], rfl⟩
    · exact ⟨['#'], rfl⟩
  obtain ⟨front, hfront⟩ := hsuffix
  rw [hbody]
  refine ⟨?_, ?_, ?_⟩ <;> rw [String.toList_ofList]
  · intro hfeed
    exact honeLine.noFeed (hfront ▸ List.mem_append_right front hfeed)
  · intro c hc
    refine honeLine.trimmed.2 c ?_
    rw [← hfront, List.getLast?_append, hc]
    rfl
  · rintro before behind rfl hnot
    rcases hrest with hrest | hrest
    · rw [← field_cons_space]
      exact hkey (' ' :: before) behind hrest (by simpa using hnot)
    · exact hkey before behind hrest hnot

/-! ## Regular lines -/

/-- **What a line of each kind holds.** -/
inductive Regular : Line → Prop
  | identity {n : Nat} {text id : String} (hid : OneLine id) : Regular ⟨n, text, .identity id⟩
  | header {n : Nat} {text key value : String} (hvalue : OneLine value)
      (hbody : Header.Key.ofName? key = none →
        DescriptionLine (body ⟨n, text, .header key value⟩)) :
      Regular ⟨n, text, .header key value⟩
  | remark {n : Nat} {text : String} (hbody : DescriptionLine (body ⟨n, text, .remark⟩)) :
      Regular ⟨n, text, .remark⟩
  | dash {n : Nat} {text target : String} (htext : OneLine text)
      (hmark : text.toList.head? = some '-') (htarget : OneLine target) :
      Regular ⟨n, text, .dash target⟩
  | content {n : Nat} {text : String} (htext : OneLine text) (hne : text ≠ "")
      (hhash : text.toList.head? ≠ some '#') (hdash : text.toList.head? ≠ some '-') :
      Regular ⟨n, text, .content⟩
  | blank {n : Nat} {text : String} : Regular ⟨n, text, .blank⟩
  | endOfText {n : Nat} {text : String} : Regular ⟨n, text, .endOfText⟩

/-- A line is regular when its characters have no line feed. -/
theorem regular_ofChars (n : Nat) {cs : List Char} (hfeed : '\n' ∉ cs) :
    (ofChars n cs).Regular := by
  have htext : OneLine (String.ofList (trimChars cs)) := oneLine_trimChars hfeed
  rw [ofChars]
  generalize hcs : trimChars cs = text at htext
  have hsub : ∀ front rest, text = front ++ rest → OneLine (field rest) := by
    rintro front rest rfl
    refine oneLine_trimChars fun h => htext.noFeed ?_
    rw [String.toList_ofList]
    exact List.mem_append_right front h
  fun_cases Kind.ofChars text with
  | case1 => exact .blank
  | case2 rest => exact .identity (hsub ['#', '!'] rest rfl)
  | case3 rest hmark key value hcut =>
    obtain ⟨rfl, hnot⟩ := cutColon?_eq_some_iff.mp hcut
    refine .header (hsub ('#' :: key ++ [':']) value (by simp)) fun hkey => ?_
    refine descriptionLine_body (String.toList_ofList) htext fun before behind hrest hbefore => ?_
    have hsame := (cutColon?_eq_some_iff.mpr ⟨hrest, hbefore⟩).symm.trans hcut
    rwa [(Prod.mk.inj (Option.some.inj hsame)).1]
  | case4 rest hmark hcut =>
    refine .remark (descriptionLine_body (String.toList_ofList) htext ?_)
    rintro before behind rfl -
    exact absurd (cutColon?_eq_none_iff.mp hcut) (by simp)
  | case5 rest => exact .dash htext (by simp) (hsub ['-'] rest rfl)
  | case6 _ hne _ hhash hdash =>
    have htoList := String.toList_ofList (l := text)
    refine .content htext (fun h => hne ?_) (fun h => ?_) fun h => ?_
    · simpa using h
    · rw [htoList, List.head?_eq_some_iff] at h
      exact hhash _ h.choose_spec
    · rw [htoList, List.head?_eq_some_iff] at h
      exact hdash _ h.choose_spec

theorem regular_of_mem_numbered {n : Nat} {ls : List (List Char)} (hls : ∀ cs ∈ ls, '\n' ∉ cs)
    {l : Line} (hl : l ∈ numbered n ls) : l.Regular := by
  induction ls generalizing n with
  | nil =>
    rw [numbered_nil, List.mem_singleton] at hl
    rw [hl]
    exact .endOfText
  | cons cs ls ih =>
    rw [numbered_cons, List.mem_cons] at hl
    rcases hl with rfl | hl
    · exact regular_ofChars _ (hls cs (List.mem_cons_self ..))
    · exact ih (fun cs' hcs' => hls cs' (List.mem_cons_of_mem cs hcs')) hl

/-- **Every line of a text is regular.** -/
theorem regular_of_mem_ofText {s : String} {l : Line} (hl : l ∈ ofText s) : l.Regular :=
  regular_of_mem_numbered (fun _ hcs => notMem_of_mem_lines hcs) hl

end Line

end ScriptSuite
