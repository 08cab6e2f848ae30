import Mathlib.Data.List.Forall2
import ScriptSuite.Proofs.Script.Declared

/-!
# Proofs/Script/Padding — what a file may hold beside its lines

The same lines can be put into a file in many ways: with blanks at their ends, a carriage return
among them, with or without the last line feed, and behind a byte order mark (`FileOf`).  A
script is read from the lines without the blanks at their ends (`Script.read_congr_trimmed`), so
each of these files gives what the plain one gives, down to the line of a defect.
-/

namespace ScriptSuite

/-! ## Blanks at the ends of a line -/

/-- **Padding**: a line with blanks put at its ends, none of them a line feed. -/
def Pads (l padded : String) : Prop :=
  ∃ front back : String, padded = front ++ l ++ back ∧
    ∀ c ∈ front.toList ++ back.toList, isBlank c = true ∧ c ≠ '\n'

/-- Blanks behind a text are trimmed away with the text's own. -/
theorem trimEnd_append_of_blank {cs back : List Char} (h : ∀ c ∈ back, isBlank c = true) :
    trimEnd (cs ++ back) = trimEnd cs := by
  rw [trimEnd, List.reverse_append,
    List.dropWhile_append_of_pos fun c hc => h c (List.mem_reverse.mp hc), trimEnd]

/-- **Trimming takes off what padding puts on.** -/
theorem trimChars_append_of_blank {front cs back : List Char}
    (hfront : ∀ c ∈ front, isBlank c = true) (hback : ∀ c ∈ back, isBlank c = true) :
    trimChars (front ++ cs ++ back) = trimChars cs := by
  rw [trimChars, trimStart, List.append_assoc, List.dropWhile_append_of_pos hfront, trimChars]
  by_cases hcs : ∀ c ∈ cs, isBlank c = true
  · -- the blanks behind the text are taken off at its beginning already
    rw [List.dropWhile_append_of_pos hcs, List.dropWhile_eq_nil_iff.mpr hback, trimStart,
      List.dropWhile_eq_nil_iff.mpr hcs]
  · have hne : cs.dropWhile isBlank ≠ [] := fun h => hcs (List.dropWhile_eq_nil_iff.mp h)
    rw [List.dropWhile_append, if_neg (by simpa using hne), trimEnd_append_of_blank hback,
      trimStart]

namespace Pads

variable {l padded : String}

theorem trimChars_eq (h : Pads l padded) : trimChars padded.toList = trimChars l.toList := by
  obtain ⟨front, back, rfl, hblank⟩ := h
  obtain ⟨hfront, hback⟩ := List.forall_mem_append.mp hblank
  rw [String.toList_append, String.toList_append]
  exact trimChars_append_of_blank (fun c hc => (hfront c hc).1) fun c hc => (hback c hc).1

theorem noFeed (h : Pads l padded) (hl : '\n' ∉ l.toList) : '\n' ∉ padded.toList := by
  obtain ⟨front, back, rfl, hblank⟩ := h
  obtain ⟨hfront, hback⟩ := List.forall_mem_append.mp hblank
  simp only [String.toList_append, List.mem_append, not_or]
  exact ⟨⟨fun hc => (hfront _ hc).2 rfl, hl⟩, fun hc => (hback _ hc).2 rfl⟩

/-- A byte order mark is not blank, so padding puts none in front of a line. -/
theorem head?_ne_byteOrderMark (h : Pads l padded)
    (hl : l.toList.head? ≠ some Utf8.byteOrderMark) :
    padded.toList.head? ≠ some Utf8.byteOrderMark := by
  obtain ⟨front, back, rfl, hblank⟩ := h
  have hmark : ∀ cs : List Char, (∀ c ∈ cs, isBlank c = true ∧ c ≠ '\n') →
      cs.head? ≠ some Utf8.byteOrderMark := fun cs hcs hhead =>
    absurd (hcs _ (List.mem_of_mem_head? hhead)).1 (by decide)
  obtain ⟨hfront, hback⟩ := List.forall_mem_append.mp hblank
  simp only [String.toList_append, List.head?_append, ne_eq, Option.or_eq_some_iff, not_or]
  exact ⟨⟨hmark _ hfront, fun h => hl h.2⟩, fun h => hmark _ hback h.2⟩

/-- **Padded lines** are lines, and trimming makes them what they were. -/
theorem of_forall₂ {ls padded : List String} (h : List.Forall₂ Pads ls padded)
    (hls : ∀ l ∈ ls, '\n' ∉ l.toList) : (∀ l ∈ padded, '\n' ∉ l.toList) ∧
      padded.map (fun l => trimChars l.toList) = ls.map fun l => trimChars l.toList := by
  induction h with
  | nil => exact ⟨by simp, rfl⟩
  | cons hpad _ ih =>
    obtain ⟨hl, hls⟩ := List.forall_mem_cons.mp hls
    obtain ⟨hfeed, htrim⟩ := ih hls
    refine ⟨List.forall_mem_cons.mpr ⟨hpad.noFeed hl, hfeed⟩, ?_⟩
    rw [List.map_cons, List.map_cons, hpad.trimChars_eq, htrim]

end Pads

/-! ## Lines in a text -/

/-- **A text of these lines**: each with its line feed, but the last one need not have it when it is
not empty. -/
inductive TextOf : List String → String → Prop
  | closed (ls : List String) : TextOf ls (String.join (ls.map (· ++ "\n")))
  | unclosed (ls : List String) {last : String} (hlast : last ≠ "") :
      TextOf (ls ++ [last]) (String.join (ls.map (· ++ "\n")) ++ last)

/-- **The lines of a text of some lines** are these. -/
theorem TextOf.lines_eq {ls : List String} {text : String} (h : TextOf ls text)
    (hls : ∀ l ∈ ls, '\n' ∉ l.toList) : lines text.toList = ls.map String.toList := by
  cases h with
  | closed => exact lines_join hls
  | @unclosed ls last hlast =>
    obtain ⟨hls, hlastFeed⟩ := List.forall_mem_append.mp hls
    rw [String.toList_append, lines_join_append hls,
      lines_of_notMem (hlastFeed last (List.mem_singleton_self _)) (by simpa using hlast),
      List.map_append, List.map_singleton]

/-! ## Files -/

/-- **A file of these lines**: a text of them, with blanks at the ends of each, perhaps behind a
byte order mark. -/
def FileOf (ls : List String) (octets : List UInt8) : Prop :=
  ∃ padded text, List.Forall₂ Pads ls padded ∧ TextOf padded text ∧
    (octets = Utf8.encode text ∨
      octets = Utf8.encode (String.singleton Utf8.byteOrderMark ++ text))

section Files

variable {ls : List String} {text : String} {octets : List UInt8}

/-- A text begins with a byte order mark only when its first line does. -/
theorem head?_ne_byteOrderMark_of_lines (hlines : lines text.toList = ls.map String.toList)
    (hmark : ∀ l ∈ ls.head?, l.toList.head? ≠ some Utf8.byteOrderMark) :
    text.toList.head? ≠ some Utf8.byteOrderMark := by
  intro hhead
  obtain ⟨cs, hcs⟩ := List.head?_eq_some_iff.mp hhead
  rw [hcs, Line.lines_byteOrderMark] at hlines
  obtain ⟨l, _, rfl, hl, -⟩ := List.map_eq_cons_iff.mp hlines.symm
  exact hmark l rfl (by rw [hl]; rfl)

/-- A text that begins with no byte order mark is read strictly from its octets, and from those
behind a byte order mark. -/
theorem decode_of_head?_ne (h : text.toList.head? ≠ some Utf8.byteOrderMark)
    (hoctets : octets = Utf8.encode text ∨
      octets = Utf8.encode (String.singleton Utf8.byteOrderMark ++ text)) :
    Utf8.decode octets = .ok text := by
  rw [Utf8.decode_eq_ok_iff]
  rcases hoctets with rfl | rfl
  · exact ⟨text, rfl, Utf8.eq_withoutMark_iff.mpr (.inr ⟨rfl, h⟩)⟩
  · exact ⟨_, rfl, Utf8.eq_withoutMark_iff.mpr (.inl rfl)⟩

/-- **What a file of some lines says** is a text whose lines are these, but for blanks at their
ends. -/
theorem FileOf.exists_decode (h : FileOf ls octets) (hls : ∀ l ∈ ls, '\n' ∉ l.toList)
    (hmark : ∀ l ∈ ls.head?, l.toList.head? ≠ some Utf8.byteOrderMark) :
    ∃ text, Utf8.decode octets = .ok text ∧
      (lines text.toList).map trimChars = ls.map fun l => trimChars l.toList := by
  obtain ⟨padded, text, hpads, htext, hoctets⟩ := h
  obtain ⟨hfeed, htrim⟩ := Pads.of_forall₂ hpads hls
  have hmark' : ∀ l ∈ padded.head?, l.toList.head? ≠ some Utf8.byteOrderMark := by
    cases hpads with
    | nil => simp
    | cons hpad _ =>
      rintro _ ⟨⟩
      exact hpad.head?_ne_byteOrderMark (hmark _ rfl)
  have hlines := htext.lines_eq hfeed
  refine ⟨text, decode_of_head?_ne (head?_ne_byteOrderMark_of_lines hlines hmark') hoctets, ?_⟩
  rw [hlines, List.map_map]
  exact htrim

/-- The lines as they are. -/
theorem fileOf_plain (ls : List String) :
    FileOf ls (Utf8.encode (String.join (ls.map (· ++ "\n")))) :=
  ⟨ls, _, List.forall₂_same.mpr fun l _ => ⟨"", "", by simp, by simp⟩, .closed ls, .inl rfl⟩

end Files

/-! ## Scripts -/

/-- **A script is read from the lines without the blanks at their ends.** -/
theorem Script.read_congr_trimmed {o : Script.Options} {text text' : String}
    (h : (lines text'.toList).map trimChars = (lines text.toList).map trimChars) :
    Script.read o text' = Script.read o text := by
  have hfrom : ∀ (ls : List (List Char)) (d : Draft) (n : Nat),
      d.readFrom o n (ls.map trimChars) = d.readFrom o n ls := by
    intro ls
    induction ls with
    | nil => exact fun _ _ => rfl
    | cons cs ls ih =>
      intro d n
      have hline : Line.ofChars (n + 1) (trimChars cs) = Line.ofChars (n + 1) cs := by
        rw [Line.ofChars, trimChars_eq_self_iff.mpr (trimmedChars_trimChars cs), Line.ofChars]
      simp only [List.map_cons, Draft.readFrom, hline, ih]
  rw [Script.read, ← hfrom, h, hfrom, Script.read]

/-- **What stands around the lines of a file says nothing.**  Blanks at the ends of lines, a
carriage return before a line feed among them, a last line feed that is left out, and a byte order
mark in front change neither the script nor the defect and its line. -/
theorem Script.ofOctets_fileOf (o : Script.Options) {ls : List String} {octets : List UInt8}
    (hls : ∀ l ∈ ls, '\n' ∉ l.toList)
    (hmark : ∀ l ∈ ls.head?, l.toList.head? ≠ some Utf8.byteOrderMark) (h : FileOf ls octets) :
    Script.ofOctets o octets =
      Script.ofOctets o (Utf8.encode (String.join (ls.map (· ++ "\n")))) := by
  obtain ⟨text, hdecode, hlines⟩ := h.exists_decode hls hmark
  obtain ⟨plain, hdecode', hlines'⟩ := (fileOf_plain ls).exists_decode hls hmark
  rw [Script.ofOctets, hdecode, Script.ofOctets, hdecode']
  exact Script.read_congr_trimmed (hlines.trans hlines'.symm)

/-- Behind a byte order mark, with other blanks and without its last line feed, a text has the same
defect in the same line. -/
theorem Script.ofOctets_fileOf_marked :
    let ls := ["#! x", "", "A", "# \uFEFF", "B"]
    let octets := Utf8.encode "\uFEFF#! x \r\n\u2003\u00A0\r\n\tA\r\n# \uFEFF\n B\r"
    FileOf ls octets ∧ Script.ofOctets {} octets = .error ⟨5, .questionMissing⟩ := by
  intro ls octets
  have hpad : ∀ {l padded : String} (front back : String), padded = front ++ l ++ back →
      ((front.toList ++ back.toList).all fun c => isBlank c && decide (c ≠ '\n')) = true →
      Pads l padded := by
    intro l padded front back hpadded hblank
    exact ⟨front, back, hpadded, fun c hc => by simpa using List.all_eq_true.mp hblank c hc⟩
  have hpads : List.Forall₂ Pads ls ["#! x \r", "\u2003\u00A0\r", "\tA\r", "# \uFEFF", " B\r"] :=
    .cons (hpad "" " \r" rfl (by decide)) <| .cons (hpad "\u2003" "\u00A0\r" rfl (by decide)) <|
      .cons (hpad "\t" "\r" rfl (by decide)) <| .cons (hpad "" "" rfl (by decide)) <|
      .cons (hpad " " "\r" rfl (by decide)) .nil
  have hfile : FileOf ls octets :=
    ⟨_, _, hpads, .unclosed ["#! x \r", "\u2003\u00A0\r", "\tA\r", "# \uFEFF"] (by decide),
      .inr (by decide)⟩
  have hplain : Script.ofOctets {} (Utf8.encode (String.join (ls.map (· ++ "\n")))) =
      .error ⟨5, .questionMissing⟩ := by decide
  exact ⟨hfile, (Script.ofOctets_fileOf {} (by decide) (by decide) hfile).trans hplain⟩

end ScriptSuite
