import ScriptSuite.Proofs.Script.Emission

/-!
# Proofs/Script/Numbering — the lines of texts that are put together

A text has a line for each of its line feeds, and one more for what stands behind the last of them
(`lineCount`).  Where a text ends with a line, another one may follow: the lines of both are those
of the first and then those of the second, numbered on (`Line.ofText_append_inOrder`).  So what is
said about the lines of a text can be said of a part of it and then of the rest.
-/

namespace ScriptSuite

/-! ## Counting lines -/

/-- Characters that end with a line, if there are any. -/
def EndsLine (cs : List Char) : Prop := ∀ c ∈ cs.getLast?, c = '\n'

instance (cs : List Char) : Decidable (EndsLine cs) := Option.decidableForallMem _

/-- **How many lines some characters have**: one for each line feed, and one for what stands behind
the last. -/
def lineCount (cs : List Char) : Nat := cs.count '\n' + if EndsLine cs then 0 else 1

/-- **Some characters** are lines with their line feeds, and what stands behind the last. -/
theorem exists_lines_append (cs : List Char) : ∃ (ls : List (List Char)) (front : List Char),
    cs = ls.flatMap (· ++ ['\n']) ++ front ∧ (∀ l ∈ ls, '\n' ∉ l) ∧ '\n' ∉ front ∧
      (EndsLine cs ↔ front = []) ∧ ls.length = cs.count '\n' := by
  obtain ⟨ls, front, rfl, hfront, hls, hlength⟩ := exists_flatMap_append cs
  refine ⟨ls, front, rfl, hls, hfront, ⟨fun hends => ?_, ?_⟩, hlength⟩
  · by_contra hne
    have hlast : front.getLast hne ∈ (ls.flatMap (· ++ ['\n']) ++ front).getLast? := by
      rw [List.getLast?_append_of_ne_nil _ hne, List.getLast?_eq_some_getLast hne]
      rfl
    exact hfront (hends _ hlast ▸ List.getLast_mem hne)
  · rintro rfl c hc
    rw [List.append_nil] at hc
    rcases List.eq_nil_or_concat ls with rfl | ⟨ls, l, rfl⟩
    · cases hc
    · simpa using hc.symm

/-- **Lines go on** behind a text that ends with a line. -/
theorem lines_append_of_endsLine {as : List Char} (h : EndsLine as) (bs : List Char) :
    lines (as ++ bs) = lines as ++ lines bs := by
  obtain ⟨ls, front, rfl, hls, -, hends, -⟩ := exists_lines_append as
  rw [hends.mp h, List.append_nil, lines_flatMap_append hls]
  have hfront := lines_flatMap_append hls []
  rw [List.append_nil, lines_nil, List.append_nil] at hfront
  rw [hfront]

/-- There are as many lines as are counted. -/
theorem length_lines (cs : List Char) : (lines cs).length = lineCount cs := by
  obtain ⟨ls, front, hcs, hls, hfeed, hends, hlength⟩ := exists_lines_append cs
  rw [lineCount, ← hlength]
  by_cases hfront : front = []
  · rw [if_pos (hends.mpr hfront), hcs, lines_flatMap_append hls, hfront, lines_nil,
      List.append_nil, Nat.add_zero]
  · rw [if_neg fun h => hfront (hends.mp h), hcs, lines_flatMap_append hls,
      lines_of_notMem hfeed hfront, List.length_append, List.length_singleton]

namespace Line

/-! ## Numbers -/

/-- The same line behind `n` others. -/
def behind (n : Nat) (l : Line) : Line := { l with number := l.number + n }

/-- Lines behind others are the same lines, numbered on. -/
theorem numbered_add (n m : Nat) (ls : List (List Char)) :
    numbered (m + n) ls = (numbered m ls).map (behind n) := by
  induction ls generalizing m with
  | nil => simp [behind, final]
  | cons cs ls ih =>
    rw [numbered_cons, numbered_cons, List.map_cons, ← ih (m + 1), Nat.add_right_comm]
    rfl

/-- **The lines of a text of `n` lines**: numbered in order from one, with the end of the text
behind them and nowhere else. -/
structure InOrder (n : Nat) (ls : List Line) : Prop where
  length_eq : ls.length = n + 1
  getElem?_last : ls[n]? = some (final n)
  number_eq : ∀ i l, ls[i]? = some l → i < n → l.number = i + 1 ∧ l.kind ≠ .endOfText
  oneLine : ∀ l ∈ ls, OneLine l.text

theorem inOrder_ofText (s : String) : InOrder (lineCount s.toList) (ofText s) := by
  rw [← length_lines]
  refine ⟨by simp [ofText, numbered], by simp [ofText, numbered], fun i l hl hi => ?_, ?_⟩
  · rw [ofText, numbered, List.getElem?_append_left (by simpa using hi), List.getElem?_mapIdx,
      List.getElem?_eq_getElem hi, Option.map_some] at hl
    obtain rfl := Option.some.inj hl
    exact ⟨rfl, Kind.ofChars_ne_endOfText _⟩
  · intro l hl
    rw [ofText, numbered, List.mem_append, List.mem_mapIdx] at hl
    rcases hl with ⟨i, hi, rfl⟩ | hl
    · exact oneLine_trimChars (notMem_of_mem_lines (List.getElem_mem hi))
    · rw [List.mem_singleton.mp hl]
      exact oneLine_empty

/-- **The lines of every text are in order**, and where a text ends with a line another one may
follow: the end of the first gives way to the lines of the second, which are numbered on. -/
theorem ofText_append_inOrder :
    (∀ s : String, InOrder (lineCount s.toList) (ofText s)) ∧
    ∀ a b : String, (a = "" ∨ a.toList.getLast? = some '\n') →
      ofText (a ++ b) = (ofText a).dropLast ++ (ofText b).map (behind (lineCount a.toList)) := by
  refine ⟨inOrder_ofText, fun a b ha => ?_⟩
  have hends : EndsLine a.toList := by
    rcases ha with rfl | ha
    · exact fun c hc => by simp at hc
    · exact fun c hc => Option.some.inj (hc.symm.trans ha)
  have hwritten : (ofText a).dropLast = ofLines (lines a.toList) := by
    rw [ofText_eq, List.dropLast_concat, written, ofLines]
  rw [hwritten, ofText, String.toList_append, lines_append_of_endsLine hends, numbered_append,
    length_lines, ← Nat.zero_add (lineCount a.toList), numbered_add, Nat.zero_add, ofText]

/-- A text of two lines, the second of them blank, before a line that does not end. -/
theorem ofText_append_inOrder_blank :
    "#! a\r\n \n".toList.getLast? = some '\n' ∧
      ofText ("#! a\r\n \n" ++ " - b\t") =
        [⟨1, "#! a", .identity "a"⟩, ⟨2, "", .blank⟩, ⟨3, "- b", .dash "b"⟩, final 3] := by
  have hlast : "#! a\r\n \n".toList.getLast? = some '\n' := by decide
  refine ⟨hlast, ?_⟩
  rw [ofText_append_inOrder.2 _ _ (.inr hlast)]
  decide

end Line

end ScriptSuite
